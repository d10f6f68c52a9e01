import ZfsForensic.Lemmas.SnapshotReads

/-!
# Snapshot recovery is exact

On an opened pool whose head dataset resolves, `recoverDeleted` goes through the snapshots of its chain once each, and returns for
each name that is not live the newest entry whose content reads. The values are those a release build returns; a debug build
returns the same where it does not stop.
-/

namespace ZfsForensic

open Octets Checked Checked.Run

/-- What is recovered for a name is the entry of the newest snapshot that has one whose content reads, the first such there. -/
theorem newest_of_mem_recovered {Γ : Ctx} {disk : Disk} {mos : ObjsetPhys} {endian : Endian} {headDs : Dnode}
    (hhead : (headDataset disk mos).value = some headDs) {r : RecoveredFile}
    (hr : r ∈ (recoverFrom Γ disk mos endian).value) :
    ∃ newer s older before e after, visitedSnapshots disk mos headDs = newer ++ s :: older ∧
      rootListing disk endian s.2 = before ++ e :: after ∧ e.1 = r.path ∧ e.2 = r.inode ∧
      snapshotContent disk endian s e.2 = some r.content ∧
      (∀ e' ∈ before, e'.1 = r.path → snapshotContent disk endian s e'.2 = none) ∧
      ∀ s' ∈ newer, ∀ e' ∈ rootListing disk endian s'.2, e'.1 = r.path → snapshotContent disk endian s' e'.2 = none := by
  obtain ⟨c, front, back, hcs, -, hcarve, hfirst⟩ :=
    ((collected_recoverFrom Γ disk mos endian headDs hhead).mem_iff r).1 hr
  obtain ⟨newer, s, older, before', after', hss, hentries, rfl⟩ := Collect.flatMap_eq_append_cons hcs
  obtain ⟨before, tail, hlisting, rfl, htail⟩ := List.map_eq_append_iff.1 hentries
  obtain ⟨e, after, rfl, rfl, -⟩ := List.map_eq_cons_iff.1 htail
  obtain ⟨content, hcontent, rfl⟩ := Option.map_eq_some_iff.1 hcarve
  have hnone : ∀ s' e', carve Γ disk endian (s', e') = none → snapshotContent disk endian s' e'.2 = none :=
    fun s' e' h => Option.map_eq_none_iff.1 h
  refine ⟨newer, s, older, before, e, after, hss, hlisting, rfl, rfl, hcontent, fun e' he' hname => ?_,
    fun s' hs' e' he' hname => ?_⟩
  · exact hnone s e' (hfirst (s, e') (List.mem_append_right _ (List.mem_map_of_mem he')) hname)
  · refine hnone s' e' (hfirst (s', e') (List.mem_append_left _ (List.mem_flatMap.2 ⟨s', hs', ?_⟩)) hname)
    exact List.mem_map_of_mem he'

/-- Recovery goes through the snapshots of the chain once each, newest first; the names it returns differ from each other and are
not live; it returns every name of a snapshot that is not live and whose content reads there; and it returns it as the newest
snapshot that has it holds it. -/
theorem recoverDeleted_exact (Γ : Ctx) (image : Bytes) (mos : ObjsetPhys) (endian : Endian) (headDs : Dnode)
    (ss : List Snapshot) (hopen : openMos Γ image = some (mos, endian))
    (hhead : (headDataset (readBlock Γ image) mos).value = some headDs)
    (hchain : IsSnapshotChain (readBlock Γ image) mos headDs ss) (hlen : ss.length ≤ 4096) :
    ((recoverDeleted Γ image).value = ss.foldl (fun out s => (recoverFromSnapshot Γ (readBlock Γ image) s.2 s.1 endian
        (rootListing (readBlock Γ image) endian headDs) out).value) [] ∧ (ss.map Prod.fst).Nodup) ∧
      ((recoverDeleted Γ image).value.map RecoveredFile.path).Nodup ∧
      (∀ r ∈ (recoverDeleted Γ image).value, r.path ∉ liveNames (readBlock Γ image) endian headDs) ∧
      (∀ name, name ∈ (recoverDeleted Γ image).value.map RecoveredFile.path ↔
        name ∉ liveNames (readBlock Γ image) endian headDs ∧ ∃ s ∈ ss, ∃ e ∈ rootListing (readBlock Γ image) endian s.2,
          e.1 = name ∧ (snapshotContent (readBlock Γ image) endian s e.2).isSome = true) ∧
      ∀ r ∈ (recoverDeleted Γ image).value, ∃ newer s older before e after, ss = newer ++ s :: older ∧
        rootListing (readBlock Γ image) endian s.2 = before ++ e :: after ∧ e.1 = r.path ∧ e.2 = r.inode ∧
        snapshotContent (readBlock Γ image) endian s e.2 = some r.content ∧
        (∀ e' ∈ before, e'.1 = r.path → snapshotContent (readBlock Γ image) endian s e'.2 = none) ∧
        ∀ s' ∈ newer, ∀ e' ∈ rootListing (readBlock Γ image) endian s'.2, e'.1 = r.path →
          snapshotContent (readBlock Γ image) endian s' e'.2 = none := by
  have hvisited := visitedSnapshots_eq _ _ _ hchain hlen
  have hnames := @mem_recovered_iff Γ _ _ endian _ hhead
  rw [hvisited] at hnames
  rw [value_recoverDeleted hopen]
  refine ⟨⟨?_, hchain.nodup⟩, (collected_recoverFrom Γ _ mos endian headDs hhead).nodup, fun r hr => ?_, hnames,
    fun r hr => ?_⟩
  · rw [value_recoverFrom Γ _ mos endian headDs hhead, hvisited]
  · exact ((hnames r.path).1 (List.mem_map_of_mem hr)).1
  · have hnewest := newest_of_mem_recovered hhead hr
    rwa [hvisited] at hnewest

/-- Of the small pool, two names are recovered: the one both snapshots hold and the one only the older holds, but not the live one. The first has the
content of the newer snapshot. -/
theorem recoverDeleted_twoSnapshots :
    (∀ name, name ∈ (recoverDeleted plainCtx smallImage).value.map RecoveredFile.path ↔ name = ascii "gone" ∨ name = ascii "old") ∧
      ∀ r ∈ (recoverDeleted plainCtx smallImage).value, r.path = ascii "gone" → r.content = [4, 5] := by
  obtain ⟨mos, headDs, newerDs, olderDs, h⟩ := exists_smallReads
  have hlive : rootListing (readBlock plainCtx smallImage) .little headDs = [(ascii "a", 6), (ascii "d", 7), (ascii "sparse", 8)] :=
    h.headAt.rootListing _
  have hnewer : rootListing (readBlock plainCtx smallImage) .little newerDs = [(ascii "a", 6), (ascii "gone", 7)] := h.newerAt.rootListing _
  have holder : rootListing (readBlock plainCtx smallImage) .little olderDs = [(ascii "gone", 7), (ascii "a", 6), (ascii "old", 8)] :=
    h.olderAt.rootListing _
  have hgone : snapshotContent (readBlock plainCtx smallImage) .little (4, newerDs) 7 = some [4, 5] :=
    h.newerAt.snapshotContent_entry _ 4 entryGone
  have hold : snapshotContent (readBlock plainCtx smallImage) .little (5, olderDs) 8 = some [6] :=
    h.olderAt.snapshotContent_entry _ 5 entryOld
  obtain ⟨-, -, -, hnames, hnewest⟩ :=
    recoverDeleted_exact plainCtx smallImage mos .little headDs [(4, newerDs), (5, olderDs)] h.opened h.head h.chain (show 2 ≤ 4096 by decide)
  refine ⟨fun name => ?_, fun r hr hpath => ?_⟩
  · rw [hnames, liveNames, hlive]
    constructor
    · rintro ⟨hname, s, hs, e, he, rfl, -⟩
      simp only [List.mem_cons, List.not_mem_nil, or_false] at hs
      rcases hs with rfl | rfl
      · rw [hnewer] at he
        simp only [List.mem_cons, List.not_mem_nil, or_false] at he
        rcases he with rfl | rfl
        · exact absurd List.mem_cons_self hname
        · exact Or.inl rfl
      · rw [holder] at he
        simp only [List.mem_cons, List.not_mem_nil, or_false] at he
        rcases he with rfl | rfl | rfl
        · exact Or.inl rfl
        · exact absurd List.mem_cons_self hname
        · exact Or.inr rfl
    · rintro (rfl | rfl)
      · refine ⟨by decide, (4, newerDs), List.mem_cons_self, (ascii "gone", 7), ?_, rfl, ?_⟩
        · rw [hnewer]
          decide
        · rw [hgone]
          rfl
      · refine ⟨by decide, (5, olderDs), List.mem_cons_of_mem _ List.mem_cons_self, (ascii "old", 8), ?_, rfl, ?_⟩
        · rw [holder]
          decide
        · rw [hold]
          rfl
  · obtain ⟨front, s, back, before, e, after, hss, hroot, hname, -, hcontent, -, hfront⟩ := hnewest r hr
    rw [hpath] at hname hfront
    -- The older snapshot is not the one: the newer holds the name, and what is under it reads.
    cases front with
    | nil =>
      obtain ⟨rfl, -⟩ := List.cons.inj hss
      have he : e ∈ rootListing (readBlock plainCtx smallImage) .little newerDs := hroot ▸ List.mem_append_right _ List.mem_cons_self
      rw [hnewer] at he
      simp only [List.mem_cons, List.not_mem_nil, or_false] at he
      rcases he with rfl | rfl
      · exact absurd hname (by decide)
      · rw [hgone, Option.some.injEq] at hcontent
        exact hcontent.symm
    | cons s' front =>
      obtain ⟨rfl, -⟩ := List.cons.inj hss
      have hnone := hfront (4, newerDs) List.mem_cons_self (ascii "gone", 7) (by rw [hnewer]; decide) rfl
      rw [hgone] at hnone
      exact absurd hnone (by simp)

end ZfsForensic
