import ZfsForensic.Lib.History
import ZfsForensic.Theorems.WrittenRecovery

/-!
# Recovery over histories

What recovery is for: a history of writes, removals and snapshots ends in a pool that records it, its head what is live and its snapshots what
they caught. Of every such pool the recovery gives the names the history dropped, each with the content of the last snapshot that caught it.
-/

namespace ZfsForensic

open Octets Checked Checked.Run

/-- A volume shows some files: every entry of its root names an object with the content of its name, and no file is missing. -/
structure Volume.Shows (v : Volume) (files : Bytes → Option Bytes) : Prop where
  held : ∀ e ∈ v.rootEntries, ∃ o, v.object? e.object = some o ∧ files e.name = some o.content
  named : ∀ name content, files name = some content → name ∈ v.rootEntries.map VolEntry.name

/-- A pool records the state of a history: its head shows what is live, and its snapshots, newest first, what they caught. -/
structure Pool.Records (pool : Pool) (s : History.State Bytes Bytes) : Prop where
  head : pool.head.Shows s.live
  snapshots : List.Forall₂ Volume.Shows pool.snapshots s.snapshots

section Shows

variable {Γ : Ctx} {v : Volume} {files : Bytes → Option Bytes}

/-- The names of the root are those of the files. -/
theorem Volume.Shows.contains_eq (h : v.Shows files) (name : Bytes) :
    (v.rootEntries.map VolEntry.name).contains name = (files name).isSome := by
  rw [Bool.eq_iff_iff, List.contains_iff_mem, Option.isSome_iff_exists]
  constructor
  · intro hname
    obtain ⟨e, he, rfl⟩ := List.mem_map.1 hname
    obtain ⟨o, -, hfile⟩ := h.held e he
    exact ⟨o.content, hfile⟩
  · rintro ⟨content, hfile⟩
    exact h.named name content hfile

/-- What a volume holds is the content of one of its files. -/
theorem Volume.Shows.of_mem_held (h : v.Shows files) {i : Nat} {r : RecoveredFile} (hr : r ∈ v.held Γ i) :
    files r.path = some r.content := by
  obtain ⟨e, he, hmake⟩ := List.mem_filterMap.1 hr
  obtain ⟨o, ho, hfile⟩ := h.held e he
  rw [ho, Option.map_some, Option.some.injEq] at hmake
  rw [← hmake]
  exact hfile

/-- A search for a name in what a volume holds gives its file. -/
theorem Volume.Shows.find?_held (h : v.Shows files) (i : Nat) (name : Bytes) :
    ((v.held Γ i).find? (fun r => decide (r.path = name))).map RecoveredFile.content = files name := by
  cases hfind : (v.held Γ i).find? (fun r => decide (r.path = name)) with
  | some r =>
    have hpath : r.path = name := by simpa using List.find?_some hfind
    rw [Option.map_some, ← h.of_mem_held (List.mem_of_find?_eq_some hfind), hpath]
  | none =>
    rw [Option.map_none]
    cases hfile : files name with
    | none => rfl
    | some content =>
      obtain ⟨e, he, hname⟩ := List.mem_map.1 (h.named name content hfile)
      obtain ⟨o, ho, -⟩ := h.held e he
      have hmem : recoveredAs Γ i e o ∈ v.held Γ i := List.mem_filterMap.2 ⟨e, he, by rw [ho, Option.map_some]⟩
      have hpath : (recoveredAs Γ i e o).path = name := hname
      exact absurd hpath (by simpa using List.find?_eq_none.1 hfind _ hmem)

/-- The first snapshot that holds a name is the first of the history that does. -/
theorem findSome?_held {vs : List Volume} {snaps : List (Bytes → Option Bytes)} (h : List.Forall₂ Volume.Shows vs snaps) (number : Nat → Nat)
    (name : Bytes) :
    ((vs.mapIdx fun i v => v.held Γ (number i)).findSome? (List.find? fun r => decide (r.path = name))).map RecoveredFile.content =
      snaps.findSome? fun files => files name := by
  induction h generalizing number with
  | nil => rfl
  | @cons v files vs snaps hv _ ih =>
    rw [List.mapIdx_cons, List.findSome?_cons, List.findSome?_cons, ← hv.find?_held (Γ := Γ) (number 0) name]
    cases (v.held Γ (number 0)).find? (fun r => decide (r.path = name)) with
    | none => exact ih fun i => number (i + 1)
    | some r => rfl

end Shows

section Deleted

variable {Γ : Ctx} {pool : Pool} {s : History.State Bytes Bytes}

/-- A search for a name among what is not live: what was caught of it, if it is gone. -/
theorem Pool.Records.find?_deleted (h : pool.Records s) (name : Bytes) :
    ((((pool.snapshots.mapIdx fun i v => v.held Γ i).flatten).filter
        fun r => !(pool.head.rootEntries.map VolEntry.name).contains r.path).find? (fun r => decide (r.path = name))).map RecoveredFile.content =
      if (s.live name).isSome = true then none else s.caught name := by
  rw [Collect.find?_filter_barred, h.head.contains_eq, List.find?_flatten]
  split
  · rfl
  · exact findSome?_held h.snapshots (fun i => i) name

/-- A file is among the deleted ones with a content where it was caught with it and is gone. -/
theorem Pool.Records.mem_deleted_iff (h : pool.Records s) (name content : Bytes) :
    (∃ r ∈ pool.deleted Γ, r.path = name ∧ r.content = content) ↔ s.caught name = some content ∧ s.live name = none := by
  have hfind := h.find?_deleted (Γ := Γ) name
  constructor
  · rintro ⟨r, hr, rfl, rfl⟩
    rw [(Collect.mem_firsts_iff _ r).1 hr, Option.map_some] at hfind
    split at hfind
    · exact absurd hfind (by simp)
    · rename_i hlive
      exact ⟨hfind.symm, Option.not_isSome_iff_eq_none.1 hlive⟩
  · rintro ⟨hcaught, hlive⟩
    rw [hlive, if_neg (by simp), hcaught] at hfind
    obtain ⟨r, hr, hcontent⟩ := Option.map_eq_some_iff.1 hfind
    have hpath : r.path = name := by simpa using List.find?_some hr
    refine ⟨r, (Collect.mem_firsts_iff _ r).2 ?_, hpath, hcontent⟩
    rw [hpath]
    exact hr

/-- A deleted file is described by its content. -/
theorem Pool.of_mem_deleted {r : RecoveredFile} (hr : r ∈ pool.deleted Γ) :
    r.size = UInt64.ofNat r.content.length ∧ r.contentSha256 = sha256Hex Γ r.content := by
  have hmem := List.mem_of_find?_eq_some ((Collect.mem_firsts_iff _ r).1 hr)
  obtain ⟨rs, hrs, hr⟩ := List.mem_flatten.1 (List.mem_filter.1 hmem).1
  obtain ⟨i, hi, rfl⟩ := List.mem_mapIdx.1 hrs
  obtain ⟨e, -, hmake⟩ := List.mem_filterMap.1 hr
  obtain ⟨o, -, rfl⟩ := Option.map_eq_some_iff.1 hmake
  exact ⟨rfl, rfl⟩

end Deleted

/-- After every history, the recovery of a pool that records it gives the names the history dropped, each once, with the content the last
snapshot caught, its size and its digest: a name that is live again, or was never caught, is not among them. -/
theorem recoverDeleted_of_history {Γ : Ctx} (P : Packer Γ) (pool : Pool) (events : List (History.Event Bytes Bytes))
    (hsize : (P.writePool pool).length < 2 ^ 59) (hrecords : pool.Records (History.run events)) :
    ∃ files, recoverDeleted Γ (P.writePool pool) = pure files ∧ (files.map RecoveredFile.path).Nodup ∧
      (∀ name content, (∃ r ∈ files, r.path = name ∧ r.content = content) ↔ History.Dropped events name content) ∧
      ∀ r ∈ files, r.size = UInt64.ofNat r.content.length ∧ r.contentSha256 = sha256Hex Γ r.content := by
  have hat := P.poolAt_writePool hsize
  refine ⟨pool.deleted Γ, Run.ext (hat.recovered P) (recoverDeleted_panics_of_fits (hat.poolFits P)), Collect.nodup_keys_firsts _,
    fun name content => ?_, fun r hr => Pool.of_mem_deleted hr⟩
  rw [hrecords.mem_deleted_iff, History.dropped_iff]

/-- What is written before the older snapshot of the small pool. -/
def writesBeforeOlder : List (History.Event Bytes Bytes) :=
  [.write (ascii "gone") [9], .write (ascii "a") [0], .write (ascii "old") [6]]

/-- What happens up to the newer one: a file is removed, and the two others are written anew. -/
def eventsBeforeNewer : List (History.Event Bytes Bytes) :=
  writesBeforeOlder ++ .snapshot :: [.remove (ascii "old"), .write (ascii "gone") [4, 5], .write (ascii "a") [1]]

/-- A history of the small pool: behind the newer snapshot a file is written once more, a directory and a sparse file are made, and the other
file is removed. -/
def smallHistory : List (History.Event Bytes Bytes) :=
  eventsBeforeNewer ++ .snapshot ::
    [.write (ascii "a") [1, 2, 3], .write (ascii "d") smallSubdir.content, .write (ascii "sparse") sparseData, .remove (ascii "gone")]

/-- A volume shows the files its root lists, if each entry of the root has its object and its name its content. -/
theorem Volume.shows_of_root {v : Volume} {files : Bytes → Option Bytes}
    (hheld : ∀ e ∈ v.rootEntries, ∃ o, v.object? e.object = some o ∧ files e.name = some o.content)
    (hrest : ∀ name, name ∉ v.rootEntries.map VolEntry.name → files name = none) : v.Shows files := by
  refine ⟨hheld, fun name content h => ?_⟩
  by_contra hname
  rw [hrest name hname] at h
  exact absurd h (by simp)

theorem rootEntries_smallHead : smallHead.rootEntries = [entryA, entryD, entrySparse] := rfl

theorem rootEntries_smallSnapshot : smallSnapshot.rootEntries = [entryA, entryGone] := rfl

theorem rootEntries_olderSnapshot : olderSnapshot.rootEntries = [entryGone, entryA, entryOld] := rfl

theorem shows_smallHead : smallHead.Shows (History.run smallHistory).live := by
  refine Volume.shows_of_root (fun e he => ?_) fun name hname => ?_
  · rw [rootEntries_smallHead] at he
    simp only [List.mem_cons, List.not_mem_nil, or_false] at he
    rcases he with rfl | rfl | rfl
    · exact ⟨smallFile [1, 2, 3] (by decide), rfl, rfl⟩
    · exact ⟨smallSubdir, rfl, rfl⟩
    · exact ⟨sparseFile, rfl, rfl⟩
  · have hnames : smallHead.rootEntries.map VolEntry.name = [ascii "a", ascii "d", ascii "sparse"] := rfl
    rw [hnames] at hname
    simp only [List.mem_cons, List.not_mem_nil, or_false, not_or] at hname
    by_cases hgone : name = ascii "gone"
    · simp [smallHistory, eventsBeforeNewer, writesBeforeOlder, History.run, History.step, hgone]
    · simp [smallHistory, eventsBeforeNewer, writesBeforeOlder, History.run, History.step, hname, hgone]

theorem shows_smallSnapshot : smallSnapshot.Shows (History.run eventsBeforeNewer).live := by
  refine Volume.shows_of_root (fun e he => ?_) fun name hname => ?_
  · rw [rootEntries_smallSnapshot] at he
    simp only [List.mem_cons, List.not_mem_nil, or_false] at he
    rcases he with rfl | rfl
    · exact ⟨smallFile [1] (by decide), rfl, rfl⟩
    · exact ⟨smallFile [4, 5] (by decide), rfl, rfl⟩
  · have hnames : smallSnapshot.rootEntries.map VolEntry.name = [ascii "a", ascii "gone"] := rfl
    rw [hnames] at hname
    simp only [List.mem_cons, List.not_mem_nil, or_false, not_or] at hname
    by_cases hold : name = ascii "old"
    · subst hold
      simp [eventsBeforeNewer, writesBeforeOlder, History.run, History.step, hname]
    · simp [eventsBeforeNewer, writesBeforeOlder, History.run, History.step, hname, hold]

theorem shows_olderSnapshot : olderSnapshot.Shows (History.run writesBeforeOlder).live := by
  refine Volume.shows_of_root (fun e he => ?_) fun name hname => ?_
  · rw [rootEntries_olderSnapshot] at he
    simp only [List.mem_cons, List.not_mem_nil, or_false] at he
    rcases he with rfl | rfl | rfl
    · exact ⟨smallFile [9] (by decide), rfl, rfl⟩
    · exact ⟨smallFile [0] (by decide), rfl, rfl⟩
    · exact ⟨smallFile [6] (by decide), rfl, rfl⟩
  · have hnames : olderSnapshot.rootEntries.map VolEntry.name = [ascii "gone", ascii "a", ascii "old"] := rfl
    rw [hnames] at hname
    simp only [List.mem_cons, List.not_mem_nil, or_false, not_or] at hname
    simp [writesBeforeOlder, History.run, History.step, hname]

/-- The small pool is where its history ends: its head is what is live, and its snapshots are what they caught. -/
theorem records_smallPool : smallPool.Records (History.run smallHistory) :=
  ⟨shows_smallHead, .cons shows_smallSnapshot (.cons shows_olderSnapshot .nil)⟩

/-- The file that is gone is recovered as the newer snapshot caught it, and the one that only the older caught as it caught that. -/
theorem recoverDeleted_smallHistory :
    ∃ files, recoverDeleted plainCtx ((Packer.stored plainCtx).writePool smallPool) = pure files ∧
      (∃ r ∈ files, r.path = ascii "gone" ∧ r.content = [4, 5]) ∧ ∃ r ∈ files, r.path = ascii "old" ∧ r.content = [6] := by
  obtain ⟨files, hfiles, -, hdropped, -⟩ :=
    recoverDeleted_of_history (Packer.stored plainCtx) smallPool smallHistory (length_smallPool _) records_smallPool
  have hgone : History.Dropped smallHistory (ascii "gone") [4, 5] := (History.dropped_iff _ _ _).2 ⟨rfl, rfl⟩
  have hold : History.Dropped smallHistory (ascii "old") [6] := (History.dropped_iff _ _ _).2 ⟨rfl, rfl⟩
  exact ⟨files, hfiles, (hdropped _ _).2 hgone, (hdropped _ _).2 hold⟩

end ZfsForensic
