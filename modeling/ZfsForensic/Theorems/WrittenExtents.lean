import ZfsForensic.Lemmas.PoolReads
import ZfsForensic.Lemmas.SmallPool
import ZfsForensic.Theorems.Extents

/-!
# The extents of what is written

The runs a mount names for an object are where its records lie: one run for each record that is not all zeros, in order, whatever levels of indirect
blocks stand above them. So what a tool carves at the runs is the object's content.
-/

namespace ZfsForensic

open Octets Checked Checked.Run

/-! ## Records -/

/-- Whether a run is where the packed bytes of a record lie. -/
structure Packer.RunOf {Γ : Ctx} (P : Packer Γ) (image : Bytes) (run : ZfsFs.RunInfo) (r : Bytes) : Prop where
  part : Part image run.imageOffset.toNat (P.pack r)
  len : run.len = (P.pack r).length
  compressed : run.compressed = decide (P.code r ≠ 0 ∧ P.code r ≠ 2)

/-- A pointer to a record: a hole for one of zeros, or the run of its packed bytes. -/
inductive Packer.Locates {Γ : Ctx} (P : Packer Γ) (image : Bytes) (p : Blkptr) (r : Bytes) : Prop
  | zeros (hzero : allZero r = true) (hhole : p.isHole = true)
  | run (hdata : allZero r = false) (hhole : p.isHole = false) (haddressable : p.addressable = true)
      (hrun : P.RunOf image (ZfsFs.runInfo p) r)

section Records

variable {Γ : Ctx} (P : Packer Γ) {image : Bytes}

/-- Every record is located by its pointer. -/
theorem Packer.locates_recordPtrs (objectType : UInt8) {records : List Bytes} (hwhole : ∀ r ∈ records, Whole r) {sector : Nat}
    (hpart : Part image (0x400000 + 512 * sector) (P.recordsBytes records))
    (hfits : sector + sectorsOf (P.recordsBytes records) < 2 ^ 50) :
    List.Forall₂ (P.Locates image) (P.recordPtrs objectType sector records) records := by
  refine forall₂_ptrsFrom (fun r hr => P.sectored_recordBytes (hwhole r hr)) (fun r hr s hs hr' => ?_) hpart hfits
  unfold recordPtr
  unfold recordBytes at hs hr'
  cases hzero : allZero r with
  | true =>
    rw [if_pos rfl]
    exact .zeros hzero rfl
  | false =>
    rw [hzero, if_neg Bool.false_ne_true] at hs hr'
    rw [if_neg Bool.false_ne_true]
    have hr := hwhole r hr
    have hfirst : (P.blockPtr s objectType 0 r).dvas.get 0 = ⟨0, UInt32.ofNat (sectorsOf (P.pack r)), UInt64.ofNat s, false⟩ := rfl
    have hlen : (P.blockPtr s objectType 0 r).psizeBytes = (P.pack r).length := psizeBytes_of_sectors rfl (P.whole r hr) rfl
    refine .run hzero (P.isHole_blockPtr objectType 0 hr) ?_ ⟨?_, hlen, rfl⟩
    · rw [Blkptr.addressable, hfirst, P.isEmpty_dva hr]
      rfl
    · rw [ZfsFs.runInfo, hfirst]
      dsimp only
      rw [physicalByteOffset_of_sector (by omega)]
      exact hr'

/-- The pointers that are no holes name the runs of the records that are not zeros. -/
theorem Packer.runs_of_locates {ptrs : List Blkptr} {records : List Bytes} (h : List.Forall₂ (P.Locates image) ptrs records) :
    List.Forall₂ (P.RunOf image) (((ptrs.filter fun p => !p.isHole).filter Blkptr.addressable).map ZfsFs.runInfo)
      (records.filter fun r => !allZero r) := by
  induction h with
  | nil => exact .nil
  | @cons p r ptrs records hone _ ih =>
    cases hone with
    | zeros hzero hhole =>
      rw [List.filter_cons_of_neg (by simp [hhole]), List.filter_cons_of_neg (by simp [hzero])]
      exact ih
    | run hdata hhole haddressable hrun =>
      rw [List.filter_cons_of_pos (by simp [hhole]), List.filter_cons_of_pos haddressable, List.filter_cons_of_pos (by simp [hdata]),
        List.map_cons]
      exact .cons hrun ih

end Records

/-! ## Levels -/

/-- The pointers in an indirect block: those written, and holes. -/
theorem parse_indirectBlock {ptrs : List Blkptr} (hle : ptrs.length ≤ 1024) (hstored : ∀ p ∈ ptrs, p.Stored) :
    (blkptrChunks (indirectBlock ptrs)).map (Blkptr.parse · .little) =
      ptrs ++ List.replicate (1024 - ptrs.length) (Blkptr.parse (zeros blkptrSize) .little) := by
  have hsize : blkptrSize = 128 := rfl
  have hcount : (indirectBlock ptrs).length / blkptrSize = 1024 := by rw [length_indirectBlock hle, hsize]
  rw [blkptrChunks, hcount, List.map_map]
  refine List.ext_getElem? fun i => ?_
  rw [List.getElem?_map]
  by_cases hin : i < ptrs.length
  · obtain ⟨p, hp⟩ : ∃ p, ptrs[i]? = some p := ⟨_, List.getElem?_eq_getElem hin⟩
    obtain ⟨-, -, heq⟩ := slice?_eq_some_iff.1 (slice?_indirectBlock hp)
    rw [Nat.add_sub_cancel_left] at heq
    rw [List.getElem?_append_left hin, hp, List.getElem?_range (by omega), Option.map_some, Function.comp_apply, ← heq,
      Blkptr.parse_encode (hstored p (List.mem_of_getElem? hp))]
  · rw [List.getElem?_append_right (by omega)]
    have hbytes : i * blkptrSize = i * 128 ∧ ptrs.length * blkptrSize = ptrs.length * 128 := by rw [hsize]; exact ⟨rfl, rfl⟩
    by_cases hi : i < 1024
    · have hzeros : ((indirectBlock ptrs).drop (i * blkptrSize)).take blkptrSize = zeros blkptrSize := by
        rw [indirectBlock, List.drop_append, List.drop_eq_nil_of_le (by rw [Blkptr.length_flatMap_encode]; omega), List.nil_append,
          Blkptr.length_flatMap_encode, zeros, List.drop_replicate, List.take_replicate, Nat.min_eq_left (by omega), zeros]
      rw [List.getElem?_range hi, Option.map_some, Function.comp_apply, hzeros, List.getElem?_replicate_of_lt (by omega)]
    · rw [List.getElem?_eq_none (by rw [List.length_range]; omega), Option.map_none,
        List.getElem?_eq_none (by rw [List.length_replicate]; omega)]

/-- So the holes apart, an indirect block has the pointers written. -/
theorem present_groups {groups : List (List Blkptr)} (h : ∀ g ∈ groups, g.length ≤ 1024 ∧ ∀ p ∈ g, p.Stored) :
    Sparse.present Blkptr.isHole (groups.flatMap fun g => (blkptrChunks (indirectBlock g)).map (Blkptr.parse · .little)) =
      Sparse.present Blkptr.isHole groups.flatten := by
  induction groups with
  | nil => rfl
  | cons g groups ih =>
    obtain ⟨hle, hstored⟩ := h g List.mem_cons_self
    have hholes : Sparse.present Blkptr.isHole (List.replicate (1024 - g.length) (Blkptr.parse (zeros blkptrSize) .little)) = [] := by
      rw [Sparse.present, List.filter_replicate_of_neg (by rw [(parse_zeros_isHole .little).1]; decide)]
    rw [List.flatMap_cons, Sparse.present_append, parse_indirectBlock hle hstored, Sparse.present_append, hholes, List.append_nil,
      ih fun g' hg' => h g' (List.mem_cons_of_mem g hg'), List.flatten_cons, Sparse.present_append]

theorem expandLevels_nil (disk : Disk) (n : Nat) : expandLevels disk n [] = [] := by cases n <;> rfl

/-- One more level is expanded behind the others. -/
theorem expandLevels_succ (disk : Disk) (n : Nat) (ptrs : List Blkptr) :
    expandLevels disk (n + 1) ptrs = expandLevel disk (expandLevels disk n ptrs) [] := by
  by_cases hnil : ptrs = []
  · rw [hnil, expandLevels_nil, expandLevels_nil]
    rfl
  · induction n generalizing ptrs with
    | zero => exact if_neg hnil
    | succ n ih =>
      have hfront : ∀ m, expandLevels disk (m + 1) ptrs = expandLevels disk m (expandLevel disk ptrs []) := fun m => if_neg hnil
      rw [hfront, hfront n]
      by_cases hnext : expandLevel disk ptrs [] = []
      · rw [hnext, expandLevels_nil, expandLevels_nil]
        rfl
      · exact ih _ hnext

section Levels

variable {Γ : Ctx} (P : Packer Γ) {image : Bytes}

/-- What an expansion reads of the pointers to indirect blocks. -/
theorem Packer.stated_indirectPtrs (objectType : UInt8) (level : Nat) (ptrs : List Blkptr) {sector : Nat}
    (hpart : Part image (0x400000 + 512 * sector) ((indirectBlocks ptrs).flatMap P.pack))
    (hfits : sector + sectorsOf ((indirectBlocks ptrs).flatMap P.pack) < 2 ^ 50) :
    (P.indirectPtrs objectType level sector (indirectBlocks ptrs)).flatMap (statedPtrs (readBlock Γ image)) =
      (Radix.groups 1024 ptrs).flatMap fun g => (blkptrChunks (indirectBlock g)).map (Blkptr.parse · .little) := by
  have hall : List.Forall₂ (fun p b => statedPtrs (readBlock Γ image) p = (blkptrChunks b).map (Blkptr.parse · .little))
      (P.indirectPtrs objectType level sector (indirectBlocks ptrs)) (indirectBlocks ptrs) := by
    refine forall₂_ptrsFrom (fun b hb => (P.whole b (whole_of_mem_indirectBlocks hb)).sectored) (fun b hb s hs hb' => ?_) hpart hfits
    have hread := P.readBlock_blockPtr objectType (UInt8.ofNat level) (whole_of_mem_indirectBlocks hb) (by omega) hb'
    exact statedPtrs_of_read hread
  have hflat : ∀ {ps : List Blkptr} {bs : List Bytes},
      List.Forall₂ (fun p b => statedPtrs (readBlock Γ image) p = (blkptrChunks b).map (Blkptr.parse · .little)) ps bs →
      ps.flatMap (statedPtrs (readBlock Γ image)) = bs.flatMap fun b => (blkptrChunks b).map (Blkptr.parse · .little) := by
    intro ps bs h
    induction h with
    | nil => rfl
    | cons hone _ ih => rw [List.flatMap_cons, List.flatMap_cons, hone, ih]
  rw [hflat hall, indirectBlocks, List.flatMap_map]

/-- The expansion of the top of some levels ends at the pointers the levels were raised over, the holes apart. -/
theorem Packer.expandLevels_raise (objectType : UInt8) (n : Nat) {level sector : Nat} {ptrs : List Blkptr} (hlevel : level + n < 2 ^ 5)
    (hstored : ∀ p ∈ ptrs, p.Stored) (hcap : ptrs.length ≤ maxRuns)
    (hpart : Part image (0x400000 + 512 * sector) (P.raise objectType n level sector ptrs).1)
    (hfits : sector + sectorsOf (P.raise objectType n level sector ptrs).1 < 2 ^ 50) :
    expandLevels (readBlock Γ image) n (Sparse.present Blkptr.isHole (P.raise objectType n level sector ptrs).2) =
      Sparse.present Blkptr.isHole ptrs := by
  induction n generalizing level sector ptrs with
  | zero => rfl
  | succ n ih =>
    have hblocks := P.sectored_indirectBlocks ptrs
    rw [raise] at hpart hfits
    dsimp only at hpart hfits
    rw [(hblocks.append (P.sectored_raise _ _ _ _ _)).2] at hfits
    have hserves := P.serves_indirectPtrs objectType (show level + 1 < 2 ^ 5 by omega) ptrs hpart.left (by omega)
    have hcount : (P.indirectPtrs objectType (level + 1) sector (indirectBlocks ptrs)).length ≤ maxRuns := by
      rw [indirectPtrs, length_ptrsFrom, indirectBlocks, List.length_map, Radix.length_groups]
      omega
    have habove := ih (by omega) (forall_of_forall₂ hserves fun p b hp => hp.1.stored) hcount (part_behind hblocks hpart) (by omega)
    have hpresent : Sparse.present Blkptr.isHole (P.indirectPtrs objectType (level + 1) sector (indirectBlocks ptrs)) =
        P.indirectPtrs objectType (level + 1) sector (indirectBlocks ptrs) :=
      List.filter_eq_self.2 (forall_of_forall₂ hserves fun p b hp => by rw [hp.2.1]; rfl)
    have hgroups : ∀ g ∈ Radix.groups 1024 ptrs, g.length ≤ 1024 ∧ ∀ p ∈ g, p.Stored :=
      fun g hg => ⟨Radix.length_le_of_mem_groups hg, fun p hp => hstored p (Radix.mem_of_mem_groups hg hp)⟩
    have hnext : Sparse.present Blkptr.isHole ((P.indirectPtrs objectType (level + 1) sector (indirectBlocks ptrs)).flatMap
        (statedPtrs (readBlock Γ image))) = Sparse.present Blkptr.isHole ptrs := by
      rw [P.stated_indirectPtrs objectType (level + 1) ptrs hpart.left (by omega), present_groups hgroups,
        Radix.flatten_groups (by decide)]
    have hfew : (Sparse.present Blkptr.isHole ptrs).length ≤ maxRuns := (List.length_filter_le _ _).trans hcap
    rw [raise]
    dsimp only
    rw [expandLevels_succ, habove, hpresent, expandLevel_eq _ _ _ (by rw [List.nil_append, hnext]; exact hfew), hnext, List.nil_append]

/-- A listing expands as many levels as an object has above its records. -/
theorem Packer.levels_dnodeAt (sector : Nat) (o : DmuObject) :
    (min (P.dnodeAt sector o).dnNlevels maxIndirectLevels).toNat - 1 = o.height := by
  have hheight := o.height_le
  have htop := P.topLevel_dnodeAt sector o
  rw [Dnode.topLevel_eq] at htop
  have hmin : (min (P.dnodeAt sector o).dnNlevels maxIndirectLevels).toNat = min (P.dnodeAt sector o).dnNlevels.toNat 8 :=
    UInt8.toNat_min _ _
  omega

/-- It starts from the pointers that are no holes: a dnode has few. -/
theorem Packer.present_dnodeAt (sector : Nat) (o : DmuObject) :
    ((P.dnodeAt sector o).blkptrs.filter fun b => !b.isHole).take maxRuns = Sparse.present Blkptr.isHole (P.topPtrs sector o) := by
  have hptrs : (P.dnodeAt sector o).blkptrs = P.topPtrs sector o := rfl
  have hone := P.length_topPtrs sector o
  have hmax : maxRuns = 65536 := rfl
  rw [hptrs]
  exact List.take_of_length_le ((List.length_filter_le _ _).trans (by omega))

/-- The runs of a written object. -/
theorem Packer.WrittenAt.runs {sector : Nat} {o : DmuObject} (h : P.WrittenAt image sector o) (hcap : o.records.length ≤ maxRuns) :
    List.Forall₂ (P.RunOf image) ((l0Blkptrs (readBlock Γ image) (P.dnodeAt sector o)).map ZfsFs.runInfo)
      (o.records.filter fun r => !allZero r) := by
  have hfits := h.fits
  have hheight := o.height_le
  rw [(P.sectored_writeObject sector o).2] at hfits
  have hrecords := P.locates_recordPtrs o.type (fun _ hr => o.whole hr) h.part.left (by omega)
  have hserves := P.serves_recordPtrs o.type (fun _ hr => o.whole hr) h.part.left (by omega)
  have hcount : (P.recordPtrs o.type sector o.records).length ≤ maxRuns := by rwa [recordPtrs, length_ptrsFrom]
  have hexpand := P.expandLevels_raise o.type o.height (show 0 + o.height < 2 ^ 5 by omega) (forall_of_forall₂ hserves fun p r hp => hp.stored) hcount
    (part_behind (P.sectored_recordsBytes o) h.part) (by rw [levelsAt] at hfits; omega)
  rw [l0Blkptrs, P.levels_dnodeAt, P.present_dnodeAt, topPtrs, levelsAt, hexpand]
  exact P.runs_of_locates hrecords

end Levels

/-- Of every object of a mounted pool, up to the cap of a listing, the extents are the runs of the records that are not all zeros, in order: each run
is where the packed bytes of its record lie, as long as they are, and marked where they are compressed. The records together are the content. -/
theorem extents_writePool {Γ : Ctx} (P : Packer Γ) (pool : Pool) (hsize : (P.writePool pool).length < 2 ^ 59) :
    ∃ fs, (ZfsFs.open Γ (P.writePool pool)).value = .ok fs ∧
      ∀ id o, pool.head.object? id = some o → (o.dmu pool.head.tables).records.length ≤ maxRuns →
        (o.dmu pool.head.tables).records.flatten.take o.attrs.size.toNat = o.content ∧
        ∃ runs, (fs.extents Γ id).value = .ok runs ∧
          List.Forall₂ (P.RunOf (P.writePool pool)) runs ((o.dmu pool.head.tables).records.filter fun r => !allZero r) := by
  have hat := P.poolAt_writePool hsize
  obtain ⟨s, hopen, hhead⟩ := hat.open
  refine ⟨_, hopen, fun id o ho hcap => ⟨(o.content_eq pool.head.tables).1, ?_⟩⟩
  obtain ⟨hid, hobject⟩ := Volume.objset_object ho
  obtain ⟨t, ht, hwritten⟩ := hhead.resolve P hid hobject
  refine ⟨_, ?_, hwritten.runs P hcap⟩
  have hdnode : (P.mountAt (P.writePool pool) pool s (pool.configuration.bind fun c => NvList.getStr c (ascii "name"))).dnode Γ id =
      pure (.ok (P.dnodeAt t (o.dmu pool.head.tables))) := by
    rw [ZfsFs.dnode, Packer.mountAt, ZfsFs.disk]
    dsimp only
    rw [ht]
    rfl
  rw [ZfsFs.extents, hdnode]
  rfl

/-- The sparse file of the small pool has two runs: of its first record and of its last. -/
theorem extents_smallPool :
    ∃ fs first last, (ZfsFs.open plainCtx ((Packer.stored plainCtx).writePool smallPool)).value = .ok fs ∧
      (fs.extents plainCtx 8).value = .ok [first, last] ∧
      (Packer.stored plainCtx).RunOf ((Packer.stored plainCtx).writePool smallPool) first (List.replicate 512 7) ∧
      (Packer.stored plainCtx).RunOf ((Packer.stored plainCtx).writePool smallPool) last ([8, 9] ++ zeros 510) := by
  have hfile : smallHead.object? 8 = some sparseFile := rfl
  have hrecords := records_sparseFile smallPool.head.tables
  have hkeep : [List.replicate 512 7, zeros 512, [8, 9] ++ zeros 510].filter (fun r => !allZero r) =
      [List.replicate 512 7, [8, 9] ++ zeros 510] := by
    decide +kernel
  obtain ⟨fs, hopen, hextents⟩ := extents_writePool (Packer.stored plainCtx) smallPool (length_smallPool _)
  obtain ⟨-, runs, hruns, hall⟩ := hextents 8 _ hfile (by rw [hrecords]; decide)
  rw [hrecords, hkeep] at hall
  cases hall with
  | cons hfirst hrest =>
    cases hrest with
    | cons hlast hnone =>
      rw [List.forall₂_nil_right_iff] at hnone
      rw [hnone] at hruns
      exact ⟨fs, _, _, hopen, hruns, hfirst, hlast⟩

end ZfsForensic
