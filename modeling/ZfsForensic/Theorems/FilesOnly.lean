import ZfsForensic.Lemmas.SnapshotImage
import ZfsForensic.VfsOps

/-!
# Directories among the recovered files

The listing the recovery works on has lost the type of its entries, and a directory reads like a file: its content is the blocks of
its ZAP. So a directory that only a snapshot holds is recovered as a file, unless it does not read or another entry of its name is
recovered in its place.
-/

namespace ZfsForensic

open Octets Checked Checked.Run

section Stored

variable (Γ : Ctx) (disk : Disk) (mos : ObjsetPhys) (endian : Endian) (headDs : Dnode)

/-- The content the object of a stored entry reads as, when it does. -/
def storedContent (c : Snapshot × Bytes × UInt64) : Option Bytes :=
  snapshotContent disk endian c.1 (c.2.2 &&& zplDirentObjMask)

/-- The type bits of a stored entry name a directory. -/
def IsDirectoryEntry (c : Snapshot × Bytes × UInt64) : Prop := (dirEntry c.2).kind = .dir

/-- The code's listing of a root is the stored one, without the type bits. -/
theorem rootListing_eq_map (ds : Dnode) :
    rootListing disk endian ds = (storedRoot disk endian ds).map fun e => (e.1, e.2 &&& zplDirentObjMask) := by
  rw [rootListing, datasetRootNames, storedRoot]
  cases datasetZplObjset disk ds endian with
  | none => rfl
  | some zpl =>
    dsimp only
    rw [value_bind, Option.bind_some]
    cases (zplMasterRoot disk zpl).value with
    | none => rfl
    | some root =>
      dsimp only
      rw [zplListDir, value_bind, Option.bind_some]
      cases (zapObjectData disk zpl root).value with
      | none => rfl
      | some data => rfl

/-- The entries the recovery goes through are the stored ones, without the type bits. -/
theorem flatMap_entriesOf :
    (visitedSnapshots disk mos headDs).flatMap (entriesOf disk endian) = (storedEntries disk mos endian headDs).map masked := by
  rw [storedEntries, List.map_flatMap]
  refine List.flatMap_congr fun s _ => ?_
  rw [entriesOf, rootListing_eq_map, List.map_map, List.map_map]
  rfl

variable {Γ disk mos endian headDs}

/-- Every recovered file comes from a stored entry, and every stored entry a file comes from is recovered as that file. -/
theorem mem_recoverFrom_iff_comesFrom (hhead : (headDataset disk mos).value = some headDs) (r : RecoveredFile) :
    r ∈ (recoverFrom Γ disk mos endian).value ↔ ∃ c, ComesFrom Γ disk mos endian headDs c r := by
  rw [(collected_recoverFrom Γ disk mos endian headDs hhead).mem_iff, flatMap_entriesOf]
  exact Collect.first_map

theorem carve_masked_eq_none_iff (c : Snapshot × Bytes × UInt64) :
    carve Γ disk endian (masked c) = none ↔ storedContent disk endian c = none :=
  Option.map_eq_none_iff

end Stored

/-- No recovered file of an image comes from a directory. -/
def FilesOnly (Γ : Ctx) (image : Bytes) : Prop :=
  ∀ mos endian headDs, openMos Γ image = some (mos, endian) →
    (headDataset (readBlock Γ image) mos).value = some headDs →
    ∀ r ∈ (recoverDeleted Γ image).value, ∀ c, ComesFrom Γ (readBlock Γ image) mos endian headDs c r → ¬ IsDirectoryEntry c

/-- A directory among the stored entries is not recovered: the live root holds its name, it does not read, or an entry of its name in
front of it reads. -/
def DirectoriesPassed (disk : Disk) (mos : ObjsetPhys) (endian : Endian) (headDs : Dnode) : Prop :=
  ∀ before c after, storedEntries disk mos endian headDs = before ++ c :: after → IsDirectoryEntry c →
    c.2.1 ∈ liveNames disk endian headDs ∨ storedContent disk endian c = none ∨
      ∃ c' ∈ before, c'.2.1 = c.2.1 ∧ (storedContent disk endian c').isSome = true

/-- No directory is recovered as a file exactly where every directory in the roots of the visited snapshots is passed over for its name
or its content. -/
theorem files_only_iff (Γ : Ctx) (image : Bytes) :
    FilesOnly Γ image ↔ ∀ mos endian headDs, openMos Γ image = some (mos, endian) →
      (headDataset (readBlock Γ image) mos).value = some headDs →
      DirectoriesPassed (readBlock Γ image) mos endian headDs := by
  constructor
  · intro h mos endian headDs hopen hhead before c after hentries hdir
    by_contra hpassed
    simp only [not_or, not_exists, not_and] at hpassed
    obtain ⟨hlive, hreads, hfront⟩ := hpassed
    rw [← @carve_masked_eq_none_iff Γ, ← ne_eq, Option.ne_none_iff_exists'] at hreads
    obtain ⟨r, hr⟩ := hreads
    have hfirst : ∀ c' ∈ before, c'.2.1 = c.2.1 → carve Γ (readBlock Γ image) endian (masked c') = none := fun c' hc' hname =>
      (carve_masked_eq_none_iff c').2 (Option.not_isSome_iff_eq_none.1 (hfront c' hc' hname))
    have hfrom : ComesFrom Γ (readBlock Γ image) mos endian headDs c r :=
      ⟨before, after, hentries, decide_eq_false hlive, hr, hfirst⟩
    have hmem : r ∈ (recoverDeleted Γ image).value := by
      rw [value_recoverDeleted hopen, mem_recoverFrom_iff_comesFrom hhead]
      exact ⟨c, hfrom⟩
    exact h mos endian headDs hopen hhead r hmem c hfrom hdir
  · rintro h mos endian headDs hopen hhead r - c ⟨before, after, hentries, hlive, hcarve, hfirst⟩ hdir
    have hmade : carve Γ (readBlock Γ image) endian (masked c) = some r := hcarve
    rcases h mos endian headDs hopen hhead before c after hentries hdir with hname | hnone | ⟨c', hc', hname, hsome⟩
    · exact of_decide_eq_false hlive hname
    · rw [(carve_masked_eq_none_iff c).2 hnone] at hmade
      exact absurd hmade (by simp)
    · rw [(carve_masked_eq_none_iff c').1 (hfirst c' hc' hname)] at hsome
      exact absurd hsome (by simp)

/-! ## A directory of a snapshot -/

/-- The payload of a directory that names the file `g`. -/
def innerDirectory : Vector UInt8 112 := mzapPayload "g" 0x8000000000000004

/-- The dnodes of a snapshot: master node, root directory, the directory `d`, and its file. -/
def nestedDnodes : Bytes :=
  [zeros 512, inlineSlot 21 (mzapPayload "ROOT" 2), inlineSlot 20 (mzapPayload "d" 0x4000000000000003), inlineSlot 20 innerDirectory,
    inlineSlot 19 (padTo 112 [1, 2, 3])].flatten

/-- The body of its pool. -/
def nestedBody : Bytes := [poolObjset 2 5, poolDnodes, poolObjset 9 5, nestedDnodes].flatten

/-- The image of its pool. -/
def nestedImage : Bytes := imageOf 7 poolRoot nestedBody

/-- The entry of the directory `d` in the root of the snapshot. -/
def nestedEntry : Snapshot × Bytes × UInt64 := ((4, poolSnapshot), [0x64], 0x4000000000000003)

/-- The slots of the snapshot. -/
def nestedSlots : List Bytes :=
  [zeros 512, inlineSlot 21 (mzapPayload "ROOT" 2), inlineSlot 20 (mzapPayload "d" 0x4000000000000003), inlineSlot 20 innerDirectory,
    inlineSlot 19 (padTo 112 [1, 2, 3])]

theorem bodyDisk_nestedBody : bodyDisk plainCtx nestedBody = poolDisk 5 nestedSlots := by
  rw [nestedBody, nestedDnodes, poolDisk, poolParts, flatten_poolSlots, nestedSlots]

/-- The object set of the snapshot, and its two directories. -/
theorem decode_nestedDnodes :
    ((objsetOf (poolObjset 9 5)).metaDnode.dnNlevels = 1 ∧
        (objsetOf (poolObjset 9 5)).metaDnode.dnDatablkszsec.toNat = nestedSlots.length ∧
        ((objsetOf (poolObjset 9 5)).metaDnode.blkptr 0).any (Blkptr.names 4608 (512 * nestedSlots.length)) = true) ∧
      ((soleBlkptr (inlineSlot 20 (mzapPayload "d" 0x4000000000000003)) .little).bind (inlineBlock plainCtx) =
          some ((mzapPayload "d" 0x4000000000000003).toList ++ zeros 400) ∧
        zapList ((mzapPayload "d" 0x4000000000000003).toList ++ zeros 400) = [([0x64], 0x4000000000000003)]) ∧
      (soleBlkptr (inlineSlot 20 innerDirectory) .little).bind (inlineBlock plainCtx) = some (innerDirectory.toList ++ zeros 400) := by
  decide +kernel

theorem holds_nestedSlots : (objsetOf (poolObjset 9 5)).Holds (poolDisk 5 nestedSlots) nestedSlots := by
  refine holds_poolSnapshot (fun s hs => ?_) (by decide) decode_nestedDnodes.1
  simp only [nestedSlots, List.mem_cons, List.not_mem_nil, or_false] at hs
  rcases hs with hs | hs | hs | hs | hs <;> rw [hs]
  · exact length_zeros 512
  · exact length_inlineSlot _ _
  · exact length_inlineSlot _ _
  · exact length_inlineSlot _ _
  · exact length_inlineSlot _ _

/-- The root of the snapshot, as it is stored. -/
theorem storedRoot_nestedBody : storedRoot (poolDisk 5 nestedSlots) .little poolSnapshot = [([0x64], 0x4000000000000003)] := by
  have hslot : nestedSlots[(2 : UInt64).toNat]? = some (inlineSlot 20 (mzapPayload "d" 0x4000000000000003)) := rfl
  obtain ⟨-, ⟨hinline, hlist⟩, -⟩ := decode_nestedDnodes
  rw [storedRoot, datasetZplObjset_poolSnapshot, Option.bind_some, (masterNode_poolSnapshot holds_nestedSlots rfl).1,
    Option.bind_some, data_poolSnapshot holds_nestedSlots hslot hinline, Option.elim_some, hlist]

/-- The object of the directory reads as the block of its ZAP. -/
theorem content_nestedBody :
    snapshotContent (poolDisk 5 nestedSlots) .little (4, poolSnapshot) 3 = some (innerDirectory.toList ++ zeros 400) := by
  have hslot : nestedSlots[(3 : UInt64).toNat]? = some (inlineSlot 20 innerDirectory) := rfl
  exact snapshotContent_poolSnapshot holds_nestedSlots rfl hslot decode_nestedDnodes.2.2

/-- What the body holds. -/
theorem facts_nestedBody :
    openBody plainCtx poolRoot nestedBody = some (poolMos, .little) ∧
      (headDataset (bodyDisk plainCtx nestedBody) poolMos).value = some poolHead ∧
      storedEntries (bodyDisk plainCtx nestedBody) poolMos .little poolHead = [nestedEntry] ∧
      (recoverFrom plainCtx (bodyDisk plainCtx nestedBody) poolMos .little).value.map (fun r => (r.path, r.content)) =
        [([0x64], innerDirectory.toList ++ zeros 400)] := by
  have hopen : openBody plainCtx poolRoot nestedBody = some (poolMos, .little) := by
    rw [nestedBody, nestedDnodes, ← flatten_poolSlots]
    exact openBody_poolParts 5 nestedSlots
  have hhead := (datasets_poolMos 5 nestedSlots).1
  have hstored : storedEntries (poolDisk 5 nestedSlots) poolMos .little poolHead = [nestedEntry] := by
    rw [storedEntries, visitedSnapshots_poolDisk, List.flatMap_singleton, storedRoot_nestedBody]
    rfl
  have hmasked : masked nestedEntry = ((4, poolSnapshot), [0x64], 3) := rfl
  rw [bodyDisk_nestedBody]
  refine ⟨hopen, hhead, hstored, ?_⟩
  rw [value_recoverFrom_entries plainCtx _ _ _ _ hhead, flatMap_entriesOf, hstored, List.map_singleton, hmasked, List.foldl_cons, List.foldl_nil,
    collectEntry, Collect.step, liveNames_poolDisk, carve, content_nestedBody]
  rfl

/-- The directory is recovered as a file, and the content it is given is its ZAP. -/
theorem directory_recovered :
    (recoverDeleted plainCtx nestedImage).value.map (fun r => (r.path, r.content)) =
        [([0x64], innerDirectory.toList ++ zeros 400)] ∧
      ¬ FilesOnly plainCtx nestedImage := by
  obtain ⟨hmos, hhead, hentries, hfiles⟩ := facts_nestedBody
  have hopen : openMos plainCtx nestedImage = some (poolMos, .little) := by rw [nestedImage, openMos_imageOf, hmos]
  have hdisk : readBlock plainCtx nestedImage = bodyDisk plainCtx nestedBody := by rw [nestedImage, readBlock_imageOf]
  have hvalue : (recoverDeleted plainCtx nestedImage).value =
      (recoverFrom plainCtx (bodyDisk plainCtx nestedBody) poolMos .little).value := by
    rw [value_recoverDeleted hopen, hdisk]
  refine ⟨by rw [hvalue, hfiles], fun h => ?_⟩
  have hfile : ([0x64], innerDirectory.toList ++ zeros 400) ∈
      (recoverFrom plainCtx (bodyDisk plainCtx nestedBody) poolMos .little).value.map (fun r => (r.path, r.content)) := by
    rw [hfiles]
    exact List.mem_singleton.2 rfl
  obtain ⟨r, hr, -⟩ := List.mem_map.1 hfile
  obtain ⟨c, hfrom⟩ := (mem_recoverFrom_iff_comesFrom hhead r).1 hr
  have hc : c = nestedEntry := by
    obtain ⟨before, after, hsplit, -⟩ := hfrom
    have hmem : c ∈ storedEntries (bodyDisk plainCtx nestedBody) poolMos .little poolHead := by
      rw [hsplit]
      exact List.mem_append_right _ List.mem_cons_self
    rwa [hentries, List.mem_singleton] at hmem
  have hdir : IsDirectoryEntry c := by
    rw [hc, IsDirectoryEntry, nestedEntry]
    decide
  refine h poolMos .little poolHead hopen (by rw [hdisk, hhead]) r (by rw [hvalue]; exact hr) c ?_ hdir
  rw [hdisk]
  exact hfrom

end ZfsForensic
