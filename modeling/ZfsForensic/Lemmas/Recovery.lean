import ZfsForensic.Lib.Chain
import ZfsForensic.Lib.Collect
import ZfsForensic.Recover

/-!
# Recovery as a chain of snapshots and a collection of entries

The two loops of `recoverDeleted` are one pass over candidates: the entries of each snapshot's root, newest snapshot first. The
outer loop is a bounded walk along the snapshot chain, and what the inner one keeps is, for each name the live root does not hold,
the first entry whose content reads.
-/

namespace ZfsForensic

open Octets Checked Checked.Run

/-- A snapshot: the object id of its dataset, and the dataset. -/
abbrev Snapshot := UInt64 × Dnode

section Recovery

variable (Γ : Ctx) (disk : Disk) (mos : ObjsetPhys) (endian : Endian) (headDs : Dnode)

/-- The dataset of an object id of the MOS. -/
def resolveDataset (id : UInt64) : Option Dnode := (mosDnode disk mos id).value

/-- The root directory of a dataset, as the code lists it. -/
def rootListing (ds : Dnode) : List (Bytes × UInt64) := (datasetRootNames disk ds endian).value

/-- The names of the live root, as the code lists them. -/
def liveNames : List Bytes := (rootListing disk endian headDs).map Prod.fst

/-- What the file of an object id in a snapshot reads as, when it does. -/
def snapshotContent (s : Snapshot) (id : UInt64) : Option Bytes :=
  (datasetZplObjset disk s.2 endian).bind fun zpl => (zplReadFile disk zpl id).value.toOption

/-- The file an entry of a snapshot is carved to, when its content reads. -/
def carve (c : Snapshot × Bytes × UInt64) : Option RecoveredFile :=
  (snapshotContent disk endian c.1 c.2.2).map fun content =>
    { path := c.2.1
      source := "snapshot obj " ++ toString c.1.1.toNat
      inode := c.2.2
      size := UInt64.ofNat content.length
      content := content
      contentSha256 := sha256Hex Γ content }

/-- The entries of a snapshot's root. -/
def entriesOf (s : Snapshot) : List (Snapshot × Bytes × UInt64) := (rootListing disk endian s.2).map fun e => (s, e)

/-- The snapshots the code visits. -/
def visitedSnapshots : List Snapshot :=
  Chain.walk (resolveDataset disk mos) dslDatasetPrevSnap 0 snapshotBudget (dslDatasetPrevSnap headDs) []

/-- The snapshots of a chain from the head dataset: they resolve, each is the previous snapshot of the one before, their ids are not
zero and do not repeat, and behind the last the chain names zero, an id it has named, or an object that does not resolve. -/
def IsSnapshotChain (ss : List Snapshot) : Prop :=
  Chain.IsChain (resolveDataset disk mos) dslDatasetPrevSnap 0 (dslDatasetPrevSnap headDs) ss

/-- A chain within the budget is what the code visits. -/
theorem visitedSnapshots_eq {ss : List Snapshot} (h : IsSnapshotChain disk mos headDs ss) (hlen : ss.length ≤ snapshotBudget) :
    visitedSnapshots disk mos headDs = ss :=
  Chain.walk_eq_of_isChain h hlen

/-- One candidate of the pass. -/
def collectEntry (out : List RecoveredFile) (c : Snapshot × Bytes × UInt64) : List RecoveredFile :=
  Collect.step (fun name => decide (name ∈ liveNames disk endian headDs)) (fun c => c.2.1) RecoveredFile.path
    (carve Γ disk endian) out c

/-- The root directory of a dataset as it is stored: names and whole values. -/
def storedRoot (ds : Dnode) : List (Bytes × UInt64) :=
  ((datasetZplObjset disk ds endian).bind fun zpl =>
    (zplMasterRoot disk zpl).value.bind fun root => (zapObjectData disk zpl root).value).elim [] zapList

/-- The stored entries of the roots of the visited snapshots, in the order of the recovery. -/
def storedEntries : List (Snapshot × Bytes × UInt64) :=
  (visitedSnapshots disk mos headDs).flatMap fun s => (storedRoot disk endian s.2).map fun e => (s, e)

/-- What the listing leaves of a stored entry: the type bits are gone. -/
def masked (c : Snapshot × Bytes × UInt64) : Snapshot × Bytes × UInt64 := (c.1, c.2.1, c.2.2 &&& zplDirentObjMask)

/-- A recovered file comes from a stored entry: the entry's name is not live, the file is what the entry is carved to, and of the
entries of its name in front of it none can be carved. -/
def ComesFrom (c : Snapshot × Bytes × UInt64) (r : RecoveredFile) : Prop :=
  Collect.First (fun name => decide (name ∈ liveNames disk endian headDs)) (fun c => c.2.1)
    (fun c => carve Γ disk endian (masked c)) (storedEntries disk mos endian headDs) c r

theorem path_of_carve {c : Snapshot × Bytes × UInt64} {r : RecoveredFile} (h : carve Γ disk endian c = some r) :
    r.path = c.2.1 := by
  obtain ⟨content, -, rfl⟩ := Option.map_eq_some_iff.1 h
  rfl

/-! ## The loops -/

variable {disk endian} in
theorem value_recoverEntry {zpl : ObjsetPhys} {s : Snapshot} (hzpl : datasetZplObjset disk s.2 endian = some zpl)
    (out : List RecoveredFile) (e : Bytes × UInt64) :
    (recoverEntry Γ disk zpl ("snapshot obj " ++ toString s.1.toNat) (rootListing disk endian headDs) out e).value =
      collectEntry Γ disk endian headDs out (s, e) := by
  have hlive : (rootListing disk endian headDs).any (fun n => n.1 == e.1) = decide (e.1 ∈ liveNames disk endian headDs) := by
    rw [Bool.eq_iff_iff, List.any_eq_true, decide_eq_true_iff, liveNames, List.mem_map]
    simp only [beq_iff_eq]
  have hout : out.any (fun r => r.path == e.1) = decide (e.1 ∈ out.map RecoveredFile.path) := by
    rw [Bool.eq_iff_iff, List.any_eq_true, decide_eq_true_iff, List.mem_map]
    simp only [beq_iff_eq]
  unfold recoverEntry collectEntry Collect.step
  rw [hlive, hout]
  by_cases h1 : e.1 ∈ liveNames disk endian headDs
  · simp [h1]
  · by_cases h2 : e.1 ∈ out.map RecoveredFile.path
    · simp only [h1, h2, decide_false, decide_true, Bool.false_eq_true, if_false, if_true, or_true, value_pure]
    · simp only [h1, h2, decide_false, Bool.false_eq_true, if_false, or_false, value_bind, carve, snapshotContent, hzpl,
        Option.bind_some]
      cases (zplReadFile disk zpl e.2).value with
      | error _ => exact (List.append_nil out).symm
      | ok content => rfl

/-- The inner loop. -/
theorem value_recoverFromSnapshot (s : Snapshot) (out : List RecoveredFile) :
    (recoverFromSnapshot Γ disk s.2 s.1 endian (rootListing disk endian headDs) out).value =
      (entriesOf disk endian s).foldl (collectEntry Γ disk endian headDs) out := by
  unfold recoverFromSnapshot entriesOf
  rw [List.foldl_map]
  cases hzpl : datasetZplObjset disk s.2 endian with
  | none =>
    have hlisting : rootListing disk endian s.2 = [] := by
      rw [rootListing, datasetRootNames, hzpl]
      rfl
    rw [hlisting]
    rfl
  | some zpl =>
    dsimp only
    have hlisting : rootListing disk endian s.2 =
        (zplMasterRoot disk zpl).value.elim [] fun root => (zplListDir disk zpl root).value := by
      rw [rootListing, datasetRootNames, hzpl]
      dsimp only
      rw [value_bind]
      cases (zplMasterRoot disk zpl).value <;> rfl
    rw [value_bind, hlisting]
    cases (zplMasterRoot disk zpl).value with
    | none => rfl
    | some root =>
      dsimp only
      rw [Option.elim_some, value_bind, value_foldlM]
      simp only [value_recoverEntry Γ headDs hzpl]

/-- The outer loop. -/
theorem value_snapshotLoop (n : Nat) (id : UInt64) (seen : List UInt64) (out : List RecoveredFile) :
    (snapshotLoop Γ disk mos endian (rootListing disk endian headDs) n id seen out).value =
      (Chain.walk (resolveDataset disk mos) dslDatasetPrevSnap 0 n id seen).foldl
        (fun out s => (recoverFromSnapshot Γ disk s.2 s.1 endian (rootListing disk endian headDs) out).value) out := by
  induction n generalizing id seen out with
  | zero => rfl
  | succ n ih =>
    unfold snapshotLoop Chain.walk
    by_cases hzero : id = 0
    · rw [if_pos hzero, if_pos (Or.inl hzero)]
      rfl
    · by_cases hseen : id ∈ seen
      · rw [if_neg hzero, if_pos (List.contains_iff_mem.2 hseen), if_pos (Or.inr hseen)]
        rfl
      · rw [if_neg hzero, if_neg (by rwa [List.contains_iff_mem]), if_neg (not_or.2 ⟨hzero, hseen⟩), value_bind]
        unfold resolveDataset
        cases (mosDnode disk mos id).value with
        | none => rfl
        | some ds => exact ih _ _ _

/-- The recovery of an opened pool goes through the visited snapshots. -/
theorem value_recoverFrom (hhead : (headDataset disk mos).value = some headDs) :
    (recoverFrom Γ disk mos endian).value = (visitedSnapshots disk mos headDs).foldl
      (fun out s => (recoverFromSnapshot Γ disk s.2 s.1 endian (rootListing disk endian headDs) out).value) [] := by
  rw [recoverFrom, value_bind, hhead]
  exact value_snapshotLoop Γ disk mos endian headDs snapshotBudget _ [] []

/-- It goes through their entries. -/
theorem value_recoverFrom_entries (hhead : (headDataset disk mos).value = some headDs) :
    (recoverFrom Γ disk mos endian).value =
      ((visitedSnapshots disk mos headDs).flatMap (entriesOf disk endian)).foldl (collectEntry Γ disk endian headDs) [] := by
  rw [value_recoverFrom Γ disk mos endian headDs hhead]
  simp only [value_recoverFromSnapshot]
  rw [← List.foldl_flatMap]

/-- It collects the entries of the visited snapshots: for each name that is not live, the first whose content reads. -/
theorem collected_recoverFrom (hhead : (headDataset disk mos).value = some headDs) :
    Collect.Collected (fun name => decide (name ∈ liveNames disk endian headDs)) (fun c => c.2.1) RecoveredFile.path
      (carve Γ disk endian) ((visitedSnapshots disk mos headDs).flatMap (entriesOf disk endian))
      (recoverFrom Γ disk mos endian).value := by
  rw [value_recoverFrom_entries Γ disk mos endian headDs hhead]
  exact Collect.collected_foldl (fun c r h => path_of_carve Γ disk endian h) _

end Recovery

/-- The recovery of an image is that of its pool. -/
theorem value_recoverDeleted {Γ : Ctx} {image : Bytes} {mos : ObjsetPhys} {endian : Endian}
    (hopen : openMos Γ image = some (mos, endian)) :
    (recoverDeleted Γ image).value = (recoverFrom Γ (readBlock Γ image) mos endian).value := by
  rw [recoverDeleted, hopen]

/-- The names that are recovered: not live, and of an entry of a visited snapshot whose content reads. -/
theorem mem_recovered_iff {Γ : Ctx} {disk : Disk} {mos : ObjsetPhys} {endian : Endian} {headDs : Dnode}
    (hhead : (headDataset disk mos).value = some headDs) (name : Bytes) :
    name ∈ (recoverFrom Γ disk mos endian).value.map RecoveredFile.path ↔
      name ∉ liveNames disk endian headDs ∧ ∃ s ∈ visitedSnapshots disk mos headDs, ∃ e ∈ rootListing disk endian s.2,
        e.1 = name ∧ (snapshotContent disk endian s e.2).isSome = true := by
  have hcollected := collected_recoverFrom Γ disk mos endian headDs hhead
  rw [hcollected.mem_keys_iff (fun c r h => path_of_carve Γ disk endian h), decide_eq_false_iff_not]
  refine and_congr_right fun _ => ?_
  simp only [List.mem_flatMap, entriesOf, List.mem_map, carve, Option.isSome_map]
  constructor
  · rintro ⟨_, ⟨s, hs, e, he, rfl⟩, hname, hsome⟩
    exact ⟨s, hs, e, he, hname, hsome⟩
  · rintro ⟨s, hs, e, he, hname, hsome⟩
    exact ⟨(s, e), ⟨s, hs, e, he, rfl⟩, hname, hsome⟩

end ZfsForensic
