import ZfsForensic.Lemmas.PoolReads
import ZfsForensic.Lemmas.Recovery
import ZfsForensic.Lemmas.SmallPool

/-!
# The datasets of a written pool

What a recovery meets on a written pool: its head dataset, the chain of its snapshots, and under each of them the entries of a root and the
contents these name.
-/

namespace ZfsForensic

open Octets Checked Checked.Run

section Datasets

variable {Γ : Ctx} (P : Packer Γ) {image : Bytes} {pool : Pool}

/-- The id of a dataset is its number. -/
theorem Pool.toNat_datasetId (pool : Pool) {i : Nat} (hi : i ≤ pool.snapshots.length) : (UInt64.ofNat (3 + i)).toNat = 3 + i := by
  have hbudget : pool.snapshots.length ≤ 4096 := pool.snapshots_le
  rw [UInt64.toNat_ofNat']
  omega

/-- Under a dataset is a volume of the image. -/
def Packer.DatasetAt (image : Bytes) (ds : Dnode) (v : Volume) : Prop :=
  ∃ s, datasetZplObjset (readBlock Γ image) ds .little = some (P.objsetAt s v.objset) ∧ P.ObjsetAt image s v.objset

/-- The root of a dataset is listed. -/
theorem Packer.DatasetAt.rootListing {ds : Dnode} {v : Volume} (h : P.DatasetAt image ds v) :
    rootListing (readBlock Γ image) .little ds = v.rootEntries.map fun e => (e.name, e.object) := by
  obtain ⟨s, hzpl, hat⟩ := h
  rw [ZfsForensic.rootListing, datasetRootNames, hzpl]
  dsimp only
  rw [value_bind, hat.find_root P]
  exact hat.list_dir P v.entries?_root

/-- An entry of a root names the content the volume has under it. -/
theorem Packer.DatasetAt.snapshotContent_entry {ds : Dnode} {v : Volume} (h : P.DatasetAt image ds v) (id : UInt64) (e : VolEntry) :
    snapshotContent (readBlock Γ image) .little (id, ds) e.object = (v.object? e.object).map VolObject.content := by
  obtain ⟨s, hzpl, hat⟩ := h
  rw [snapshotContent, hzpl, Option.bind_some, value_zplReadFile_of_context (hat.find_tables P)]
  cases ho : v.object? e.object with
  | some o => rw [hat.read_attrs P ho, Option.map_some, hat.read_content P ho, Option.map_some]; rfl
  | none =>
    rw [zplReadFileWith, hat.resolve_dangling P (Or.inr e.object_ge) ho]
    rfl

/-- The head dataset is found, with the head's volume under it. -/
theorem Packer.BodyAt.exists_headDataset (h : P.BodyAt image pool) :
    ∃ headDs, (ZfsForensic.headDataset (readBlock Γ image) (P.objsetAt (P.mosSector pool) (P.mos pool))).value = some headDs ∧
      P.DatasetAt image headDs pool.head ∧
      dslDatasetPrevSnap headDs = UInt64.ofNat (if 0 = pool.snapshots.length then 0 else 3 + (0 + 1)) := by
  obtain ⟨s, headDs, hds, hzpl, hat, hprev⟩ := h.resolve P (i := 0) (v := pool.head) rfl
  have hthree : UInt64.ofNat (3 + 0) = 3 := rfl
  refine ⟨headDs, ?_, ⟨s, hzpl, hat⟩, hprev⟩
  rw [h.headDataset P, ← hthree, hds, value_pure]

/-- The dataset of a snapshot, by its number. -/
def Packer.snapshotAt (image : Bytes) (pool : Pool) (i : Nat) : Dnode :=
  ((mosDnode (readBlock Γ image) (P.objsetAt (P.mosSector pool) (P.mos pool)) (UInt64.ofNat (3 + (i + 1)))).value).getD default

/-- The snapshots of a pool, as a reader comes to them: every dataset with its id, from the first snapshot on. -/
def Packer.snapshotsAt (image : Bytes) (pool : Pool) : List Snapshot :=
  (List.range pool.snapshots.length).map fun i => (UInt64.ofNat (3 + (i + 1)), P.snapshotAt image pool i)

/-- They are the chain of the head. -/
theorem Packer.BodyAt.isSnapshotChain (h : P.BodyAt image pool) {headDs : Dnode}
    (hhead : dslDatasetPrevSnap headDs = UInt64.ofNat (if 0 = pool.snapshots.length then 0 else 3 + (0 + 1))) :
    IsSnapshotChain (readBlock Γ image) (P.objsetAt (P.mosSector pool) (P.mos pool)) headDs (P.snapshotsAt image pool) := by
  have hbudget : pool.snapshots.length ≤ 4096 := pool.snapshots_le
  have hkey : ∀ i < pool.snapshots.length, (UInt64.ofNat (3 + (i + 1))).toNat = 3 + (i + 1) :=
    fun i hi => pool.toNat_datasetId (by omega)
  refine ⟨fun p hp => ?_, ?_, 0, ?_, Or.inl rfl⟩
  · obtain ⟨i, hi, rfl⟩ := List.mem_map.1 hp
    intro hzero
    have hnat := hkey i (List.mem_range.1 hi)
    have hzero' : UInt64.ofNat (3 + (i + 1)) = 0 := hzero
    rw [hzero', UInt64.toNat_zero] at hnat
    omega
  · rw [snapshotsAt, List.map_map]
    refine List.Nodup.map_on (fun i hi j hj hij => ?_) List.nodup_range
    have hi' := hkey i (List.mem_range.1 hi)
    have hj' := hkey j (List.mem_range.1 hj)
    have hij' : UInt64.ofNat (3 + (i + 1)) = UInt64.ofNat (3 + (j + 1)) := hij
    rw [hij'] at hi'
    omega
  · have hnext : ∀ i < pool.snapshots.length, resolveDataset (readBlock Γ image) (P.objsetAt (P.mosSector pool) (P.mos pool))
        (UInt64.ofNat (if i = pool.snapshots.length then 0 else 3 + (i + 1))) = some (P.snapshotAt image pool i) ∧
        dslDatasetPrevSnap (P.snapshotAt image pool i) = UInt64.ofNat (if i + 1 = pool.snapshots.length then 0 else 3 + (i + 1 + 1)) := by
      intro i hi
      obtain ⟨v, hv⟩ : ∃ v, pool.datasets[i + 1]? = some v := by
        rw [Pool.datasets, List.getElem?_cons_succ]
        exact ⟨_, List.getElem?_eq_getElem hi⟩
      obtain ⟨s, ds, hds, -, -, hprev⟩ := h.resolve P hv
      rw [if_neg (Nat.ne_of_lt hi), resolveDataset, snapshotAt, hds, value_pure, Option.getD_some]
      exact ⟨rfl, hprev⟩
    have hpath := Chain.path_of_numbered (fun i => UInt64.ofNat (if i = pool.snapshots.length then 0 else 3 + (i + 1)))
      (P.snapshotAt image pool) hnext
    have hlist : (List.range pool.snapshots.length).map (fun i => (UInt64.ofNat (if i = pool.snapshots.length then 0 else 3 + (i + 1)),
        P.snapshotAt image pool i)) = P.snapshotsAt image pool := by
      refine List.map_congr_left fun i hi => ?_
      rw [if_neg (Nat.ne_of_lt (List.mem_range.1 hi))]
    rw [hlist, if_pos rfl] at hpath
    rw [hhead]
    exact hpath

/-- Under the dataset of a snapshot is the snapshot's volume. -/
theorem Packer.BodyAt.datasetAt_snapshot (h : P.BodyAt image pool) {i : Nat} {v : Volume} (hv : pool.snapshots[i]? = some v) :
    P.DatasetAt image (P.snapshotAt image pool i) v := by
  have hdataset : pool.datasets[i + 1]? = some v := by rw [Pool.datasets, List.getElem?_cons_succ, hv]
  obtain ⟨s, ds, hds, hzpl, hat, -⟩ := h.resolve P hdataset
  refine ⟨s, ?_, hat⟩
  rw [snapshotAt, hds, value_pure, Option.getD_some, hzpl]

end Datasets

/-! ## The small pool -/

/-- What a recovery meets on the image of the small pool: its head, and the chain of its two snapshots. -/
structure SmallReads (mos : ObjsetPhys) (headDs newerDs olderDs : Dnode) : Prop where
  opened : openMos plainCtx smallImage = some (mos, .little)
  head : (headDataset (readBlock plainCtx smallImage) mos).value = some headDs
  chain : IsSnapshotChain (readBlock plainCtx smallImage) mos headDs [(4, newerDs), (5, olderDs)]
  headAt : (Packer.stored plainCtx).DatasetAt smallImage headDs smallHead
  newerAt : (Packer.stored plainCtx).DatasetAt smallImage newerDs smallSnapshot
  olderAt : (Packer.stored plainCtx).DatasetAt smallImage olderDs olderSnapshot

theorem exists_smallReads : ∃ mos headDs newerDs olderDs, SmallReads mos headDs newerDs olderDs := by
  have hbody := poolAt_smallImage.body
  obtain ⟨headDs, hhead, headAt, hprev⟩ := hbody.exists_headDataset (Packer.stored plainCtx)
  have hnewer := hbody.datasetAt_snapshot (Packer.stored plainCtx) (i := 0) (v := smallSnapshot) rfl
  have holder := hbody.datasetAt_snapshot (Packer.stored plainCtx) (i := 1) (v := olderSnapshot) rfl
  exact ⟨_, headDs, _, _, poolAt_smallImage.openMos, hhead, hbody.isSnapshotChain _ hprev, headAt, hnewer, holder⟩

/-- The snapshots a recovery visits. -/
theorem SmallReads.visited {mos : ObjsetPhys} {headDs newerDs olderDs : Dnode} (h : SmallReads mos headDs newerDs olderDs) :
    visitedSnapshots (readBlock plainCtx smallImage) mos headDs = [(4, newerDs), (5, olderDs)] :=
  visitedSnapshots_eq _ _ _ h.chain (show 2 ≤ 4096 by decide)

end ZfsForensic
