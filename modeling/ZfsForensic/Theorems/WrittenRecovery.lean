import ZfsForensic.Lemmas.PoolFits
import ZfsForensic.Lemmas.SnapshotReads

/-!
# What a written pool has deleted

The recovery of a written pool is a function of its volumes alone: of the entries in the roots of its snapshots, newest snapshot first, those
whose name the head's root lacks, the first of each name, each with the content its snapshot holds.
-/

namespace ZfsForensic

open Octets Checked Checked.Run

/-! ## Deleted files -/

/-- The file an entry of a snapshot's root is recovered as. The snapshots are the objects of the MOS from 4 on, newest first. -/
def recoveredAs (Γ : Ctx) (i : Nat) (e : VolEntry) (o : VolObject) : RecoveredFile :=
  { path := e.name
    source := "snapshot obj " ++ toString (4 + i)
    inode := e.object
    size := UInt64.ofNat o.content.length
    content := o.content
    contentSha256 := sha256Hex Γ o.content }

/-- What the root of a snapshot holds: an entry that names no object holds nothing. -/
def Volume.held (Γ : Ctx) (i : Nat) (v : Volume) : List RecoveredFile :=
  v.rootEntries.filterMap fun e => (v.object? e.object).map (recoveredAs Γ i e)

/-- What a pool has deleted. -/
def Pool.deleted (Γ : Ctx) (pool : Pool) : List RecoveredFile :=
  Collect.firsts RecoveredFile.path
    (((pool.snapshots.mapIdx fun i v => v.held Γ i).flatten).filter fun r => !(pool.head.rootEntries.map VolEntry.name).contains r.path)

section Recovery

variable {Γ : Ctx} (P : Packer Γ) {image : Bytes} {pool : Pool}

/-- What an entry of a dataset's root is carved to is what the volume holds under it. -/
theorem Packer.DatasetAt.carve_entry {i : Nat} {v : Volume} {ds : Dnode} (hat : P.DatasetAt image ds v) {id : UInt64} (hid : id.toNat = 4 + i)
    (e : VolEntry) :
    carve Γ (readBlock Γ image) .little ((id, ds), e.name, e.object) = (v.object? e.object).map (recoveredAs Γ i e) := by
  rw [carve, hat.snapshotContent_entry P, Option.map_map, hid]
  rfl

/-- What the entries of the visited snapshots are carved to is what the snapshots hold. -/
theorem Packer.BodyAt.carved (h : P.BodyAt image pool) :
    ((P.snapshotsAt image pool).flatMap (entriesOf (readBlock Γ image) .little)).filterMap (carve Γ (readBlock Γ image) .little) =
      (pool.snapshots.mapIdx fun i v => v.held Γ i).flatten := by
  have hlist : pool.snapshots.mapIdx (fun i v => v.held Γ i) =
      (P.snapshotsAt image pool).map fun s => (entriesOf (readBlock Γ image) .little s).filterMap (carve Γ (readBlock Γ image) .little) := by
    refine List.ext_getElem? fun i => ?_
    rw [List.getElem?_mapIdx, snapshotsAt, List.map_map, List.getElem?_map]
    by_cases hi : i < pool.snapshots.length
    · obtain ⟨v, hv⟩ : ∃ v, pool.snapshots[i]? = some v := ⟨_, List.getElem?_eq_getElem hi⟩
      have hat := h.datasetAt_snapshot P hv
      have hid : (UInt64.ofNat (3 + (i + 1))).toNat = 4 + i := by
        rw [pool.toNat_datasetId (by omega)]
        omega
      rw [hv, List.getElem?_range hi, Option.map_some, Option.map_some, Function.comp_apply, entriesOf, hat.rootListing P, List.map_map,
        List.filterMap_map, Volume.held]
      refine congrArg some (List.filterMap_congr fun e _ => ?_)
      exact (hat.carve_entry P hid e).symm
    · rw [List.getElem?_eq_none (by omega), List.getElem?_eq_none (by rw [List.length_range]; omega), Option.map_none, Option.map_none]
  rw [hlist, List.filterMap_flatMap, List.flatMap_def]

/-- The recovery of a pool, by its body and its front label. -/
theorem Packer.BodyAt.recovered (h : P.BodyAt image pool) (hfront : Part image 0 (P.labelAt pool).encode) :
    (recoverDeleted Γ image).value = pool.deleted Γ := by
  obtain ⟨headDs, hhead, hat, hprev⟩ := h.exists_headDataset P
  have hlive : liveNames (readBlock Γ image) .little headDs = pool.head.rootEntries.map VolEntry.name := by
    rw [liveNames, hat.rootListing P, List.map_map]
    rfl
  have hvisited : visitedSnapshots (readBlock Γ image) (P.objsetAt (P.mosSector pool) (P.mos pool)) headDs = P.snapshotsAt image pool := by
    refine visitedSnapshots_eq _ _ _ (h.isSnapshotChain P hprev) ?_
    rw [Packer.snapshotsAt, List.length_map, List.length_range]
    exact pool.snapshots_le
  rw [value_recoverDeleted (h.openMos P hfront), value_recoverFrom_entries Γ _ _ _ _ hhead, hvisited]
  have hfold : ((P.snapshotsAt image pool).flatMap (entriesOf (readBlock Γ image) .little)).foldl
      (Collect.step (fun name => decide (name ∈ pool.head.rootEntries.map VolEntry.name)) (fun c : Snapshot × Bytes × UInt64 => c.2.1)
        RecoveredFile.path (carve Γ (readBlock Γ image) .little)) [] =
      Collect.firsts RecoveredFile.path ((((P.snapshotsAt image pool).flatMap (entriesOf (readBlock Γ image) .little)).filterMap
        (carve Γ (readBlock Γ image) .little)).filter fun r => !decide (r.path ∈ pool.head.rootEntries.map VolEntry.name)) :=
    Collect.foldl_step_eq_firsts (fun c r hr => path_of_carve Γ _ _ hr) _
  rw [h.carved P] at hfold
  have hstep : collectEntry Γ (readBlock Γ image) .little headDs =
      Collect.step (fun name => decide (name ∈ pool.head.rootEntries.map VolEntry.name)) (fun c : Snapshot × Bytes × UInt64 => c.2.1)
        RecoveredFile.path (carve Γ (readBlock Γ image) .little) := by
    funext out c
    rw [collectEntry, hlive]
  rw [hstep, hfold, Pool.deleted]
  simp only [List.contains_eq_mem]

theorem Packer.PoolAt.recovered (h : P.PoolAt image pool) : (recoverDeleted Γ image).value = pool.deleted Γ :=
  h.body.recovered P (h.labels 0 (zero_mem_labelOffsetList image))

end Recovery

/-- The recovery of a written pool gives what it has deleted: every name its snapshots hold and its head lacks, once, with the content of the
newest snapshot that holds it. No check fails on the way. -/
theorem recoverDeleted_writePool {Γ : Ctx} (P : Packer Γ) (pool : Pool) (hsize : (P.writePool pool).length < 2 ^ 59) :
    recoverDeleted Γ (P.writePool pool) = pure (pool.deleted Γ) := by
  have hat := P.poolAt_writePool hsize
  exact Run.ext (hat.recovered P) (recoverDeleted_panics_of_fits (hat.poolFits P))

/-- Of the small pool, the file that is gone is recovered from the newer of the two snapshots that hold it, and the one that only the older
holds from there; the file its head still names is not. -/
theorem recoverDeleted_smallPool :
    recoverDeleted plainCtx ((Packer.stored plainCtx).writePool smallPool) =
      pure [{ path := ascii "gone", source := "snapshot obj 4", inode := 7, size := 2, content := [4, 5],
              contentSha256 := sha256Hex plainCtx [4, 5] },
            { path := ascii "old", source := "snapshot obj 5", inode := 8, size := 1, content := [6],
              contentSha256 := sha256Hex plainCtx [6] }] :=
  recoverDeleted_writePool (Packer.stored plainCtx) smallPool (length_smallPool _)

end ZfsForensic
