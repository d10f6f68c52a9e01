import ZfsForensic.Lemmas.Image
import ZfsForensic.Lemmas.Walk
import ZfsForensic.Vfs

/-!
# Panic freedom of the object walk

`dn_nlevels` is capped at eight and `dn_indblkshift` at 24, each alone; a level's shift amount is their product. A block read
runs through in a debug build exactly when that product fits a word, and then every index is the quotient it stands for. Where
every dnode a pool leads to fits, recovery and mounting run through.
-/

namespace ZfsForensic

open Octets Checked Checked.Run

/-! ## Reads of a dnode that fits -/

theorem readDnodeData_panics_of_fit (disk : Disk) {d : Dnode} (h : d.ShiftsFit) (blkid : UInt64) :
    (readDnodeData disk d blkid).panics = false :=
  (readDnodeData_panics_iff disk d blkid).2 (Or.inr h)

theorem readBlocks_panics_of_fit (disk : Disk) {d : Dnode} (h : d.ShiftsFit) (n blkid : Nat) (out : Bytes) :
    (readBlocks disk d n blkid out).panics = false := by
  induction n generalizing blkid out with
  | zero => rfl
  | succ n ih =>
    refine panics_bind_eq_false (readDnodeData_panics_of_fit disk h _) fun r _ => ?_
    cases r with
    | error e => rfl
    | ok block => exact ih _ _

theorem readZapObject_panics_of_fit (disk : Disk) {d : Dnode} (h : d.ShiftsFit) :
    (readZapObject disk d).panics = false := by
  unfold readZapObject
  dsimp only
  split
  · rfl
  · exact readBlocks_panics_of_fit disk h _ _ _

/-! ## Object sets that fit -/

/-- Whether every dnode an object set leads to has shift amounts that fit: its meta-dnode, and each object that resolves. -/
def ObjsetPhys.Fits (disk : Disk) (os : ObjsetPhys) : Prop :=
  os.metaDnode.ShiftsFit ∧ ∀ id d, (mosDnode disk os id).value = some d → d.ShiftsFit

section Fits

variable {disk : Disk} {os : ObjsetPhys} (hos : os.Fits disk)

include hos

theorem mosDnode_panics_of_fits (id : UInt64) : (mosDnode disk os id).panics = false :=
  (mosDnode_panics_iff disk os id).2 (Or.inr (Or.inr hos.1))

theorem zapObjectData_panics_of_fits (id : UInt64) : (zapObjectData disk os id).panics = false := by
  refine panics_bind_eq_false (mosDnode_panics_of_fits hos id) fun r hr => ?_
  cases r with
  | none => rfl
  | some d =>
    refine panics_bind_eq_false (readZapObject_panics_of_fit disk (hos.2 id d hr)) fun r _ => ?_
    cases r <;> rfl

theorem headDataset_panics_of_fits : (headDataset disk os).panics = false := by
  refine panics_bind_eq_false (zapObjectData_panics_of_fits hos _) fun r _ => ?_
  cases r with
  | none => rfl
  | some data =>
    dsimp only
    split
    · rfl
    · refine panics_bind_eq_false (mosDnode_panics_of_fits hos _) fun r _ => ?_
      cases r with
      | none => rfl
      | some dslDir =>
        dsimp only
        split
        · rfl
        · exact mosDnode_panics_of_fits hos _

theorem zplMasterRoot_panics_of_fits : (zplMasterRoot disk os).panics = false := by
  refine panics_bind_eq_false (zapObjectData_panics_of_fits hos _) fun r _ => ?_
  cases r <;> rfl

theorem zplListDir_panics_of_fits (id : UInt64) : (zplListDir disk os id).panics = false := by
  refine panics_bind_eq_false (zapObjectData_panics_of_fits hos _) fun r _ => ?_
  cases r <;> rfl

theorem zplSaContext_panics_of_fits : (zplSaContext disk os).panics = false := by
  refine panics_bind_eq_false (zapObjectData_panics_of_fits hos _) fun r _ => ?_
  cases r with
  | none => rfl
  | some masterData =>
    dsimp only
    split
    · rfl
    · refine panics_bind_eq_false (zapObjectData_panics_of_fits hos _) fun r _ => ?_
      cases r with
      | none => rfl
      | some saMasterData =>
        dsimp only
        split
        · refine panics_bind_eq_false (zapObjectData_panics_of_fits hos _) fun r _ => ?_
          cases r with
          | none => rfl
          | some registryData =>
            refine panics_bind_eq_false (zapObjectData_panics_of_fits hos _) fun r _ => ?_
            cases r <;> rfl
        · rfl

theorem zplAttrs_panics_of_fits (registry : SaRegistry) (layouts : SaLayouts) (id : UInt64) :
    (zplAttrs disk os registry layouts id).panics = false := by
  refine panics_bind_eq_false (mosDnode_panics_of_fits hos _) fun r _ => ?_
  cases r with
  | none => rfl
  | some d =>
    dsimp only
    split
    · rfl
    · split <;> rfl

theorem zplReadFileWith_panics_of_fits (id : UInt64) (size : Option UInt64) :
    (zplReadFileWith disk os id size).panics = false := by
  refine panics_bind_eq_false (mosDnode_panics_of_fits hos _) fun r hr => ?_
  cases r with
  | none => rfl
  | some d =>
    dsimp only
    split
    · rfl
    · refine panics_bind_eq_false (readBlocks_panics_of_fit disk (hos.2 id d hr) _ _ _) fun r _ => ?_
      cases r with
      | error e => rfl
      | ok out => cases size <;> rfl

theorem zplReadFile_panics_of_fits (id : UInt64) : (zplReadFile disk os id).panics = false := by
  refine panics_bind_eq_false (zplSaContext_panics_of_fits hos) fun r _ => ?_
  cases r with
  | none => exact zplReadFileWith_panics_of_fits hos id none
  | some ctx =>
    refine panics_bind_eq_false (zplAttrs_panics_of_fits hos ctx.1 ctx.2 id) fun attrs _ => ?_
    exact zplReadFileWith_panics_of_fits hos id _

theorem openDataset_panics_of_fits (image : Bytes) : (ZfsFs.openDataset disk image os).panics = false := by
  unfold ZfsFs.openDataset
  split
  · rfl
  · refine panics_bind_eq_false (zplMasterRoot_panics_of_fits hos) fun r _ => ?_
    cases r with
    | none => rfl
    | some rootId =>
      refine panics_bind_eq_false (zplSaContext_panics_of_fits hos) fun _ _ => ?_
      exact panics_bind_eq_false (mosDnode_panics_of_fits hos rootId) fun _ _ => rfl

theorem recoverEntry_panics_of_fits (Γ : Ctx) (source : String) (live : List (Bytes × UInt64)) (out : List RecoveredFile)
    (entry : Bytes × UInt64) : (recoverEntry Γ disk os source live out entry).panics = false := by
  unfold recoverEntry
  split
  · rfl
  · split
    · rfl
    · refine panics_bind_eq_false (zplReadFile_panics_of_fits hos _) fun r _ => ?_
      cases r <;> rfl

end Fits

/-! ## The object sets a pool leads to -/

/-- The object sets recovery and mounting open: the MOS of the front label, the MOS of the newest uberblock, and the ZPL objset
of any object of one of them. -/
inductive Opened (Γ : Ctx) (image : Bytes) : ObjsetPhys → Prop
  | front {mos : ObjsetPhys} {e : Endian} (h : openMos Γ image = some (mos, e)) : Opened Γ image mos
  | newest {ub : Uberblock} {block : Block} {mos : ObjsetPhys} (hub : activeUberblockAcrossLabels image = some ub)
      (hblock : readBlock Γ image ub.rootbpFull = .ok block) (hmos : ObjsetPhys.parse block.data ub.endian = .ok mos) :
      Opened Γ image mos
  | dataset {mos zpl : ObjsetPhys} {id : UInt64} {ds : Dnode} (hmos : Opened Γ image mos)
      (hds : (mosDnode (readBlock Γ image) mos id).value = some ds) (hzpl : datasetZplObjset (readBlock Γ image) ds mos.endian = some zpl) :
      Opened Γ image zpl

/-- Whether every dnode reached from a pool has shift amounts that fit. -/
def PoolFits (Γ : Ctx) (image : Bytes) : Prop := ∀ os, Opened Γ image os → os.Fits (readBlock Γ image)

/-- The head dataset is an object of the MOS. -/
theorem headDataset_eq_mosDnode {disk : Disk} {mos : ObjsetPhys} {ds : Dnode}
    (h : (headDataset disk mos).value = some ds) : ∃ id, (mosDnode disk mos id).value = some ds := by
  rw [headDataset, value_bind] at h
  cases hobj : (zapObjectData disk mos 1).value with
  | none =>
    rw [hobj] at h
    exact absurd h (by simp)
  | some data =>
    rw [hobj] at h
    dsimp only at h
    split at h
    · exact absurd h (by simp)
    · rename_i rootDataset _
      rw [value_bind] at h
      cases hdir : (mosDnode disk mos rootDataset).value with
      | none =>
        rw [hdir] at h
        exact absurd h (by simp)
      | some dslDir =>
        rw [hdir] at h
        dsimp only at h
        split at h
        · exact absurd h (by simp)
        · exact ⟨_, h⟩

section Pool

variable {Γ : Ctx} {image : Bytes} (hpool : PoolFits Γ image)

include hpool

theorem datasetRootNames_panics {mos : ObjsetPhys} {id : UInt64} {ds : Dnode} (hmos : Opened Γ image mos)
    (hds : (mosDnode (readBlock Γ image) mos id).value = some ds) :
    (datasetRootNames (readBlock Γ image) ds mos.endian).panics = false := by
  unfold datasetRootNames
  split
  · rfl
  · rename_i zpl hzpl
    have hfit := hpool zpl (.dataset hmos hds hzpl)
    refine panics_bind_eq_false (zplMasterRoot_panics_of_fits hfit) fun r _ => ?_
    cases r with
    | none => rfl
    | some root => exact zplListDir_panics_of_fits hfit root

theorem recoverFromSnapshot_panics {mos : ObjsetPhys} {id : UInt64} {ds : Dnode} (hmos : Opened Γ image mos)
    (hds : (mosDnode (readBlock Γ image) mos id).value = some ds) (snapObj : UInt64) (live : List (Bytes × UInt64))
    (out : List RecoveredFile) :
    (recoverFromSnapshot Γ (readBlock Γ image) ds snapObj mos.endian live out).panics = false := by
  unfold recoverFromSnapshot
  split
  · rfl
  · rename_i zpl hzpl
    have hfit := hpool zpl (.dataset hmos hds hzpl)
    refine panics_bind_eq_false (zplMasterRoot_panics_of_fits hfit) fun r _ => ?_
    cases r with
    | none => rfl
    | some root =>
      refine panics_bind_eq_false (zplListDir_panics_of_fits hfit root) fun entries _ => ?_
      exact panics_foldlM _ _ (fun out entry _ => recoverEntry_panics_of_fits hfit Γ _ live out entry) out

/-- Every turn of the chain walk resolves an object of the MOS, whatever the budget and the objects seen. -/
theorem snapshotLoop_panics {mos : ObjsetPhys} (hmos : Opened Γ image mos) (live : List (Bytes × UInt64)) (budget : Nat)
    (snapObj : UInt64) (seen : List UInt64) (out : List RecoveredFile) :
    (snapshotLoop Γ (readBlock Γ image) mos mos.endian live budget snapObj seen out).panics = false := by
  induction budget generalizing snapObj seen out with
  | zero => rfl
  | succ budget ih =>
    unfold snapshotLoop
    split
    · rfl
    · split
      · rfl
      · refine panics_bind_eq_false (mosDnode_panics_of_fits (hpool mos hmos) snapObj) fun r hr => ?_
        cases r with
        | none => rfl
        | some ds =>
          refine panics_bind_eq_false (recoverFromSnapshot_panics hpool hmos hr snapObj live out) fun out' _ => ?_
          exact ih _ _ _

theorem recoverDeleted_panics_of_fits : (recoverDeleted Γ image).panics = false := by
  unfold recoverDeleted
  split
  · rfl
  · rename_i mos endian hopen
    have hmos : Opened Γ image mos := .front hopen
    have hend : endian = mos.endian := (endian_of_openMos hopen).symm
    subst hend
    refine panics_bind_eq_false (headDataset_panics_of_fits (hpool mos hmos)) fun r hr => ?_
    cases r with
    | none => rfl
    | some headDs =>
      obtain ⟨id, hid⟩ := headDataset_eq_mosDnode hr
      refine panics_bind_eq_false (datasetRootNames_panics hpool hmos hid) fun live _ => ?_
      exact snapshotLoop_panics hpool hmos live _ _ _ _

theorem open_panics_of_fits : (ZfsFs.open Γ image).panics = false := by
  unfold ZfsFs.open
  split
  · rfl
  · rename_i ub hub
    dsimp only
    split
    · rfl
    · rename_i block hblock
      split
      · rfl
      · rename_i mos hparse
        have hmos : Opened Γ image mos := .newest hub hblock hparse
        have hz : (zplObjset (readBlock Γ image) mos).panics = false := by
          refine panics_bind_eq_false (headDataset_panics_of_fits (hpool mos hmos)) fun r _ => ?_
          cases r <;> rfl
        refine panics_bind_eq_false hz fun r hr => ?_
        cases r with
        | none => rfl
        | some zpl =>
          rw [zplObjset, value_bind] at hr
          cases hds : (headDataset (readBlock Γ image) mos).value with
          | none =>
            rw [hds] at hr
            exact absurd hr (by simp)
          | some ds =>
            rw [hds] at hr
            obtain ⟨id, hid⟩ := headDataset_eq_mosDnode hds
            exact openDataset_panics_of_fits (hpool zpl (.dataset hmos hid hr)) image

end Pool

/-! ## Reads and lookups run through -/

/-- Whether the index at every level of a walk to a block is the quotient of its id. -/
def Dnode.IndexExact (d : Dnode) (blkid : UInt64) : Prop :=
  ∀ level ≤ d.topLevel, (levelIndex d blkid level).value.toNat = blkid.toNat / 2 ^ (level * d.levelShift.toNat)

theorem Dnode.indexExact_of_fit {d : Dnode} (h : d.ShiftsFit) (blkid : UInt64) : d.IndexExact blkid := by
  intro level hle
  have htop := d.topLevel_lt
  have hfit : level * d.levelShift.toNat < 64 := lt_of_le_of_lt (Nat.mul_le_mul_right _ hle) h
  exact levelIndex_value d blkid (by omega) hfit

/-- The object walk runs through, with exact indices, precisely where the block id is rejected or the shift amounts fit a word;
and where all dnodes a pool leads to fit, recovery and mounting run through. -/
theorem walk_runs_through_iff (Γ : Ctx) (image : Bytes) :
    (∀ d blkid, ((readDnodeData (readBlock Γ image) d blkid).panics = false ∧
        (blkid ≤ d.dnMaxblkid → d.IndexExact blkid)) ↔ d.dnMaxblkid < blkid ∨ d.ShiftsFit) ∧
    (∀ os id, ((mosDnode (readBlock Γ image) os id).panics = false ∧
        (os.metaDnode.dataBlockSize ≠ 0 → os.blockOf id ≤ os.metaDnode.dnMaxblkid →
          os.metaDnode.IndexExact (os.blockOf id))) ↔
      os.metaDnode.dataBlockSize = 0 ∨ os.metaDnode.dnMaxblkid < os.blockOf id ∨ os.metaDnode.ShiftsFit) ∧
    (PoolFits Γ image → (recoverDeleted Γ image).panics = false ∧ (ZfsFs.open Γ image).panics = false) := by
  refine ⟨fun d blkid => ?_, fun os id => ?_, fun hpool =>
    ⟨recoverDeleted_panics_of_fits hpool, open_panics_of_fits hpool⟩⟩
  · rw [readDnodeData_panics_iff]
    refine and_iff_left_of_imp fun h hb => ?_
    rcases h with h | h
    · exact absurd h (UInt64.not_lt.2 hb)
    · exact Dnode.indexExact_of_fit h blkid
  · rw [mosDnode_panics_iff]
    refine and_iff_left_of_imp fun h hz hb => ?_
    rcases h with h | h | h
    · exact absurd h hz
    · exact absurd h (UInt64.not_lt.2 hb)
    · exact Dnode.indexExact_of_fit h _

/-! ## A pool that does not fit

The root pointer carries its objset inline: a meta-dnode of eight levels and the widest indirect blocks, whose top shift is
`7 * 17`. -/

/-- A meta-dnode with `dn_indblkshift` 24, `dn_nlevels` 8, one pointer, blocks of 512 bytes, and two blocks. -/
def wideMeta : Vector UInt8 112 := padTo 112 [10, 24, 8, 1, 0, 0, 0, 0, 1, 0, 0, 0, 0, 0, 0, 0, 1]

/-- Recovery stops a debug build on this image, in its first object lookup. -/
theorem recoverDeleted_panics_on_wide_tree :
    (recoverDeleted plainCtx (imageOf 1 (inlinePtr wideMeta 1024) [])).panics = true := by
  rw [recoverDeleted_imageOf]
  decide +kernel

end ZfsForensic
