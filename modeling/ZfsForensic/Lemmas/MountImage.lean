import ZfsForensic.Lemmas.Mount
import ZfsForensic.Lemmas.Mzap
import ZfsForensic.Lemmas.SnapshotImage

/-!
# A pool that mounts

The MOS of this pool is one block of five dnodes. Its head dataset and its one snapshot name the object set of one filesystem, whose
own dnodes follow. What the filesystem holds is left open. The first such filesystem has no System Attributes: the bonus of its one
file is a legacy one. Its root directory names the file three times, twice by a byte that is not text.
-/

namespace ZfsForensic

open Octets Checked Checked.Run

/-- The objset of a filesystem, whose meta-dnode has one block, of so many sectors of the body. -/
def zfsObjset (sector : UInt64) (sectors : UInt8) : Bytes :=
  [(padTo 64 [10, 17, 1, 1, 0, 0, 0, 0, sectors]).toList, (bodyPtr sector sectors.toUInt32 2 10 0).encode .little, zeros 512,
    encode .little 8 dmuOstZfs.toNat, zeros 312].flatten

/-- The pointer to that objset in such a pool. -/
def zfsPtr : Blkptr := bodyPtr 7 2 2 11 0

/-- The dnodes of the MOS: object directory, DSL directory, head dataset, snapshot dataset. -/
def mountDnodes : Bytes :=
  [zeros 512, inlineSlot 1 (mzapPayload "root_dataset" 2), bonusSlot (zeros 8 ++ encode .little 8 3),
    datasetSlot 4 (zfsPtr.encode .little), datasetSlot 0 (zfsPtr.encode .little)].flatten

/-- The body of such a pool: the MOS, and a filesystem of so many dnodes, with what they name behind them. -/
def mountBody (dnodes : Bytes) (sectors : UInt8) (blocks : Bytes) : Bytes :=
  [poolObjset 2 5, mountDnodes, zfsObjset 9 sectors, dnodes, blocks].flatten

/-- The root pointer of such a pool. -/
def mountRoot : Vector UInt8 128 := (bodyPtr 0 2 2 11 0).encodeVector .little

/-- Its MOS. -/
def mountMos : ObjsetPhys := objsetOf (poolObjset 2 5)

/-- A dnode whose only block is a sector of the body. -/
def sectorSlot (type : UInt8) (sector : UInt64) : Bytes :=
  [(padTo 64 [type, 17, 1, 1, 0, 0, 0, 0, 1]).toList, (bodyPtr sector 1 2 type 0).encode .little, zeros 320].flatten

/-- A dnode whose only block is an inline one of 512 bytes, with a bonus of 264 bytes that begins as given. -/
def inlineBonusSlot (type bonusType : UInt8) (payload : Vector UInt8 112) (bonus : Bytes) : Bytes :=
  [(padTo 64 [type, 17, 1, 1, bonusType, 0, 0, 0, 1, 0, 8, 1]).toList, (inlinePtr payload 512).toList,
    (padTo 264 bonus).toList, zeros 56].flatten

/-- The head dataset's dnode. -/
def mountHead : Dnode := (Dnode.parse (datasetSlot 4 (zfsPtr.encode .little)) .little).getD default

/-- The snapshot's dnode. -/
def mountSnapshot : Dnode := (Dnode.parse (datasetSlot 0 (zfsPtr.encode .little)) .little).getD default

/-! ## Its parts -/

@[simp] theorem length_zfsObjset (sector : UInt64) (sectors : UInt8) : (zfsObjset sector sectors).length = objsetMinSize := by
  simp only [zfsObjset, List.flatten_cons, List.flatten_nil, List.append_nil, List.length_append, Vector.length_toList,
    Blkptr.length_encode, length_zeros, length_encode]
  rfl

@[simp] theorem length_sectorSlot (type : UInt8) (sector : UInt64) : (sectorSlot type sector).length = dnodeSize := by
  simp only [sectorSlot, List.flatten_cons, List.flatten_nil, List.append_nil, List.length_append, Vector.length_toList,
    Blkptr.length_encode, length_zeros]
  rfl

@[simp] theorem length_inlineBonusSlot (type bonusType : UInt8) (payload : Vector UInt8 112) (bonus : Bytes) :
    (inlineBonusSlot type bonusType payload bonus).length = dnodeSize := by
  simp only [inlineBonusSlot, List.flatten_cons, List.flatten_nil, List.append_nil, List.length_append, Vector.length_toList,
    length_zeros]
  rfl

/-- The slots of the MOS. -/
def mountSlots : List Bytes :=
  [zeros 512, inlineSlot 1 (mzapPayload "root_dataset" 2), bonusSlot (zeros 8 ++ encode .little 8 3),
    datasetSlot 4 (zfsPtr.encode .little), datasetSlot 0 (zfsPtr.encode .little)]

theorem length_of_mem_mountSlots : ∀ s ∈ mountSlots, s.length = dnodeSize := by
  intro s hs
  simp only [mountSlots, List.mem_cons, List.not_mem_nil, or_false] at hs
  rcases hs with rfl | rfl | rfl | rfl | rfl <;> simp [dnodeSize]

theorem length_flatten_slots {slots : List Bytes} (h : ∀ s ∈ slots, s.length = dnodeSize) :
    slots.flatten.length = 512 * slots.length := by
  rw [← List.flatMap_id', Radix.length_flatMap h]
  rfl

theorem length_mountDnodes : mountDnodes.length = 2560 := length_flatten_slots length_of_mem_mountSlots

/-- The parts of the body. -/
def mountParts (dnodes : Bytes) (sectors : UInt8) (blocks : List Bytes) : List Bytes :=
  [poolObjset 2 5, mountDnodes, zfsObjset 9 sectors, dnodes] ++ blocks

/-- The sectors of the body. -/
def mountSectors (slots : List Bytes) (sectors : UInt8) (blocks : List Bytes) : List Bytes :=
  [(poolObjset 2 5).take 512, (poolObjset 2 5).drop 512] ++ mountSlots ++
    [(zfsObjset 9 sectors).take 512, (zfsObjset 9 sectors).drop 512] ++ slots ++ blocks

section Parts

variable (slots : List Bytes) (sectors : UInt8) (blocks : List Bytes)

theorem mountBody_eq_parts : mountBody slots.flatten sectors blocks.flatten = (mountParts slots.flatten sectors blocks).flatten := by
  simp only [mountBody, mountParts, List.flatten_append, List.flatten_cons, List.flatten_nil, List.append_nil, List.append_assoc]

theorem mountBody_eq_sectors : mountBody slots.flatten sectors blocks.flatten = (mountSectors slots sectors blocks).flatten := by
  have hslots : mountSlots.flatten = mountDnodes := by rw [mountSlots, mountDnodes]
  have hmos := List.take_append_drop 512 (poolObjset 2 5)
  have hzpl := List.take_append_drop 512 (zfsObjset 9 sectors)
  simp only [mountSectors, List.flatten_append, List.flatten_cons, List.flatten_nil, List.append_nil, hslots, hmos, hzpl]
  simp only [mountBody, List.flatten_cons, List.flatten_nil, List.append_nil, List.append_assoc]

variable {slots blocks}

theorem length_of_mem_mountSectors (hslots : ∀ s ∈ slots, s.length = dnodeSize) (hblocks : ∀ b ∈ blocks, b.length = dnodeSize) :
    ∀ s ∈ mountSectors slots sectors blocks, s.length = dnodeSize := by
  intro s hs
  simp only [mountSectors, List.mem_append, List.mem_cons, List.not_mem_nil, or_false] at hs
  rcases hs with ((((hs | hs) | hs) | hs | hs) | hs) | hs
  · rw [hs, List.length_take, length_poolObjset]
    rfl
  · rw [hs, List.length_drop, length_poolObjset]
    rfl
  · exact length_of_mem_mountSlots s hs
  · rw [hs, List.length_take, length_zfsObjset]
    rfl
  · rw [hs, List.length_drop, length_zfsObjset]
    rfl
  · exact hslots s hs
  · exact hblocks s hs

/-- The length of the body, and that none of its sectors is an uberblock. -/
theorem uberblock_mountBody (hslots : ∀ s ∈ slots, s.length = dnodeSize) (hblocks : ∀ b ∈ blocks, b.length = dnodeSize)
    (hmagic : (mountSectors slots sectors blocks).all (fun s => (detectEndian (s.take 8)).isNone) = true) :
    (mountBody slots.flatten sectors blocks.flatten).length = 512 * (9 + slots.length + blocks.length) ∧
      ∀ i, Uberblock.parse (((mountBody slots.flatten sectors blocks.flatten).drop (i * 1024)).take 1024) = none := by
  have hsectors := length_of_mem_mountSectors sectors hslots hblocks
  rw [mountBody_eq_sectors]
  refine ⟨?_, fun i => ?_⟩
  · rw [length_flatten_slots hsectors]
    simp only [mountSectors, mountSlots, List.length_append, List.length_cons, List.length_nil]
  · have hskip : i * 1024 = dnodeSize * (2 * i) := by
      unfold dnodeSize
      omega
    have hnone : detectEndian ((((mountSectors slots sectors blocks).flatten.drop (i * 1024)).take 1024).take 8) = none := by
      rw [← List.flatMap_id', hskip, Radix.drop_flatMap hsectors, List.take_take, Nat.min_eq_left (by decide : 8 ≤ 1024)]
      cases hrest : (mountSectors slots sectors blocks).drop (2 * i) with
      | nil => rfl
      | cons s rest =>
        have hs : s ∈ mountSectors slots sectors blocks := List.mem_of_mem_drop (hrest ▸ List.mem_cons_self)
        have hlen : (8 : Nat) ≤ s.length := by
          rw [hsectors s hs]
          decide
        rw [List.flatMap_cons, List.take_append_of_le_length hlen]
        exact Option.isNone_iff_eq_none.1 (List.all_eq_true.1 hmagic s hs)
    rw [Uberblock.parse, ← detectEndian_take (le_refl 8), hnone]

end Parts

/-! ## The MOS of such a pool -/

section Pool

variable (slots : List Bytes) (sectors : UInt8) (blocks : List Bytes)

/-- The disk of such a pool. -/
def mountDisk : Disk := bodyDisk plainCtx (mountBody slots.flatten sectors blocks.flatten)

/-- A part of the body is read through a pointer to it. -/
theorem mountDisk_of_part {i off len : Nat} {part : Bytes} (hpart : (mountParts slots.flatten sectors blocks)[i]? = some part)
    (hoff : ((mountParts slots.flatten sectors blocks).take i).flatten.length = off) (hlen : part.length = len) {bp : Blkptr}
    (hnames : bp.names off len = true) (hsmall : off < 2 ^ 62 ∧ len ≤ maxBlockSize) :
    mountDisk slots sectors blocks bp = .ok ⟨part, none, 0⟩ := by
  rw [mountDisk, mountBody_eq_parts]
  exact bodyDisk_of_names plainCtx hpart hoff hlen hnames hsmall

theorem openBody_mountBody :
    openBody plainCtx mountRoot (mountBody slots.flatten sectors blocks.flatten) = some (mountMos, .little) := by
  have hroot : (Blkptr.parse mountRoot.toList .little).names 0 1024 = true := decode_poolMos.1
  have hfront : ((mountParts slots.flatten sectors blocks).take 0).flatten.length = 0 := rfl
  have hread : bodyDisk plainCtx (mountBody slots.flatten sectors blocks.flatten) (Blkptr.parse mountRoot.toList .little) =
      .ok ⟨poolObjset 2 5, none, 0⟩ :=
    mountDisk_of_part slots sectors blocks (i := 0) rfl hfront (length_poolObjset _ _) hroot (by decide)
  rw [openBody_of_read hread (length_poolObjset _ _).ge, mountMos]

/-- The MOS holds its slots. -/
theorem holds_mountMos : mountMos.Holds (mountDisk slots sectors blocks) mountSlots := by
  have hmeta : mountMos.metaDnode.dnNlevels = 1 ∧ mountMos.metaDnode.dnDatablkszsec.toNat = 5 ∧
      (mountMos.metaDnode.blkptr 0).any (Blkptr.names 1024 2560) = true := by
    rw [mountMos, ← poolMos]
    exact decode_poolMos.2.2.1
  obtain ⟨bp, hbp, hnames⟩ := (Option.any_eq_true _ _).1 hmeta.2.2
  have hfront : ((mountParts slots.flatten sectors blocks).take 1).flatten.length = 1024 := by
    rw [mountParts, List.cons_append, List.take_succ_cons, List.take_zero, List.flatten_singleton, length_poolObjset]
    rfl
  exact ⟨hmeta.1, hmeta.2.1, length_of_mem_mountSlots, bp, hbp,
    mountDisk_of_part slots sectors blocks (i := 1) rfl hfront length_mountDnodes hnames (by decide)⟩

theorem endian_mountMos : mountMos.endian = .little :=
  (ObjsetPhys.endian_of_parse (parse_objsetOf (length_poolObjset 2 5).ge)).1

/-- The head dataset, and the snapshot's dataset. -/
theorem datasets_mountMos :
    (headDataset (mountDisk slots sectors blocks) mountMos).value = some mountHead ∧
      (mosDnode (mountDisk slots sectors blocks) mountMos 4).value = some mountSnapshot := by
  have hmos := holds_mountMos slots sectors blocks
  obtain ⟨-, -, -, hinline, hid, hhead⟩ := decode_poolMos
  have hobjdir : mountSlots[(1 : UInt64).toNat]? = some (inlineSlot 1 (mzapPayload "root_dataset" 2)) := rfl
  have hdata : (zapObjectData (mountDisk slots sectors blocks) mountMos 1).value =
      some ((mzapPayload "root_dataset" 2).toList ++ zeros 400) :=
    value_zapObjectData_of_inline hmos hobjdir (by rw [endian_mountMos]; exact hinline)
  have hdslDir : mountSlots[(2 : UInt64).toNat]? = some (bonusSlot (zeros 8 ++ encode .little 8 3)) := rfl
  have hdir := value_mosDnode_of_type hmos endian_mountMos hdslDir (length_bonusSlot _) (by decide)
  have hlive : mountSlots[(3 : UInt64).toNat]? = some (datasetSlot 4 (zfsPtr.encode .little)) := rfl
  have hsnapshot : mountSlots[(4 : UInt64).toNat]? = some (datasetSlot 0 (zfsPtr.encode .little)) := rfl
  rw [value_headDataset hdata hid hdir (by rw [hhead]; decide), hhead,
    value_mosDnode_of_type hmos endian_mountMos hlive (length_datasetSlot _ _) (by decide),
    value_mosDnode_of_type hmos endian_mountMos hsnapshot (length_datasetSlot _ _) (by decide)]
  exact ⟨rfl, rfl⟩

/-- A dataset that names the objset of the filesystem. -/
theorem datasetZplObjset_mountDisk {ds : Dnode} (hnames : (dslDatasetBp ds).names 3584 1024 = true) :
    datasetZplObjset (mountDisk slots sectors blocks) ds .little = some (objsetOf (zfsObjset 9 sectors)) := by
  have hfront : ((mountParts slots.flatten sectors blocks).take 2).flatten.length = 3584 := by
    rw [mountParts, List.cons_append, List.cons_append, List.take_succ_cons, List.take_succ_cons, List.take_zero, List.flatten_cons,
      List.flatten_singleton, List.length_append, length_poolObjset, length_mountDnodes]
    rfl
  rw [datasetZplObjset, mountDisk_of_part slots sectors blocks (i := 2) rfl hfront (length_zfsObjset _ _) hnames (by decide)]
  dsimp only
  rw [parse_objsetOf (length_zfsObjset _ _).ge]
  rfl

/-- Both datasets do, and the snapshot is the one before the head. -/
theorem names_mountDatasets :
    (dslDatasetBp mountHead).names 3584 1024 = true ∧ (dslDatasetBp mountSnapshot).names 3584 1024 = true ∧
      dslDatasetPrevSnap mountHead = 4 ∧ dslDatasetPrevSnap mountSnapshot = 0 := by
  decide +kernel

/-- The filesystem's objset, from the MOS. -/
theorem zplObjset_mountDisk :
    (zplObjset (mountDisk slots sectors blocks) mountMos).value = some (objsetOf (zfsObjset 9 sectors)) := by
  rw [value_zplObjset (datasets_mountMos slots sectors blocks).1, endian_mountMos]
  exact datasetZplObjset_mountDisk slots sectors blocks names_mountDatasets.1

/-! ## The filesystem of such a pool -/

variable {slots sectors blocks}

theorem endian_objsetOf_zfsObjset (sector : UInt64) (sectors : UInt8) : (objsetOf (zfsObjset sector sectors)).endian = .little :=
  (ObjsetPhys.endian_of_parse (parse_objsetOf (length_zfsObjset _ _).ge)).1

/-- A filesystem whose slots and whose sectors behind them have their size, and whose objset names its slots. -/
structure IsMount (slots : List Bytes) (sectors : UInt8) (blocks : List Bytes) : Prop where
  slots_length : ∀ s ∈ slots, s.length = dnodeSize
  blocks_length : ∀ b ∈ blocks, b.length = dnodeSize
  count : slots.length ≤ 65536 ∧ blocks.length ≤ 65536
  objset : (objsetOf (zfsObjset 9 sectors)).metaDnode.dnNlevels = 1 ∧
    (objsetOf (zfsObjset 9 sectors)).metaDnode.dnDatablkszsec.toNat = slots.length ∧
    ((objsetOf (zfsObjset 9 sectors)).metaDnode.blkptr 0).any (Blkptr.names 4608 (512 * slots.length)) = true

namespace IsMount

variable (h : IsMount slots sectors blocks)
include h

/-- The filesystem holds its slots. -/
theorem holds : (objsetOf (zfsObjset 9 sectors)).Holds (mountDisk slots sectors blocks) slots := by
  obtain ⟨hlevels, hsectors, hblkptr⟩ := h.objset
  obtain ⟨bp, hbp, hnames⟩ := (Option.any_eq_true _ _).1 hblkptr
  have hcount := h.count
  have hfront : ((mountParts slots.flatten sectors blocks).take 3).flatten.length = 4608 := by
    simp only [mountParts, List.cons_append, List.take_succ_cons, List.take_zero, List.flatten_cons, List.flatten_nil, List.append_nil,
      List.length_append, length_poolObjset, length_mountDnodes, length_zfsObjset]
    rfl
  have hsmall : 4608 < 2 ^ 62 ∧ 512 * slots.length ≤ maxBlockSize := by
    unfold maxBlockSize
    omega
  exact ⟨hlevels, hsectors, h.slots_length, bp, hbp,
    mountDisk_of_part slots sectors blocks (i := 3) rfl hfront (length_flatten_slots h.slots_length) hnames hsmall⟩

/-- A sector behind the slots is read through a pointer to it. -/
theorem read_sector {i : Nat} {block : Bytes} (hblock : blocks[i]? = some block) {bp : Blkptr}
    (hnames : bp.names (4608 + 512 * slots.length + 512 * i) 512 = true) :
    mountDisk slots sectors blocks bp = .ok ⟨block, none, 0⟩ := by
  obtain ⟨hi, -⟩ := List.getElem?_eq_some_iff.1 hblock
  have hcount := h.count
  have htake : (blocks.take i).flatten.length = 512 * i := by
    rw [length_flatten_slots fun b hb => h.blocks_length b (List.mem_of_mem_take hb), List.length_take, Nat.min_eq_left hi.le]
  have hfront : ((mountParts slots.flatten sectors blocks).take (i + 4)).flatten.length = 4608 + 512 * slots.length + 512 * i := by
    simp only [mountParts, List.cons_append, List.nil_append, List.take_succ_cons, List.flatten_cons, List.length_append,
      length_poolObjset, length_mountDnodes, length_zfsObjset, length_flatten_slots h.slots_length, htake]
    unfold objsetMinSize
    omega
  refine mountDisk_of_part slots sectors blocks (i := i + 4) hblock hfront (h.blocks_length block (List.mem_of_getElem? hblock)) hnames
    ⟨?_, by decide⟩
  omega

/-- The object of a slot whose type is not zero. -/
theorem mosDnode_of_slot {id : UInt64} {raw : Bytes} (hraw : slots[id.toNat]? = some raw) (htype : u8At raw 0 ≠ 0) :
    (mosDnode (mountDisk slots sectors blocks) (objsetOf (zfsObjset 9 sectors)) id).value = some ((Dnode.parse raw .little).getD default) :=
  value_mosDnode_of_type h.holds (endian_objsetOf_zfsObjset _ _) hraw (h.slots_length raw (List.mem_of_getElem? hraw)) htype

/-- A ZAP of one sector behind the slots. -/
theorem zap_of_sector {id : UInt64} {raw : Bytes} (hraw : slots[id.toNat]? = some raw) {i : Nat} {block : Bytes}
    (hblock : blocks[i]? = some block)
    (hnames : (soleBlkptr raw .little).any (Blkptr.names (4608 + 512 * slots.length + 512 * i) 512) = true) :
    (zapObjectData (mountDisk slots sectors blocks) (objsetOf (zfsObjset 9 sectors)) id).value = some block := by
  obtain ⟨bp, hbp, hsector⟩ := (Option.any_eq_true _ _).1 hnames
  rw [← endian_objsetOf_zfsObjset 9 sectors] at hbp
  exact value_zapObjectData_of_slot h.holds hraw hbp (h.read_sector hblock hsector)

/-- A file of one sector behind the slots. -/
theorem file_of_sector {id : UInt64} {raw : Bytes} (hraw : slots[id.toNat]? = some raw) {i : Nat} {block : Bytes}
    (hblock : blocks[i]? = some block)
    (hnames : (soleBlkptr raw .little).any (Blkptr.names (4608 + 512 * slots.length + 512 * i) 512) = true) (size : Option UInt64) :
    (zplReadFileWith (mountDisk slots sectors blocks) (objsetOf (zfsObjset 9 sectors)) id size).value = .ok (cutAt size block) := by
  obtain ⟨bp, hbp, hsector⟩ := (Option.any_eq_true _ _).1 hnames
  rw [← endian_objsetOf_zfsObjset 9 sectors] at hbp
  exact value_zplReadFileWith_of_slot h.holds hraw hbp (h.read_sector hblock hsector) size

/-- A ZAP of one inline block. -/
theorem zap_of_inline {id : UInt64} {raw data : Bytes} (hraw : slots[id.toNat]? = some raw)
    (hdata : (soleBlkptr raw .little).bind (inlineBlock plainCtx) = some data) :
    (zapObjectData (mountDisk slots sectors blocks) (objsetOf (zfsObjset 9 sectors)) id).value = some data :=
  value_zapObjectData_of_inline h.holds hraw (by rwa [endian_objsetOf_zfsObjset])

end IsMount

end Pool

/-- A file's one inline block. -/
theorem readDnodeData_of_inline {body : Bytes} {d : Dnode} {block : Block} (hlevels : d.dnNlevels = 1)
    (hinline : (d.blkptr 0).any (fun bp => bp.embedded && bodyDisk plainCtx [] bp == .ok block) = true) :
    (readDnodeData (bodyDisk plainCtx body) d 0).value = .ok block := by
  obtain ⟨bp, hbp, hread⟩ := (Option.any_eq_true _ _).1 hinline
  rw [Bool.and_eq_true, beq_iff_eq] at hread
  rw [value_readDnodeData_zero hlevels hbp, bodyDisk_of_inline _ _ (by rw [hread.1, Bool.true_or]), hread.2]

/-! ## A filesystem without System Attributes -/

/-- An entry of its root directory: a regular file, object 3. -/
def legacyEntry (name : Bytes) (hne : name ≠ []) (hle : name.length ≤ mzapNameLen) (hnul : ∀ b ∈ name, b ≠ 0) : MzapEnt :=
  { value := 0x8000000000000003, cd := 0, name := name, name_ne := hne, name_le := hle, name_nul := hnul }

/-- Its root directory: the file by three names, and free slots. -/
def legacyRoot : MzapBlock :=
  { endian := .little
    salt := 0
    normflags := 0
    slots := [.entry (legacyEntry [0x66] f_ne_nil length_f_le f_ne_zero),
        .entry (legacyEntry [0xff] (by decide) (by decide) (by decide +kernel)),
        .entry (legacyEntry [0xfe] (by decide) (by decide) (by decide +kernel))] ++
      List.replicate 4 (.free (Vector.replicate 14 0) (Vector.replicate 49 0)) }

/-- The file's slot: three bytes in a block of 512, and a legacy bonus. -/
def legacyFileSlot : Bytes := inlineBonusSlot 19 dmuOtZnode (padTo 112 [1, 2, 3]) (zeros 80 ++ encode .little 8 3)

/-- The dnodes of the filesystem: master node, root directory, file. -/
def legacyDnodes : Bytes :=
  [zeros 512, inlineSlot 21 (mzapPayload "ROOT" 2), sectorSlot 20 13, legacyFileSlot].flatten

/-- The body of its pool. -/
def legacyBody : Bytes := mountBody legacyDnodes 4 legacyRoot.encode

/-- The image of its pool. -/
def legacyImage : Bytes := imageOf 7 mountRoot legacyBody

/-- Its objset. -/
def legacyZpl : ObjsetPhys := objsetOf (zfsObjset 9 4)

/-- Its mount. -/
def legacyFs : ZfsFs :=
  { image := legacyImage
    zpl := legacyZpl
    registry := default
    layouts := default
    rootId := 2
    recordSize := 512
    poolName := none }

/-- The file's dnode. -/
def legacyFile : Dnode := (Dnode.parse legacyFileSlot .little).getD default

/-- The slots of the filesystem. -/
def legacySlots : List Bytes := [zeros 512, inlineSlot 21 (mzapPayload "ROOT" 2), sectorSlot 20 13, legacyFileSlot]

theorem legacyBody_eq : legacyBody = mountBody legacySlots.flatten 4 [legacyRoot.encode].flatten := by
  rw [List.flatten_singleton, legacyBody, legacyDnodes, legacySlots]

theorem bodyDisk_legacyBody : bodyDisk plainCtx legacyBody = mountDisk legacySlots 4 [legacyRoot.encode] := by
  rw [legacyBody_eq, mountDisk]

/-- The object set of the filesystem, its root directory and its file. No sector of the body has the magic of an uberblock. -/
theorem decode_legacyDnodes :
    (legacyZpl.osType = dmuOstZfs ∧ legacyZpl.metaDnode.dnNlevels = 1 ∧
        legacyZpl.metaDnode.dnDatablkszsec.toNat = legacySlots.length ∧
        (legacyZpl.metaDnode.blkptr 0).any (Blkptr.names 4608 (512 * legacySlots.length)) = true) ∧
      ((soleBlkptr (sectorSlot 20 13) .little).any (Blkptr.names 6656 512) = true ∧
        recordSizeOf (some ((Dnode.parse (sectorSlot 20 13) .little).getD default)) = 512 ∧
        legacyAttrs ((Dnode.parse (sectorSlot 20 13) .little).getD default) = none) ∧
      (legacyFile.dnNlevels = 1 ∧ (legacyFile.blkptr 0).any (fun bp => bp.embedded && bodyDisk plainCtx [] bp ==
        .ok ⟨[1, 2, 3] ++ zeros 509, none, 0⟩) = true) ∧
      (mountSectors legacySlots 4 [legacyRoot.encode]).all (fun s => (detectEndian (s.take 8)).isNone) = true := by
  decide +kernel

theorem isMount_legacySlots : IsMount legacySlots 4 [legacyRoot.encode] := by
  obtain ⟨⟨-, hobjset⟩, -⟩ := decode_legacyDnodes
  rw [legacyZpl] at hobjset
  refine ⟨fun s hs => ?_, fun b hb => ?_, by decide, hobjset⟩
  · simp only [legacySlots, List.mem_cons, List.not_mem_nil, or_false] at hs
    rcases hs with hs | hs | hs | hs <;> rw [hs]
    · exact length_zeros 512
    · exact length_inlineSlot _ _
    · exact length_sectorSlot _ _
    · exact length_inlineBonusSlot _ _ _ _
  · rw [List.mem_singleton.1 hb, MzapBlock.length_encode]
    rfl

/-- The master node names the root directory, and nothing else. -/
theorem masterNode_legacyBody :
    (zplMasterRoot (bodyDisk plainCtx legacyBody) legacyZpl).value = some 2 ∧
      (zplSaContext (bodyDisk plainCtx legacyBody) legacyZpl).value = none := by
  obtain ⟨-, ⟨hinline, hlookup⟩, -⟩ := decode_snapshotDnodes
  have hslot : legacySlots[zplMasterNodeObj.toNat]? = some (inlineSlot 21 (mzapPayload "ROOT" 2)) := rfl
  have hdata := isMount_legacySlots.zap_of_inline hslot hinline
  rw [bodyDisk_legacyBody, legacyZpl]
  exact ⟨(value_zplMasterRoot hdata).trans hlookup.1, value_zplSaContext_of_none hdata hlookup.2⟩

/-- The root directory: an object of one sector, without attributes. -/
theorem rootDirectory_legacyBody :
    recordSizeOf (mosDnode (bodyDisk plainCtx legacyBody) legacyZpl 2).value = 512 ∧
      (mosDnode (bodyDisk plainCtx legacyBody) legacyZpl 2).value.bind legacyAttrs = none ∧
      (zapObjectData (bodyDisk plainCtx legacyBody) legacyZpl 2).value = some legacyRoot.encode := by
  have hslot : legacySlots[(2 : UInt64).toNat]? = some (sectorSlot 20 13) := rfl
  have hdnode := isMount_legacySlots.mosDnode_of_slot hslot (by decide)
  obtain ⟨-, ⟨hnames, hrecord, hattrs⟩, -⟩ := decode_legacyDnodes
  rw [bodyDisk_legacyBody, legacyZpl, hdnode, Option.bind_some]
  exact ⟨hrecord, hattrs, isMount_legacySlots.zap_of_sector hslot (i := 0) rfl hnames⟩

/-- The file, and its one block. -/
theorem file_legacyBody :
    (mosDnode (bodyDisk plainCtx legacyBody) legacyZpl 3).value = some legacyFile ∧
      (readDnodeData (bodyDisk plainCtx legacyBody) legacyFile 0).value = .ok ⟨[1, 2, 3] ++ zeros 509, none, 0⟩ := by
  have hslot : legacySlots[(3 : UInt64).toNat]? = some legacyFileSlot := rfl
  obtain ⟨-, -, ⟨hlevels, hinline⟩, -⟩ := decode_legacyDnodes
  refine ⟨?_, readDnodeData_of_inline hlevels hinline⟩
  rw [bodyDisk_legacyBody, legacyZpl, legacyFile]
  exact isMount_legacySlots.mosDnode_of_slot hslot (by decide)

/-- What the body holds. -/
theorem facts_legacyBody :
    (legacyBody.length = 7 * 1024 ∧ ∀ i < 7, (Uberblock.parse ((legacyBody.drop (i * 1024)).take 1024)).isNone = true) ∧
      openBody plainCtx mountRoot legacyBody = some (mountMos, .little) ∧
      (zplObjset (bodyDisk plainCtx legacyBody) mountMos).value = some legacyZpl ∧
      legacyZpl.osType = dmuOstZfs ∧
      (zplMasterRoot (bodyDisk plainCtx legacyBody) legacyZpl).value = some 2 ∧
      (zplSaContext (bodyDisk plainCtx legacyBody) legacyZpl).value = none ∧
      recordSizeOf (mosDnode (bodyDisk plainCtx legacyBody) legacyZpl 2).value = 512 ∧
      (mosDnode (bodyDisk plainCtx legacyBody) legacyZpl 2).value.bind legacyAttrs = none ∧
      (mosDnode (bodyDisk plainCtx legacyBody) legacyZpl 3).value = some legacyFile ∧
      (zapObjectData (bodyDisk plainCtx legacyBody) legacyZpl 2).value = some legacyRoot.encode ∧
      (readDnodeData (bodyDisk plainCtx legacyBody) legacyFile 0).value = .ok ⟨[1, 2, 3] ++ zeros 509, none, 0⟩ := by
  obtain ⟨⟨htype, -⟩, -, -, hmagic⟩ := decode_legacyDnodes
  obtain ⟨hlen, hnone⟩ := uberblock_mountBody 4 isMount_legacySlots.slots_length isMount_legacySlots.blocks_length hmagic
  have hopen := openBody_mountBody legacySlots 4 [legacyRoot.encode]
  have hzpl := zplObjset_mountDisk legacySlots 4 [legacyRoot.encode]
  rw [← legacyBody_eq] at hlen hnone hopen
  rw [← bodyDisk_legacyBody] at hzpl
  obtain ⟨hroot, hcontext⟩ := masterNode_legacyBody
  obtain ⟨hrecord, hattrs, hdata⟩ := rootDirectory_legacyBody
  obtain ⟨hfile, hread⟩ := file_legacyBody
  exact ⟨⟨hlen, fun i _ => by rw [hnone i]; rfl⟩, hopen, hzpl, htype, hroot, hcontext, hrecord, hattrs, hfile, hdata, hread⟩

/-- The pool without System Attributes mounts. -/
theorem open_legacyImage : (ZfsFs.open plainCtx legacyImage).value = .ok legacyFs := by
  obtain ⟨⟨hlen, hbody⟩, hmos, hzpl, htype, hroot, hcontext, hrecord, -⟩ := facts_legacyBody
  have hempty : ((zplSaContext (bodyDisk plainCtx legacyBody) legacyZpl).value).getD (default, default) =
      (default, default) := by
    rw [hcontext]
    rfl
  exact open_imageOf (k := 7) hlen (by decide) (fun i hi => Option.isNone_iff_eq_none.1 (hbody i hi)) hmos hzpl htype hroot hempty
    hrecord

/-- What the mount holds, by its image. -/
theorem facts_legacyImage :
    (zplSaContext (readBlock plainCtx legacyImage) legacyFs.zpl).value = none ∧
      (mosDnode (readBlock plainCtx legacyImage) legacyFs.zpl 2).value.bind legacyAttrs = none ∧
      (mosDnode (readBlock plainCtx legacyImage) legacyFs.zpl 3).value = some legacyFile ∧
      (zapObjectData (readBlock plainCtx legacyImage) legacyFs.zpl 2).value = some legacyRoot.encode ∧
      (readDnodeData (readBlock plainCtx legacyImage) legacyFile 0).value = .ok ⟨[1, 2, 3] ++ zeros 509, none, 0⟩ := by
  have hzpl : legacyFs.zpl = legacyZpl := by rw [legacyFs]
  obtain ⟨-, -, -, -, -, hcontext, -, hroot, hfile, hdata, hread⟩ := facts_legacyBody
  rw [hzpl, legacyImage, readBlock_imageOf]
  exact ⟨hcontext, hroot, hfile, hdata, hread⟩

end ZfsForensic
