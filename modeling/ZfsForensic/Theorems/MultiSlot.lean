import ZfsForensic.Lemmas.Dnode
import ZfsForensic.Lemmas.Image
import ZfsForensic.Lemmas.Walk

/-!
# Dnodes of several slots

A dnode may take several 512-byte slots, and its bonus lies behind its pointers. `mosDnode` slices one slot out of a block and
parses that. It resolves the dnode whole exactly where the pointers and the bonus end inside the first slot.
-/

namespace ZfsForensic

open Octets Checked Checked.Run

/-! ## The object array -/

/-- The array of every object's dnode: the blocks of the meta-dnode, one after the other. -/
def objectArray (disk : Disk) (os : ObjsetPhys) : Bytes :=
  (List.range (os.metaDnode.dnMaxblkid.toNat + 1)).flatMap (blockData disk os.metaDnode)

/-- The slots of an object in the array: `1 + dn_extra_slots` of them, the count read from the object's own core. -/
def slotsOf (array : Bytes) (id : UInt64) : Bytes :=
  (slice? array (id.toNat * dnodeSize)
    (id.toNat * dnodeSize + Dnode.totalBytes (u8At array (id.toNat * dnodeSize + 12)))).getD []

/-- Whether an object's slots lie inside one allocated block. -/
def ObjsetPhys.InOneBlock (os : ObjsetPhys) (array : Bytes) (id : UInt64) : Prop :=
  id.toNat / os.dnodesPerBlock ≤ os.metaDnode.dnMaxblkid.toNat ∧
    id.toNat % os.dnodesPerBlock * dnodeSize + Dnode.totalBytes (u8At array (id.toNat * dnodeSize + 12)) ≤
      os.metaDnode.dataBlockSize

/-- A range of the array inside one block is that range of the block. -/
theorem slice?_objectArray {disk : Disk} {os : ObjsetPhys} (h : WholeBlocks disk os.metaDnode) {blkid : UInt64}
    (hb : blkid ≤ os.metaDnode.dnMaxblkid) {r k : Nat} (hk : r + k ≤ os.metaDnode.dataBlockSize) :
    slice? (objectArray disk os) (os.metaDnode.dataBlockSize * blkid.toNat + r)
        (os.metaDnode.dataBlockSize * blkid.toNat + r + k) =
      slice? (blockData disk os.metaDnode blkid.toNat) r (r + k) := by
  rw [UInt64.le_iff_toNat_le] at hb
  exact slice?_flatMap (length_blockData h) (List.getElem?_range (by omega)) hk

/-- An object's offset in the array, by its block and its slot there. -/
theorem slot_offset (os : ObjsetPhys) (id : UInt64) :
    id.toNat * dnodeSize =
      os.metaDnode.dataBlockSize * (os.blockOf id).toNat + id.toNat % os.dnodesPerBlock * dnodeSize := by
  have hdiv := Nat.div_add_mod id.toNat os.dnodesPerBlock
  have hsize : os.metaDnode.dataBlockSize = os.dnodesPerBlock * dnodeSize := Dnode.dataBlockSize_eq _
  calc id.toNat * dnodeSize
      = (os.dnodesPerBlock * (id.toNat / os.dnodesPerBlock) + id.toNat % os.dnodesPerBlock) * dnodeSize := by rw [hdiv]
    _ = os.dnodesPerBlock * dnodeSize * (id.toNat / os.dnodesPerBlock)
          + id.toNat % os.dnodesPerBlock * dnodeSize := by ring
    _ = _ := by rw [hsize, ObjsetPhys.blockOf_toNat]

/-- What the object lookup reads is the first slot of the object's slots. -/
theorem mosDnode_value_of_inOneBlock {disk : Disk} {os : ObjsetPhys} {id : UInt64} (hblocks : WholeBlocks disk os.metaDnode)
    (hin : os.InOneBlock (objectArray disk os) id) (htype : u8At (objectArray disk os) (id.toNat * dnodeSize) ≠ 0) :
    ∃ x y, slotsOf (objectArray disk os) id = x ++ y ∧ x.length = dnodeSize ∧
      (x ++ y).length = Dnode.totalBytes (u8At x 12) ∧ (mosDnode disk os id).value = Dnode.parse x os.endian := by
  obtain ⟨hblk, hfit⟩ := hin
  have htotal := Dnode.totalBytes_pos (u8At (objectArray disk os) (id.toNat * dnodeSize + 12))
  have hd : dnodeSize = 512 := rfl
  have hdpb : os.dnodesPerBlock ≠ 0 := by
    intro hz
    have hsize : os.metaDnode.dataBlockSize = os.dnodesPerBlock * dnodeSize := Dnode.dataBlockSize_eq _
    rw [hsize, hz] at hfit
    omega
  have hle : os.blockOf id ≤ os.metaDnode.dnMaxblkid := by
    rw [UInt64.le_iff_toNat_le, ObjsetPhys.blockOf_toNat]
    exact hblk
  obtain ⟨block, hread, hlen⟩ := hblocks _ hle
  have hdata : blockData disk os.metaDnode (os.blockOf id).toNat = block.data := by
    rw [blockData, UInt64.ofNat_toNat, hread]
  have hwhole := slice?_objectArray hblocks hle hfit
  have hinside := @slice?_of_le block.data _ _ (Nat.le_add_right _ _) (hfit.trans hlen.ge)
  rw [← slot_offset, hdata, hinside] at hwhole
  obtain ⟨x, y, hx, hxy⟩ := slice?_split hwhole (b := id.toNat * dnodeSize + dnodeSize) (by omega) (by omega)
  have hxlen : x.length = dnodeSize := by rw [slice?_length hx, Nat.add_sub_cancel_left]
  have hbyte (i : Nat) (hi : i < dnodeSize) : u8At (objectArray disk os) (id.toNat * dnodeSize + i) = u8At x i := by
    rw [u8At, u8At, getElem?_of_slice? hx (by omega)]
  have hslots : slotsOf (objectArray disk os) id = x ++ y := by
    rw [slotsOf, hwhole, Option.getD_some, hxy]
  refine ⟨x, y, hslots, hxlen, ?_, ?_⟩
  · rw [← hbyte 12 (by omega), ← hxy, slice?_length hwhole, Nat.add_sub_cancel_left]
  · have hfirst := slice?_objectArray hblocks hle
      (r := id.toNat % os.dnodesPerBlock * dnodeSize) (k := dnodeSize) (by omega)
    rw [← slot_offset, hdata, hx] at hfirst
    have hcore : ¬ x.length < dnodeCoreSize := by
      rw [hxlen]
      decide
    have htype' : u8At x 0 ≠ 0 := by
      have h0 := hbyte 0 (by decide)
      rw [Nat.add_zero] at h0
      rwa [← h0]
    rw [mosDnode_eq disk hdpb, value_bind, hread, value_pure, slotOfRead, slotDnode, ← hfirst]
    simp [Dnode.parse, hcore, htype']

/-- `mosDnode` resolves a dnode whole, with every pointer and every byte of bonus its slots hold, exactly where its pointers and
its bonus end inside the first slot. -/
theorem mosDnode_whole_iff (Γ : Ctx) (image : Bytes) (os : ObjsetPhys) (id : UInt64)
    (hblocks : WholeBlocks (readBlock Γ image) os.metaDnode)
    (hin : os.InOneBlock (objectArray (readBlock Γ image) os) id)
    (htype : u8At (objectArray (readBlock Γ image) os) (id.toNat * dnodeSize) ≠ 0) :
    ((mosDnode (readBlock Γ image) os id).value =
        Dnode.parse (slotsOf (objectArray (readBlock Γ image) os) id) os.endian ∧
      ∀ d, (mosDnode (readBlock Γ image) os id).value = some d →
        dnodeCoreSize + d.dnNblkptr.toNat * blkptrSize + d.dnBonuslen.toNat ≤ Dnode.totalBytes d.dnExtraSlots →
        d.blkptrs.length = d.dnNblkptr.toNat ∧ d.bonus.length = d.dnBonuslen.toNat) ↔
      Dnode.extentOf (slotsOf (objectArray (readBlock Γ image) os) id) os.endian ≤ dnodeSize := by
  obtain ⟨x, y, hslots, hxlen, htotal, hvalue⟩ := mosDnode_value_of_inOneBlock hblocks hin htype
  have hcore : dnodeCoreSize ≤ x.length := by
    rw [hxlen]
    decide
  have hext := Dnode.extentOf_append y os.endian hcore
  have hiff := Dnode.parse_append_eq_iff y os.endian hcore (by
    rw [htotal, ← hext]
    have h12 : u8At (x ++ y) 12 = u8At x 12 := u8At_append_left (by rw [hxlen]; decide)
    rw [← h12]
    exact Dnode.extentOf_le_totalBytes _ _)
  rw [hslots, hvalue, hext, ← hxlen, ← hiff]
  refine ⟨fun h => h.1.symm, fun h => ⟨h.symm, fun d hd hfit => ?_⟩⟩
  obtain ⟨hptrs, hbonus⟩ := Dnode.lengths_of_parse hd (hiff.1 h)
  obtain ⟨hn, hl, he⟩ : d.dnNblkptr = u8At x 3 ∧ d.dnBonuslen = (Reader.mk os.endian).u16 x 10 ∧ d.dnExtraSlots = u8At x 12 := by
    unfold Dnode.parse at hd
    rw [if_neg (Nat.not_lt.2 hcore), Option.some.injEq] at hd
    subst hd
    exact ⟨rfl, rfl, rfl⟩
  rw [hn, hl, he] at hfit
  have hclamp : Dnode.nblkptrOf x = (u8At x 3).toNat := by
    unfold Dnode.nblkptrOf Dnode.clampNblkptr
    unfold dnodeCoreSize blkptrSize at hfit ⊢
    omega
  have hclampLen : Dnode.bonusLenOf x os.endian = ((Reader.mk os.endian).u16 x 10).toNat := by
    unfold Dnode.bonusLenOf Dnode.clampBonuslen
    rw [hclamp]
    omega
  rw [hptrs, hbonus, hclamp, hclampLen, hn, hl]
  exact ⟨rfl, rfl⟩

/-! ## One block of two slots

The meta-dnode's only block is inline: one dnode of two slots and no pointer, of a given bonus length. -/

/-- A meta-dnode with one level, one pointer, and blocks of 1024 bytes. -/
def twoSlotMeta : Vector UInt8 64 := padTo 64 [10, 17, 1, 1, 0, 0, 0, 0, 2]

/-- A dnode of type 19 with one extra slot, no pointer, and a bonus of the length the two bytes write. -/
def twoSlotDnode (lo hi : UInt8) : Vector UInt8 112 := padTo 112 [19, 17, 1, 0, 44, 0, 0, 0, 1, 0, lo, hi, 1]

/-- The objset of such a dnode. -/
def twoSlotObjset (lo hi : UInt8) : ObjsetPhys := objsetOf (objsetBytes twoSlotMeta (inlinePtr (twoSlotDnode lo hi) 1024))

theorem wholeBlocks_of_maxblkid_zero {disk : Disk} {d : Dnode} (block : Block) (hmax : d.dnMaxblkid = 0)
    (hread : (readDnodeData disk d 0).value = .ok block) (hlen : block.data.length = d.dataBlockSize) :
    WholeBlocks disk d := by
  intro blkid hle
  have h0 : blkid = 0 := by
    rw [hmax, UInt64.le_iff_toNat_le] at hle
    exact UInt64.toNat_inj.1 (Nat.le_zero.1 hle)
  rw [h0]
  exact ⟨block, hread, hlen⟩

/-- A bonus of eight bytes lies in the first slot, and the dnode is resolved whole. -/
theorem mosDnode_whole_short_bonus :
    (mosDnode (readBlock plainCtx []) (twoSlotObjset 8 0) 0).value =
      Dnode.parse (slotsOf (objectArray (readBlock plainCtx []) (twoSlotObjset 8 0)) 0) (twoSlotObjset 8 0).endian := by
  have hblocks : WholeBlocks (readBlock plainCtx []) (twoSlotObjset 8 0).metaDnode :=
    wholeBlocks_of_maxblkid_zero ⟨resize (twoSlotDnode 8 0).toList 1024, none, 0⟩ (by decide +kernel)
      (by decide +kernel) (by decide +kernel)
  have hin : (twoSlotObjset 8 0).InOneBlock (objectArray (readBlock plainCtx []) (twoSlotObjset 8 0)) 0 :=
    ⟨by decide +kernel, by decide +kernel⟩
  exact ((mosDnode_whole_iff plainCtx [] (twoSlotObjset 8 0) 0 hblocks hin (by decide +kernel)).2 (by decide +kernel)).1

/-- A bonus of 449 bytes ends one byte behind the first slot, and is lost whole. -/
theorem mosDnode_loses_long_bonus :
    WholeBlocks (readBlock plainCtx []) (twoSlotObjset 193 1).metaDnode ∧
    (twoSlotObjset 193 1).InOneBlock (objectArray (readBlock plainCtx []) (twoSlotObjset 193 1)) 0 ∧
    (mosDnode (readBlock plainCtx []) (twoSlotObjset 193 1) 0).value.map (fun d => (d.dnBonuslen, d.bonus.length)) =
      some (449, 0) ∧
    (Dnode.parse (slotsOf (objectArray (readBlock plainCtx []) (twoSlotObjset 193 1)) 0) .little).map
      (fun d => (d.dnBonuslen, d.bonus.length)) = some (449, 449) := by
  have hblocks : WholeBlocks (readBlock plainCtx []) (twoSlotObjset 193 1).metaDnode :=
    wholeBlocks_of_maxblkid_zero ⟨resize (twoSlotDnode 193 1).toList 1024, none, 0⟩ (by decide +kernel)
      (by decide +kernel) (by decide +kernel)
  exact ⟨hblocks, ⟨by decide +kernel, by decide +kernel⟩, by decide +kernel, by decide +kernel⟩

end ZfsForensic
