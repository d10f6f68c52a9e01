import ZfsForensic.Lemmas.WriteObject

/-!
# Object sets read back

An object set is written from its objects up: the objects, the array of their dnodes, which is an object itself, and the objset block, so that
every pointer points back. Reading it resolves exactly the objects written, and every block of an object is the record of its number.
-/

namespace ZfsForensic

open Octets Checked Checked.Run

/-! ## The blocks of an object -/

section Blocks

variable {Γ : Ctx} (P : Packer Γ) {image : Bytes} {sector : Nat} {o : DmuObject}

/-- The number of a record is a block id. -/
theorem DmuObject.count_lt (o : DmuObject) : o.records.length < 2 ^ 64 := by
  have hpow : 1024 ^ o.height ≤ 1024 ^ 6 := Nat.pow_le_pow_right (by decide) o.height_le
  have hlt : 1024 ^ 6 < 2 ^ 64 := by decide
  have hle := o.records_le
  omega

theorem DmuObject.toNat_maxBlkid (o : DmuObject) : (UInt64.ofNat (o.records.length - 1)).toNat = o.records.length - 1 := by
  have hlt := o.count_lt
  rw [UInt64.toNat_ofNat']
  omega

/-- A record is read as the block of its number, and no check fails on the way. -/
theorem Packer.WrittenAt.read_record (h : P.WrittenAt image sector o) {i : Nat} {r : Bytes} (hr : o.records[i]? = some r) :
    readDnodeData (readBlock Γ image) (P.dnodeAt sector o) (UInt64.ofNat i) = pure (.ok ⟨r, recordVerdict r, 0⟩) := by
  obtain ⟨hi, -⟩ := List.getElem?_eq_some_iff.1 hr
  obtain ⟨p, hp, -, hwalk⟩ := (h.leadsTo P).leads i r hr
  have hcount := o.count_lt
  have hheight := o.height_le
  have hid : (UInt64.ofNat i).toNat = i := by
    rw [UInt64.toNat_ofNat']
    omega
  have hmax : UInt64.ofNat i ≤ (P.dnodeAt sector o).dnMaxblkid := by
    change UInt64.ofNat i ≤ UInt64.ofNat (o.records.length - 1)
    rw [UInt64.le_iff_toNat_le, hid, o.toNat_maxBlkid]
    omega
  have hlevels : (P.dnodeAt sector o).dnNlevels ≠ 0 := by
    intro hzero
    have hnat : (UInt8.ofNat (o.height + 1)).toNat = 0 := congrArg UInt8.toNat hzero
    rw [UInt8.toNat_ofNat'] at hnat
    omega
  have hbase : 2 ^ 10 = 1024 := rfl
  have hptrs : (P.dnodeAt sector o).blkptrs = P.topPtrs sector o := rfl
  rw [readDnodeData_eq _ hlevels hmax (P.shiftsFit_dnodeAt sector o), hid, topRead, P.levelShift_dnodeAt, P.topLevel_dnodeAt,
    Nat.mul_comm, Nat.pow_mul, hbase, hptrs, hp]
  dsimp only
  rw [hwalk]

/-- The records that are read in order. -/
theorem Packer.WrittenAt.read_records (h : P.WrittenAt image sector o) :
    (∀ i < o.records.length, Reads (readBlock Γ image) (P.dnodeAt sector o) i) ∧
      objectBytes (readBlock Γ image) (P.dnodeAt sector o) o.records.length = o.records.flatten := by
  have hread : ∀ i < o.records.length, ∃ r, o.records[i]? = some r ∧
      (readDnodeData (readBlock Γ image) (P.dnodeAt sector o) (UInt64.ofNat i)).value = .ok ⟨r, recordVerdict r, 0⟩ := by
    intro i hi
    have hr := List.getElem?_eq_getElem hi
    exact ⟨_, hr, by rw [h.read_record P hr, value_pure]⟩
  refine ⟨fun i hi => ?_, ?_⟩
  · obtain ⟨r, -, hr⟩ := hread i hi
    exact ⟨_, hr⟩
  · have hmap : (List.range o.records.length).map (blockData (readBlock Γ image) (P.dnodeAt sector o)) = o.records := by
      refine List.ext_getElem? fun i => ?_
      rw [List.getElem?_map]
      by_cases hi : i < o.records.length
      · obtain ⟨r, hr, hvalue⟩ := hread i hi
        rw [List.getElem?_range hi, hr, Option.map_some, blockData_of_read hvalue]
      · rw [List.getElem?_eq_none (by rw [List.length_range]; omega), List.getElem?_eq_none (by omega), Option.map_none]
    rw [objectBytes, List.flatMap_def, hmap]

theorem DmuObject.length_flatten (o : DmuObject) : o.records.flatten.length = o.records.length * (512 * o.sectors.toNat) := by
  rw [← List.flatMap_id', Radix.length_flatMap o.records_length, Nat.mul_comm]

theorem Packer.dataBlockSize_dnodeAt (sector : Nat) (o : DmuObject) :
    (P.dnodeAt sector o).dataBlockSize = 512 * o.sectors.toNat := by
  rw [Dnode.dataBlockSize_eq, Nat.mul_comm]
  rfl

/-- The block ids of a written object are those of its records. -/
theorem Packer.blockCount_dnodeAt (sector : Nat) (o : DmuObject) : satAdd (P.dnodeAt sector o).dnMaxblkid.toNat 1 = o.records.length := by
  have hcount := o.count_lt
  have hpos := List.length_pos_iff.2 o.records_ne
  change satAdd (UInt64.ofNat (o.records.length - 1)).toNat 1 = _
  rw [o.toNat_maxBlkid, satAdd_eq (by omega)]
  omega

/-- A written ZAP inside the cap is read whole. -/
theorem Packer.WrittenAt.read_zap (h : P.WrittenAt image sector o) (hcap : o.records.flatten.length ≤ maxZapBytes) :
    (readZapObject (readBlock Γ image) (P.dnodeAt sector o)).value = .ok o.records.flatten := by
  have hpos := o.sectors_pos
  have hsize := P.dataBlockSize_dnodeAt sector o
  obtain ⟨hreads, hbytes⟩ := h.read_records P
  have hcount : zapBlockCount (P.dnodeAt sector o) = o.records.length := by
    rw [zapBlockCount, P.blockCount_dnodeAt sector o, hsize]
    rw [o.length_flatten] at hcap
    exact Nat.min_eq_left ((Nat.le_div_iff_mul_le (by omega)).2 hcap)
  exact (readZapObject_eq_ok_iff _ _ _).2 ⟨by omega, by rwa [hcount], by rw [hcount, hbytes]⟩

/-- A written file inside the cap is one that reads, as its records. -/
theorem Packer.WrittenAt.read_file (h : P.WrittenAt image sector o) (hcap : o.records.flatten.length ≤ maxFileBytes) :
    FileReads (readBlock Γ image) (P.dnodeAt sector o) ∧ fileBytes (readBlock Γ image) (P.dnodeAt sector o) = o.records.flatten := by
  have hpos := o.sectors_pos
  have hsize := P.dataBlockSize_dnodeAt sector o
  obtain ⟨hreads, hbytes⟩ := h.read_records P
  have hcount : fileBlockCount (P.dnodeAt sector o) = o.records.length := by
    have hfit : o.records.length ≤ maxFileBytes / (512 * o.sectors.toNat) := by
      rw [o.length_flatten] at hcap
      exact (Nat.le_div_iff_mul_le (by omega)).2 hcap
    rw [fileBlockCount, P.blockCount_dnodeAt sector o, hsize]
    exact Nat.min_eq_left (hfit.trans (Nat.le_max_left _ _))
  exact ⟨⟨by omega, by rwa [hcount]⟩, by rw [fileBytes, hcount, hbytes]⟩

end Blocks

/-! ## Object sets -/

/-- An object set to be written: its type, its objects from object 1 on, and the shape of the array of their dnodes: how many a block
holds, and its levels of indirect blocks. -/
structure DmuObjset where
  osType : UInt64
  objects : List DmuObject
  perBlock : UInt16
  height : Nat
  perBlock_pos : 0 < perBlock.toNat
  height_le : height ≤ 6
  count : objects.length + 1 ≤ perBlock.toNat * 1024 ^ height

/-- The block of an object set: the meta-dnode, the type, and zeros. -/
def objsetBlock (metaDnode : Dnode) (osType : UInt64) : Bytes :=
  metaDnode.encode .little ++ zeros 192 ++ encode .little 8 osType.toNat ++ zeros 312

/-- A block of slots, filled up with empty ones. -/
def slotBlock (perBlock : Nat) (slots : List Bytes) : Bytes := (slots ++ List.replicate (perBlock - slots.length) (zeros dnodeSize)).flatten

namespace Packer

variable {Γ : Ctx} (P : Packer Γ)

/-- Objects laid down one after the other. -/
def writeObjects : Nat → List DmuObject → Bytes
  | _, [] => []
  | sector, o :: os => P.writeObject sector o ++ writeObjects (sector + sectorsOf (P.writeObject sector o)) os

/-- Their dnodes. -/
def dnodesAt : Nat → List DmuObject → List Dnode
  | _, [] => []
  | sector, o :: os => P.dnodeAt sector o :: dnodesAt (sector + sectorsOf (P.writeObject sector o)) os

/-- The slots of an object set: an empty one, and those of its objects. -/
def slotsAt (sector : Nat) (os : DmuObjset) : List Bytes :=
  zeros dnodeSize :: (P.dnodesAt sector os.objects).map (Dnode.encode .little)

/-- The blocks of slots. -/
def slotBlocksAt (sector : Nat) (os : DmuObjset) : List Bytes :=
  (Radix.groups os.perBlock.toNat (P.slotsAt sector os)).map (slotBlock os.perBlock.toNat)

theorem length_dnodesAt (sector : Nat) (objects : List DmuObject) : (P.dnodesAt sector objects).length = objects.length := by
  induction objects generalizing sector with
  | nil => rfl
  | cons o os ih => rw [dnodesAt, List.length_cons, List.length_cons, ih]

theorem length_slotsAt (sector : Nat) (os : DmuObjset) : (P.slotsAt sector os).length = os.objects.length + 1 := by
  rw [slotsAt, List.length_cons, List.length_map, length_dnodesAt]

/-- A dnode of an object set is that of an object. -/
theorem exists_of_mem_dnodesAt {sector : Nat} {objects : List DmuObject} {d : Dnode} (h : d ∈ P.dnodesAt sector objects) :
    ∃ s o, d = P.dnodeAt s o := by
  induction objects generalizing sector with
  | nil => exact absurd h List.not_mem_nil
  | cons o os ih =>
    rcases List.mem_cons.1 h with rfl | h
    · exact ⟨sector, o, rfl⟩
    · exact ih h

/-- Every slot has its size. -/
theorem length_of_mem_slotsAt {sector : Nat} {os : DmuObjset} {s : Bytes} (h : s ∈ P.slotsAt sector os) : s.length = dnodeSize := by
  rcases List.mem_cons.1 h with rfl | h
  · exact length_zeros _
  · obtain ⟨d, hd, rfl⟩ := List.mem_map.1 h
    obtain ⟨t, o, rfl⟩ := P.exists_of_mem_dnodesAt hd
    exact P.length_encode_dnodeAt t o

theorem length_of_mem_slotBlock {perBlock : Nat} {slots : List Bytes} (h : ∀ s ∈ slots, s.length = dnodeSize) :
    ∀ s ∈ slots ++ List.replicate (perBlock - slots.length) (zeros dnodeSize), s.length = dnodeSize := by
  intro s hs
  rcases List.mem_append.1 hs with hs | hs
  · exact h s hs
  · rw [List.eq_of_mem_replicate hs, length_zeros]

/-- A block of slots has its size. -/
theorem length_slotBlock {perBlock : Nat} {slots : List Bytes} (h : ∀ s ∈ slots, s.length = dnodeSize) (hle : slots.length ≤ perBlock) :
    (slotBlock perBlock slots).length = 512 * perBlock := by
  rw [slotBlock, ← List.flatMap_id', Radix.length_flatMap (length_of_mem_slotBlock h), List.length_append, List.length_replicate,
    Nat.add_sub_cancel' hle]
  rfl

/-- The array of the dnodes of an object set. -/
def arrayObject (sector : Nat) (os : DmuObjset) : DmuObject where
  type := 10
  bonusType := 0
  bonus := []
  sectors := os.perBlock
  height := os.height
  records := P.slotBlocksAt sector os
  type_ne := by decide
  bonus_le := Nat.zero_le _
  sectors_pos := os.perBlock_pos
  height_le := os.height_le
  records_ne := by
    have hpos := os.perBlock_pos
    refine List.ne_nil_of_length_pos ?_
    rw [slotBlocksAt, List.length_map, Radix.length_groups, length_slotsAt]
    exact Nat.div_pos_iff.2 ⟨hpos, by omega⟩
  records_length := by
    intro r hr
    obtain ⟨g, hg, rfl⟩ := List.mem_map.1 hr
    exact length_slotBlock (fun s hs => P.length_of_mem_slotsAt (Radix.mem_of_mem_groups hg hs)) (Radix.length_le_of_mem_groups hg)
  records_le := by
    have hcount := os.count
    have hpos := os.perBlock_pos
    rw [slotBlocksAt, List.length_map, Radix.length_groups, length_slotsAt]
    refine Nat.le_of_lt_succ ((Nat.div_lt_iff_lt_mul hpos).2 ?_)
    rw [Nat.succ_mul, Nat.mul_comm (1024 ^ os.height)]
    omega

/-- The sector of the array. -/
def arraySector (sector : Nat) (os : DmuObjset) : Nat := sector + sectorsOf (P.writeObjects sector os.objects)

/-- The meta-dnode of an object set at a sector. -/
def metaDnodeAt (sector : Nat) (os : DmuObjset) : Dnode := P.dnodeAt (P.arraySector sector os) (P.arrayObject sector os)

/-- The object set a reader makes of it. -/
def objsetAt (sector : Nat) (os : DmuObjset) : ObjsetPhys :=
  { metaDnode := P.metaDnodeAt sector os, osType := os.osType, osFlags := 0, endian := .little }

/-- The bytes of the array. -/
def writeArray (sector : Nat) (os : DmuObjset) : Bytes := P.writeObject (P.arraySector sector os) (P.arrayObject sector os)

/-- The sector of the objset block. -/
def objsetSector (sector : Nat) (os : DmuObjset) : Nat := P.arraySector sector os + sectorsOf (P.writeArray sector os)

/-- The pointer to the objset block. -/
def objsetPtr (sector : Nat) (os : DmuObjset) : Blkptr :=
  P.blockPtr (P.objsetSector sector os) 11 0 (objsetBlock (P.metaDnodeAt sector os) os.osType)

/-- The bytes of an object set: its objects, the array of their dnodes, and the objset block. -/
def writeObjset (sector : Nat) (os : DmuObjset) : Bytes :=
  P.writeObjects sector os.objects ++ P.writeArray sector os ++ P.pack (objsetBlock (P.metaDnodeAt sector os) os.osType)

/-- Where an object set lies in an image. -/
structure ObjsetAt (image : Bytes) (sector : Nat) (os : DmuObjset) : Prop where
  part : Part image (0x400000 + 512 * sector) (P.writeObjset sector os)
  fits : sector + sectorsOf (P.writeObjset sector os) < 2 ^ 50

end Packer

section Objsets

variable {Γ : Ctx} (P : Packer Γ) {image : Bytes}

theorem Packer.sectored_writeObjects (sector : Nat) (objects : List DmuObject) : Sectored (P.writeObjects sector objects) := by
  induction objects generalizing sector with
  | nil => exact sectored_nil.1
  | cons o os ih => exact ((P.sectored_writeObject sector o).1.append (ih _)).1

/-- Every object of a written list lies where its dnode says. -/
theorem Packer.writtenAt_objects {objects : List DmuObject} {sector : Nat}
    (hpart : Part image (0x400000 + 512 * sector) (P.writeObjects sector objects))
    (hfits : sector + sectorsOf (P.writeObjects sector objects) < 2 ^ 50) :
    List.Forall₂ (fun d o => ∃ s, d = P.dnodeAt s o ∧ P.WrittenAt image s o) (P.dnodesAt sector objects) objects := by
  induction objects generalizing sector with
  | nil => exact List.Forall₂.nil
  | cons o os ih =>
    have hobject := (P.sectored_writeObject sector o).1
    rw [writeObjects] at hpart hfits
    rw [(hobject.append (P.sectored_writeObjects _ os)).2] at hfits
    exact List.Forall₂.cons ⟨sector, rfl, hpart.left, by omega⟩ (ih (part_behind hobject hpart) (by omega))

theorem Packer.length_objsetBlock (sector : Nat) (os : DmuObjset) : (objsetBlock (P.metaDnodeAt sector os) os.osType).length = 1024 := by
  rw [objsetBlock, List.length_append, List.length_append, List.length_append, metaDnodeAt, length_encode_dnodeAt, length_zeros, length_zeros,
    length_encode]
  rfl

theorem Packer.whole_objsetBlock (sector : Nat) (os : DmuObjset) : Whole (objsetBlock (P.metaDnodeAt sector os) os.osType) :=
  ⟨2, by decide, by decide, P.length_objsetBlock sector os⟩

theorem Packer.sectored_writeObjset (sector : Nat) (os : DmuObjset) :
    Sectored (P.writeObjset sector os) ∧ sectorsOf (P.writeObjset sector os) =
      sectorsOf (P.writeObjects sector os.objects) + sectorsOf (P.writeArray sector os) +
        sectorsOf (P.pack (objsetBlock (P.metaDnodeAt sector os) os.osType)) := by
  have hfront := (P.sectored_writeObjects sector os.objects).append (P.sectored_writeObject (P.arraySector sector os)
    (P.arrayObject sector os)).1
  have hall := hfront.1.append (P.whole _ (P.whole_objsetBlock sector os)).sectored
  rw [hfront.2] at hall
  exact hall

/-- An objset block parses as what it holds. -/
theorem parse_objsetBlock {m : Dnode} (hm : m.Stored) (horder : m.endian = .little) (osType : UInt64) :
    ObjsetPhys.parse (objsetBlock m osType) .little =
      .ok { metaDnode := m, osType := osType, osFlags := 0, endian := .little } := by
  have hcore := Dnode.length_encode .little hm
  have hlen : (objsetBlock m osType).length = 1024 := by
    rw [objsetBlock, List.length_append, List.length_append, List.length_append, hcore, length_zeros, length_zeros, length_encode]
    rfl
  have hmeta : Dnode.parse (objsetBlock m osType) .little = some m := by
    rw [objsetBlock, List.append_assoc, List.append_assoc, Dnode.parse_encode_append .little hm, ← horder]
  have htype : (Reader.mk .little).u64 (objsetBlock m osType) osTypeOffset = osType := by
    have hpart : Part (objsetBlock m osType) osTypeOffset (encode .little 8 osType.toNat) := by
      have hoff : (m.encode .little ++ zeros 192).length = osTypeOffset := by
        rw [List.length_append, hcore, length_zeros]
        rfl
      rw [← hoff]
      exact part_middle _ _ _
    rw [Reader.u64_eq, hpart.readUint osType.toNat_lt, UInt64.ofNat_toNat]
  have hflags : (Reader.mk .little).u64 (objsetBlock m osType) osFlagsOffset = 0 := by
    have hoff : (m.encode .little ++ zeros 192 ++ encode .little 8 osType.toNat).length = osFlagsOffset := by
      rw [List.length_append, List.length_append, hcore, length_zeros, length_encode]
      rfl
    rw [Reader.u64_eq, objsetBlock, readUint_append_right hoff.le, readUint_zeros]
    rfl
  rw [ObjsetPhys.parse, if_neg (by rw [hlen]; decide), hmeta]
  dsimp only
  rw [htype, hflags]

variable {sector : Nat} {os : DmuObjset}

theorem Packer.ObjsetAt.objects (h : P.ObjsetAt image sector os) :
    List.Forall₂ (fun d o => ∃ s, d = P.dnodeAt s o ∧ P.WrittenAt image s o) (P.dnodesAt sector os.objects) os.objects := by
  have hsum := (P.sectored_writeObjset sector os).2
  have hfits := h.fits
  exact P.writtenAt_objects h.part.left.left (by omega)

/-- The object of an id lies where its dnode says. -/
theorem Packer.ObjsetAt.object (h : P.ObjsetAt image sector os) {i : Nat} {o : DmuObject} (ho : os.objects[i]? = some o) :
    ∃ s, (P.dnodesAt sector os.objects)[i]? = some (P.dnodeAt s o) ∧ P.WrittenAt image s o := by
  obtain ⟨d, hd, s, rfl, hwritten⟩ := exists_of_forall₂ (h.objects P) ho
  exact ⟨s, hd, hwritten⟩

/-- So does the array of the dnodes. -/
theorem Packer.ObjsetAt.array (h : P.ObjsetAt image sector os) :
    P.WrittenAt image (P.arraySector sector os) (P.arrayObject sector os) := by
  have hsum := (P.sectored_writeObjset sector os).2
  have hfits := h.fits
  have hfit : P.arraySector sector os + sectorsOf (P.writeArray sector os) < 2 ^ 50 := by
    rw [arraySector]
    omega
  exact ⟨part_behind (P.sectored_writeObjects sector os.objects) h.part.left, hfit⟩

/-- The objset block is served by its pointer, and parses. -/
theorem Packer.ObjsetAt.read (h : P.ObjsetAt image sector os) :
    (P.objsetPtr sector os).Serves Γ image (objsetBlock (P.metaDnodeAt sector os) os.osType) (some true) ∧
      ObjsetPhys.parse (objsetBlock (P.metaDnodeAt sector os) os.osType) .little = .ok (P.objsetAt sector os) := by
  have hwhole := P.whole_objsetBlock sector os
  have hfront := (P.sectored_writeObjects sector os.objects).append (P.sectored_writeObject (P.arraySector sector os)
    (P.arrayObject sector os)).1
  have hsum := (P.sectored_writeObjset sector os).2
  have hfits := h.fits
  have hlt : P.objsetSector sector os < 2 ^ 50 := by
    rw [objsetSector, arraySector]
    omega
  have hpart := part_behind hfront.1 h.part
  rw [hfront.2, ← Nat.add_assoc] at hpart
  exact ⟨⟨P.blockPtr_stored 11 hwhole hlt (by decide), P.readBlock_blockPtr 11 0 hwhole hlt hpart⟩,
    parse_objsetBlock ((h.array P).stored P) rfl _⟩

/-! ## Object ids -/

/-- An empty slot holds no dnode. -/
theorem slotObject_zeros : slotObject (zeros dnodeSize) .little = none := by decide +kernel

/-- The slot of an object holds its dnode; the first slot holds none, and what is filled up neither. -/
theorem Packer.ObjsetAt.resolve_slot (h : P.ObjsetAt image sector os) (i : Nat) :
    slotObject ((P.slotsAt sector os)[i]?.getD (zeros dnodeSize)) .little =
      if i = 0 then none else (P.dnodesAt sector os.objects)[i - 1]? := by
  cases i with
  | zero =>
    rw [if_pos rfl]
    exact slotObject_zeros
  | succ i =>
    rw [slotsAt, List.getElem?_cons_succ, List.getElem?_map, if_neg (Nat.succ_ne_zero i), Nat.add_sub_cancel]
    cases hd : (P.dnodesAt sector os.objects)[i]? with
    | none => exact slotObject_zeros
    | some d =>
      have hi := (List.getElem?_eq_some_iff.1 hd).1
      rw [length_dnodesAt] at hi
      obtain ⟨s, hs, hwritten⟩ := h.object P (List.getElem?_eq_getElem hi)
      rw [hd, Option.some.injEq] at hs
      have hstored : d.Stored := by
        rw [hs]
        exact hwritten.stored P
      have horder : d.endian = .little := by rw [hs]; rfl
      have htype : d.dnType ≠ 0 := by rw [hs]; exact DmuObject.type_ne _
      have hself : ({ d with endian := .little } : Dnode) = d := by rw [← horder]
      rw [Option.map_some, Option.getD_some, slotObject, Dnode.parse_encode .little hstored, hself]
      exact if_neg htype

/-- A slot of a block, by its number: past the slots of the set it is an empty one. -/
theorem Packer.slice?_slotBlock {i : Nat} (hi : i / os.perBlock.toNat < (P.slotBlocksAt sector os).length) :
    ∃ block, (P.slotBlocksAt sector os)[i / os.perBlock.toNat]? = some block ∧
      slice? block (i % os.perBlock.toNat * dnodeSize) (i % os.perBlock.toNat * dnodeSize + dnodeSize) =
        some ((P.slotsAt sector os)[i]?.getD (zeros dnodeSize)) := by
  have hpos := os.perBlock_pos
  have hn : os.perBlock.toNat * (i / os.perBlock.toNat) + i % os.perBlock.toNat = i := Nat.div_add_mod i _
  have hmod := Nat.mod_lt i hpos
  rw [slotBlocksAt, List.length_map] at hi
  obtain ⟨g, hg⟩ : ∃ g, (Radix.groups os.perBlock.toNat (P.slotsAt sector os))[i / os.perBlock.toNat]? = some g :=
    ⟨_, List.getElem?_eq_getElem hi⟩
  have hmem := List.mem_of_getElem? hg
  have hslots : ∀ s ∈ g, s.length = dnodeSize := fun s hs => P.length_of_mem_slotsAt (Radix.mem_of_mem_groups hmem hs)
  have hle := Radix.length_le_of_mem_groups hmem
  have hslot : (g ++ List.replicate (os.perBlock.toNat - g.length) (zeros dnodeSize))[i % os.perBlock.toNat]? =
      some ((P.slotsAt sector os)[i]?.getD (zeros dnodeSize)) := by
    cases hs : (P.slotsAt sector os)[i]? with
    | some s =>
      obtain ⟨g', hg', hs'⟩ := Radix.exists_group hpos hs
      rw [hg, Option.some.injEq] at hg'
      rw [List.getElem?_append_left (by rw [hg']; exact (List.getElem?_eq_some_iff.1 hs').1), hg', hs', Option.getD_some]
    | none =>
      have hlen := List.getElem?_eq_none_iff.1 hs
      have hpast : g.length ≤ i % os.perBlock.toNat := by
        by_cases hin : os.perBlock.toNat * (i / os.perBlock.toNat) < (P.slotsAt sector os).length
        · rw [Radix.getElem?_groups hpos hin, Option.some.injEq] at hg
          rw [← hg, List.length_take, List.length_drop]
          omega
        · obtain ⟨q, hq, hgq⟩ := List.mem_map.1 hmem
          rw [Radix.groups, List.getElem?_map, List.getElem?_range (by rwa [Radix.length_groups] at hi), Option.map_some,
            Option.some.injEq] at hg
          rw [← hg, List.drop_eq_nil_of_le (by omega), List.take_nil]
          exact Nat.zero_le _
      rw [List.getElem?_append_right hpast, List.getElem?_replicate, if_pos (by omega), Option.getD_none]
  refine ⟨slotBlock os.perBlock.toNat g, by rw [slotBlocksAt, List.getElem?_map, hg, Option.map_some], ?_⟩
  have hpart := slice?_flatMap (f := fun s => s) (r := 0) (k := dnodeSize) (length_of_mem_slotBlock hslots) hslot (by omega)
  rw [List.flatMap_id', Nat.add_zero, Nat.zero_add, Nat.mul_comm] at hpart
  rw [slotBlock, hpart]
  exact slice?_self (length_of_mem_slotBlock hslots _ (List.mem_of_getElem? hslot))

/-- An object id resolves to the dnode written under it, and any other to none; no check fails on the way. -/
theorem Packer.ObjsetAt.resolve_id (h : P.ObjsetAt image sector os) (id : UInt64) :
    mosDnode (readBlock Γ image) (P.objsetAt sector os) id =
      pure (if id.toNat = 0 then none else (P.dnodesAt sector os.objects)[id.toNat - 1]?) := by
  have hpos := os.perBlock_pos
  have hper : (P.objsetAt sector os).dnodesPerBlock = os.perBlock.toNat := rfl
  have hblock : ((P.objsetAt sector os).blockOf id).toNat = id.toNat / os.perBlock.toNat := by
    rw [ObjsetPhys.blockOf_toNat, hper]
  have hmeta : (P.objsetAt sector os).metaDnode = P.dnodeAt (P.arraySector sector os) (P.arrayObject sector os) := rfl
  have hrecords : (P.arrayObject sector os).records = P.slotBlocksAt sector os := rfl
  rw [mosDnode_eq _ (by omega)]
  by_cases hid : id.toNat / os.perBlock.toNat < (P.slotBlocksAt sector os).length
  · obtain ⟨block, hget, hslice⟩ := P.slice?_slotBlock hid
    have hof : (P.objsetAt sector os).blockOf id = UInt64.ofNat (id.toNat / os.perBlock.toNat) := by
      rw [← hblock, UInt64.ofNat_toNat]
    rw [hof, hmeta, (h.array P).read_record P (by rw [hrecords]; exact hget), pure_bind, slotOfRead, hper, slotDnode, hslice,
      ← h.resolve_slot P]
    rfl
  · have hpast : (P.objsetAt sector os).metaDnode.dnMaxblkid < (P.objsetAt sector os).blockOf id := by
      have hne := List.length_pos_iff.2 (P.arrayObject sector os).records_ne
      rw [hmeta]
      change UInt64.ofNat ((P.arrayObject sector os).records.length - 1) < _
      rw [UInt64.lt_iff_toNat_lt, DmuObject.toNat_maxBlkid, hblock, hrecords]
      rw [hrecords] at hne
      omega
    have hnone : (P.dnodesAt sector os.objects)[id.toNat - 1]? = none := by
      refine List.getElem?_eq_none ?_
      rw [slotBlocksAt, List.length_map, Radix.length_groups, length_slotsAt, Nat.lt_div_iff_mul_lt hpos] at hid
      have hdiv := Nat.div_add_mod id.toNat os.perBlock.toNat
      have hmod := Nat.mod_lt id.toNat hpos
      rw [Nat.mul_comm] at hid
      rw [length_dnodesAt]
      omega
    have hlevels : (P.objsetAt sector os).metaDnode.dnNlevels ≠ 0 := by
      have hheight := os.height_le
      intro hzero
      have hnat : (UInt8.ofNat (os.height + 1)).toNat = 0 := congrArg UInt8.toNat hzero
      rw [UInt8.toNat_ofNat'] at hnat
      omega
    rw [readDnodeData, if_neg hlevels, if_pos hpast, pure_bind, hnone, ite_self]
    rfl

end Objsets

end ZfsForensic
