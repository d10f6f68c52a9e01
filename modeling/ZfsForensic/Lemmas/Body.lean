import ZfsForensic.Lemmas.Image
import ZfsForensic.Lemmas.ObjectRead
import ZfsForensic.Lib.Radix

/-!
# Bodies read part by part

A body is a concatenation of parts. A pointer that names one part reads as it, and an object set whose meta-dnode names one block of
slots has the objects of those slots. So what a body holds is evaluated slot by slot, and never over the whole body.
-/

namespace ZfsForensic

open Octets Checked Checked.Run

/-! ## Blocks -/

/-- Whether a pointer names so many bytes at an offset of a body, stored as they are and without a checksum. -/
def Blkptr.names (off len : Nat) (bp : Blkptr) : Bool :=
  !bp.embedded && bp.lsizeBytes == len && bp.psizeBytes == len && bp.compression == 2 && bp.checksum == 2 &&
    bp.dvas.toList.head?.any (fun dva => !dva.isEmpty && dva.physicalByteOffset.toNat == 0x400000 + off)

/-- A stored block reads as the bytes at its first copy. -/
theorem readBlockWith_of_names (Γ : Ctx) {get : Nat → Nat → Option Bytes} (len : Nat) {bp : Blkptr} {part : Bytes} {off : Nat}
    (h : bp.names off part.length = true) (hoff : off < 2 ^ 62) (hle : part.length ≤ maxBlockSize)
    (hget : get (0x400000 + off) (0x400000 + off + part.length) = some part) :
    readBlockWith Γ get len bp = .ok ⟨part, none, 0⟩ := by
  simp only [Blkptr.names, Bool.and_eq_true, Bool.not_eq_true', beq_iff_eq, Option.any_eq_true] at h
  obtain ⟨⟨⟨⟨⟨hembedded, hlsize⟩, hpsize⟩, hcompression⟩, hchecksum⟩, dva, hhead, hempty, hphys⟩ := h
  obtain ⟨rest, hdvas⟩ : ∃ rest, bp.dvas.toList = dva :: rest := ⟨_, List.eq_cons_of_mem_head? hhead⟩
  have hmax : maxBlockSize = 33554432 := rfl
  have hpos : 0 < part.length := by
    rw [← hlsize]
    exact Blkptr.lsizeBytes_pos hembedded
  have hhole : bp.isHole = false := by
    rw [Blkptr.isHole, hdvas, List.all_cons, hempty, Bool.false_and, Bool.and_false]
  have hstop : satAdd dva.physicalByteOffset.toNat bp.psizeBytes = 0x400000 + off + part.length := by
    rw [hphys, hpsize, satAdd_eq (by omega)]
  have hoffKind : CompressType.fromRaw 2 = .off := rfl
  have hturn : ∀ err, readDvas Γ get len bp 0 (dva :: rest) err = .ok ⟨part, none, 0⟩ := by
    intro err
    rw [readDvas, if_neg (by rw [hempty]; decide)]
    dsimp only
    rw [hstop, hphys, hget]
    dsimp only
    rw [hcompression, hchecksum, hoffKind, decompress, hlsize, decompressOff_eq_self rfl]
    rfl
  rw [readBlockWith, hlsize, if_neg (by omega), if_neg (by rw [hembedded]; decide), if_neg (by rw [hhole]; decide), hdvas, hturn]

/-- A part of a body is the range at the length of the parts before it. -/
theorem bodyGet_part {parts : List Bytes} {i : Nat} {part : Bytes} (hpart : parts[i]? = some part) {off len : Nat}
    (hoff : (parts.take i).flatten.length = off) (hlen : part.length = len) :
    bodyGet parts.flatten (0x400000 + off) (0x400000 + off + len) = some part := by
  subst hoff hlen
  have hsplit : parts.flatten = (parts.take i).flatten ++ part ++ (parts.drop (i + 1)).flatten := by
    obtain ⟨hi, rfl⟩ := List.getElem?_eq_some_iff.1 hpart
    conv_lhs => rw [← List.take_append_drop i parts, List.flatten_append, List.drop_eq_getElem_cons hi, List.flatten_cons,
      ← List.append_assoc]
  rw [bodyGet, if_pos (by omega), hsplit]
  exact slice?_middle (by omega) (by omega)

/-- A pointer that names one part of a body reads as that part. -/
theorem bodyDisk_of_names (Γ : Ctx) {parts : List Bytes} {i : Nat} {part : Bytes} (hpart : parts[i]? = some part)
    {off len : Nat} (hoff : (parts.take i).flatten.length = off) (hlen : part.length = len) {bp : Blkptr}
    (h : bp.names off len = true) (hsmall : off < 2 ^ 62 ∧ len ≤ maxBlockSize) :
    bodyDisk Γ parts.flatten bp = .ok ⟨part, none, 0⟩ := by
  have hget := bodyGet_part hpart hoff hlen
  subst hlen
  exact readBlockWith_of_names Γ _ h hsmall.1 hsmall.2 hget

/-! ## Objects -/

/-- An object set whose meta-dnode is one block of these slots. -/
structure ObjsetPhys.Holds (disk : Disk) (os : ObjsetPhys) (slots : List Bytes) : Prop where
  nlevels : os.metaDnode.dnNlevels = 1
  count : os.metaDnode.dnDatablkszsec.toNat = slots.length
  slot_length : ∀ s ∈ slots, s.length = dnodeSize
  read : ∃ bp, os.metaDnode.blkptr 0 = some bp ∧ disk bp = .ok ⟨slots.flatten, none, 0⟩

/-- The object of a slot: none for an empty one. -/
def slotObject (raw : Bytes) (endian : Endian) : Option Dnode :=
  match Dnode.parse raw endian with
  | none => none
  | some dnode => if dnode.dnType = 0 then none else some dnode

/-- An object whose data is one block, behind this pointer. -/
structure Dnode.OneBlock (d : Dnode) (bp : Blkptr) : Prop where
  nlevels : d.dnNlevels = 1
  maxblkid : d.dnMaxblkid = 0
  sectors : 0 < d.dnDatablkszsec.toNat
  blkptr : d.blkptr 0 = some bp

section Objects

variable {disk : Disk} {os : ObjsetPhys} {d : Dnode} {bp : Blkptr} {block : Block} {id : UInt64}

/-- The first block of an object of one level is read through its first pointer. -/
theorem value_readDnodeData_zero (hn : d.dnNlevels = 1) (hbp : d.blkptr 0 = some bp) : (readDnodeData disk d 0).value = disk bp := by
  have htop : (subU8 (min d.dnNlevels maxIndirectLevels) 1).value = 0 := by
    rw [hn]
    decide
  have hindex : (levelIndex d 0 0).value.toNat = 0 := by
    rw [levelIndex_value d 0 (by omega) (by omega)]
    simp
  rw [readDnodeData, if_neg (by rw [hn]; decide), if_neg (by simp), value_bind, htop, value_bind]
  have hzero : (0 : UInt8).toNat = 0 := rfl
  rw [hzero, hindex, hbp]
  rfl

/-- An object of such a set is the one of its slot. -/
theorem value_mosDnode_of_holds {slots : List Bytes} {raw : Bytes} (h : os.Holds disk slots) (hraw : slots[id.toNat]? = some raw) :
    (mosDnode disk os id).value = slotObject raw os.endian := by
  obtain ⟨hid, -⟩ := List.getElem?_eq_some_iff.1 hraw
  obtain ⟨bp, hbp, hread⟩ := h.read
  have hcount : os.dnodesPerBlock = slots.length := h.count
  have hblock : os.blockOf id = 0 := by
    rw [← UInt64.toNat_inj, ObjsetPhys.blockOf_toNat, hcount, Nat.div_eq_of_lt hid]
    rfl
  have hflat : slots.flatMap (fun s => s) = slots.flatten := List.flatMap_id'
  have hslice : slice? slots.flatten (id.toNat * dnodeSize) (id.toNat * dnodeSize + dnodeSize) = some raw := by
    have hlen : slots.flatten.length = dnodeSize * slots.length := by
      rw [← hflat]
      exact Radix.length_flatMap h.slot_length
    have hpart := Radix.take_drop_flatMap (r := 0) (k := dnodeSize) h.slot_length hraw (by omega)
    rw [hflat, Nat.add_zero, List.drop_zero, List.take_of_length_le (h.slot_length raw (List.mem_of_getElem? hraw)).le,
      Nat.mul_comm] at hpart
    have hend : id.toNat * dnodeSize + dnodeSize ≤ slots.flatten.length := by
      rw [hlen, ← Nat.succ_mul, Nat.mul_comm]
      exact Nat.mul_le_mul_left _ hid
    rw [slice?_of_le (by omega) hend, Nat.add_sub_cancel_left, hpart]
  rw [mosDnode_eq disk (by omega), hblock, value_bind, value_readDnodeData_zero h.nlevels hbp, hread, value_pure, slotOfRead, hcount,
    Nat.mod_eq_of_lt hid, slotDnode, hslice]
  rfl

/-- The blocks such an object is read as. -/
theorem objectBytes_of_oneBlock (h : d.OneBlock bp) (hread : disk bp = .ok block) :
    (∀ i < 1, Reads disk d i) ∧ objectBytes disk d 1 = block.data := by
  have hblock : (readDnodeData disk d (UInt64.ofNat 0)).value = .ok block := by
    rw [← hread]
    exact value_readDnodeData_zero h.nlevels h.blkptr
  refine ⟨fun i hi => ?_, ?_⟩
  · obtain rfl : i = 0 := by omega
    exact ⟨block, hblock⟩
  · rw [objectBytes, List.range_one, List.flatMap_singleton, blockData_of_read hblock]

/-- The data of a ZAP of one block is that block. -/
theorem value_zapObjectData_of_oneBlock (hd : (mosDnode disk os id).value = some d) (h : d.OneBlock bp) (hread : disk bp = .ok block) :
    (zapObjectData disk os id).value = some block.data := by
  have hsectors := h.sectors
  have hlt := d.dnDatablkszsec.toNat_lt
  have hsize := d.dataBlockSize_eq
  have hcap : maxZapBytes = 67108864 := rfl
  have hcount : zapBlockCount d = 1 := by
    have hfit : 1 ≤ maxZapBytes / d.dataBlockSize := (Nat.le_div_iff_mul_le (by omega)).2 (by omega)
    have hone : satAdd (0 : UInt64).toNat 1 = 1 := rfl
    rw [zapBlockCount, h.maxblkid, hone]
    omega
  obtain ⟨hreads, hbytes⟩ := objectBytes_of_oneBlock h hread
  have hdata : (readZapObject disk d).value = .ok block.data :=
    (readZapObject_eq_ok_iff disk d _).2 ⟨by omega, by rwa [hcount], by rw [hcount, hbytes]⟩
  rw [zapObjectData, value_bind, hd]
  dsimp only
  rw [value_bind, hdata]
  rfl

/-- The content of a file of one block is that block, cut at the size. -/
theorem value_zplReadFileWith_of_oneBlock (hd : (mosDnode disk os id).value = some d) (h : d.OneBlock bp)
    (hread : disk bp = .ok block) (size : Option UInt64) :
    (zplReadFileWith disk os id size).value = .ok (cutAt size block.data) := by
  have hsectors := h.sectors
  have hlt := d.dnDatablkszsec.toNat_lt
  have hsize := d.dataBlockSize_eq
  have hcap : maxFileBytes = 536870912 := rfl
  have hcount : fileBlockCount d = 1 := by
    have hone : satAdd (0 : UInt64).toNat 1 = 1 := rfl
    rw [fileBlockCount, h.maxblkid, hone]
    omega
  obtain ⟨hreads, hbytes⟩ := objectBytes_of_oneBlock h hread
  rw [zplReadFileWith_eq_ok_iff hd, hcount, hbytes]
  exact ⟨by omega, hreads, rfl⟩

end Objects

/-- A slot whose type is not zero holds an object. -/
theorem slotObject_of_type {raw : Bytes} (hlen : raw.length = dnodeSize) (htype : u8At raw 0 ≠ 0) (e : Endian) :
    slotObject raw e = some ((Dnode.parse raw e).getD default) := by
  have hcore : ¬ raw.length < dnodeCoreSize := by
    rw [hlen]
    decide
  rw [slotObject, Dnode.parse, if_neg hcore]
  exact if_neg htype

/-- A string long enough for an object set parses as one. -/
theorem parse_objsetOf {data : Bytes} (hlen : objsetMinSize ≤ data.length) :
    ObjsetPhys.parse data .little = .ok (objsetOf data) := by
  have hcore : ¬ data.length < dnodeCoreSize := by
    unfold objsetMinSize at hlen
    unfold dnodeCoreSize
    omega
  rw [objsetOf, ObjsetPhys.parse, if_neg (by omega), Dnode.parse, if_neg hcore]
  rfl

/-- A body opens where its root pointer reads as an object set. -/
theorem openBody_of_read {Γ : Ctx} {rootbp : Vector UInt8 128} {body : Bytes} {block : Block}
    (hread : bodyDisk Γ body (Blkptr.parse rootbp.toList .little) = .ok block) (hlen : objsetMinSize ≤ block.data.length) :
    openBody Γ rootbp body = some (objsetOf block.data, .little) := by
  rw [openBody, hread]
  dsimp only
  rw [parse_objsetOf hlen]

/-- An inline pointer and a hole read alike over every body. -/
theorem bodyDisk_of_inline (Γ : Ctx) (body : Bytes) {bp : Blkptr} (h : (bp.embedded || bp.isHole) = true) :
    bodyDisk Γ body bp = bodyDisk Γ [] bp := by
  rw [bodyDisk, bodyDisk, readBlockWith, readBlockWith]
  rcases Bool.or_eq_true _ _ ▸ h with hembedded | hhole
  · rw [if_pos hembedded, if_pos hembedded]
  · rw [if_pos hhole, if_pos hhole]

/-- The pointer of a slot's object, when its data is one block. -/
def soleBlkptr (raw : Bytes) (endian : Endian) : Option Blkptr :=
  match slotObject raw endian with
  | none => none
  | some d => if d.dnNlevels = 1 ∧ d.dnMaxblkid = 0 ∧ 0 < d.dnDatablkszsec.toNat then d.blkptr 0 else none

/-- What a pointer reads as that names nothing of the body. -/
def inlineBlock (Γ : Ctx) (bp : Blkptr) : Option Bytes :=
  if bp.embedded || bp.isHole then (bodyDisk Γ [] bp).toOption.map Block.data else none

theorem oneBlock_of_soleBlkptr {raw : Bytes} {e : Endian} {bp : Blkptr} (h : soleBlkptr raw e = some bp) :
    ∃ d, slotObject raw e = some d ∧ d.OneBlock bp := by
  unfold soleBlkptr at h
  split at h
  · exact absurd h (by simp)
  · rename_i d hd
    split at h
    · rename_i hshape
      exact ⟨d, hd, hshape.1, hshape.2.1, hshape.2.2, h⟩
    · exact absurd h (by simp)

section Slots

variable {Γ : Ctx} {body : Bytes} {disk : Disk} {os : ObjsetPhys} {slots : List Bytes} {id : UInt64} {raw : Bytes} {bp : Blkptr}

/-- The object of a slot whose type is not zero. -/
theorem value_mosDnode_of_type {e : Endian} (h : os.Holds disk slots) (he : os.endian = e) (hraw : slots[id.toNat]? = some raw)
    (hlen : raw.length = dnodeSize) (htype : u8At raw 0 ≠ 0) :
    (mosDnode disk os id).value = some ((Dnode.parse raw e).getD default) := by
  rw [value_mosDnode_of_holds h hraw, he]
  exact slotObject_of_type hlen htype e

/-- A ZAP of one block, by its slot. -/
theorem value_zapObjectData_of_slot {block : Block} (h : os.Holds disk slots) (hraw : slots[id.toNat]? = some raw)
    (hbp : soleBlkptr raw os.endian = some bp) (hread : disk bp = .ok block) : (zapObjectData disk os id).value = some block.data := by
  obtain ⟨d, hd, hblock⟩ := oneBlock_of_soleBlkptr hbp
  exact value_zapObjectData_of_oneBlock (by rw [value_mosDnode_of_holds h hraw, hd]) hblock hread

/-- A file of one block, by its slot. -/
theorem value_zplReadFileWith_of_slot {block : Block} (h : os.Holds disk slots) (hraw : slots[id.toNat]? = some raw)
    (hbp : soleBlkptr raw os.endian = some bp) (hread : disk bp = .ok block) (size : Option UInt64) :
    (zplReadFileWith disk os id size).value = .ok (cutAt size block.data) := by
  obtain ⟨d, hd, hblock⟩ := oneBlock_of_soleBlkptr hbp
  exact value_zplReadFileWith_of_oneBlock (by rw [value_mosDnode_of_holds h hraw, hd]) hblock hread size

/-- What an object's one inline block holds. -/
theorem exists_block_of_inline {data : Bytes} (h : (soleBlkptr raw os.endian).bind (inlineBlock Γ) = some data) :
    ∃ bp block, soleBlkptr raw os.endian = some bp ∧ bodyDisk Γ body bp = .ok block ∧ block.data = data := by
  obtain ⟨bp, hbp, hinline⟩ := Option.bind_eq_some_iff.1 h
  unfold inlineBlock at hinline
  split at hinline
  · rename_i hkind
    obtain ⟨block, hblock, hdata⟩ := Option.map_eq_some_iff.1 hinline
    exact ⟨bp, block, hbp, by rw [bodyDisk_of_inline Γ body hkind, toOption_eq_some_iff.1 hblock], hdata⟩
  · exact absurd hinline (by simp)

/-- A ZAP of one inline block, by its slot. -/
theorem value_zapObjectData_of_inline {data : Bytes} (h : os.Holds (bodyDisk Γ body) slots) (hraw : slots[id.toNat]? = some raw)
    (hdata : (soleBlkptr raw os.endian).bind (inlineBlock Γ) = some data) :
    (zapObjectData (bodyDisk Γ body) os id).value = some data := by
  obtain ⟨bp, block, hbp, hread, rfl⟩ := exists_block_of_inline hdata
  exact value_zapObjectData_of_slot h hraw hbp hread

/-- A file of one inline block, by its slot. -/
theorem value_zplReadFileWith_of_inline {data : Bytes} (h : os.Holds (bodyDisk Γ body) slots) (hraw : slots[id.toNat]? = some raw)
    (hdata : (soleBlkptr raw os.endian).bind (inlineBlock Γ) = some data) (size : Option UInt64) :
    (zplReadFileWith (bodyDisk Γ body) os id size).value = .ok (cutAt size data) := by
  obtain ⟨bp, block, hbp, hread, rfl⟩ := exists_block_of_inline hdata
  exact value_zplReadFileWith_of_slot h hraw hbp hread size

end Slots

/-! ## Datasets and filesystems -/

section Datasets

variable {disk : Disk} {os : ObjsetPhys}

/-- The head dataset, by the object directory and the DSL directory. -/
theorem value_headDataset {data : Bytes} {id : UInt64} {dslDir : Dnode} (hdata : (zapObjectData disk os 1).value = some data)
    (hid : zapLookup data (ascii "root_dataset") = some id) (hdir : (mosDnode disk os id).value = some dslDir)
    (hhead : dslDirHeadDataset dslDir ≠ 0) : (headDataset disk os).value = (mosDnode disk os (dslDirHeadDataset dslDir)).value := by
  rw [headDataset, value_bind, hdata]
  dsimp only
  rw [hid]
  dsimp only
  rw [value_bind, hdir]
  dsimp only
  rw [if_neg hhead]

/-- The objset of the head dataset. -/
theorem value_zplObjset {ds : Dnode} (hds : (headDataset disk os).value = some ds) :
    (zplObjset disk os).value = datasetZplObjset disk ds os.endian := by
  rw [zplObjset, value_bind, hds]
  rfl

/-- The root directory, by the master node. -/
theorem value_zplMasterRoot {data : Bytes} (hdata : (zapObjectData disk os zplMasterNodeObj).value = some data) :
    (zplMasterRoot disk os).value = zapLookup data (ascii "ROOT") := by
  rw [zplMasterRoot, value_bind, hdata]
  rfl

/-- A directory's listing, by its data. -/
theorem value_zplListDir {data : Bytes} {id : UInt64} (hdata : (zapObjectData disk os id).value = some data) :
    (zplListDir disk os id).value = (zapList data).map (fun e => (e.1, e.2 &&& zplDirentObjMask)) := by
  rw [zplListDir, value_bind, hdata]
  rfl

/-- Without attributes in the master node there is no decoding context. -/
theorem value_zplSaContext_of_none {data : Bytes} (hdata : (zapObjectData disk os zplMasterNodeObj).value = some data)
    (hnone : zapLookup data (ascii "SA_ATTRS") = none) : (zplSaContext disk os).value = none := by
  rw [zplSaContext, value_bind, hdata]
  dsimp only
  rw [hnone]
  rfl

/-- The decoding context, by the master node, the master of the attributes, the registry and the layouts. -/
theorem value_zplSaContext {data master registry layouts : Bytes} {saId registryId layoutsId : UInt64}
    (hdata : (zapObjectData disk os zplMasterNodeObj).value = some data) (hsa : zapLookup data (ascii "SA_ATTRS") = some saId)
    (hmaster : (zapObjectData disk os saId).value = some master)
    (hregistryId : zapLookup master (ascii "REGISTRY") = some registryId)
    (hlayoutsId : zapLookup master (ascii "LAYOUTS") = some layoutsId)
    (hregistry : (zapObjectData disk os registryId).value = some registry)
    (hlayouts : (zapObjectData disk os layoutsId).value = some layouts) :
    (zplSaContext disk os).value = some (parseSaRegistry registry, parseSaLayouts layouts) := by
  rw [zplSaContext, value_bind, hdata]
  dsimp only
  rw [hsa]
  dsimp only
  rw [value_bind, hmaster]
  dsimp only
  rw [hregistryId, hlayoutsId]
  dsimp only
  rw [value_bind, hregistry]
  dsimp only
  rw [value_bind, hlayouts]
  rfl

/-- With a decoding context a file is read at the size of its metadata. -/
theorem value_zplReadFile_of_context {registry : SaRegistry} {layouts : SaLayouts}
    (hcontext : (zplSaContext disk os).value = some (registry, layouts)) (id : UInt64) :
    (zplReadFile disk os id).value =
      (zplReadFileWith disk os id ((zplAttrs disk os registry layouts id).value.map ZplAttrs.size)).value := by
  rw [zplReadFile, value_bind, hcontext]
  rfl

/-- Without one it is read whole. -/
theorem value_zplReadFile_of_none (hcontext : (zplSaContext disk os).value = none) (id : UInt64) :
    (zplReadFile disk os id).value = (zplReadFileWith disk os id none).value := by
  rw [zplReadFile, value_bind, hcontext]

/-- The metadata of an object that resolves, by the type of its bonus. -/
theorem value_zplAttrs {d : Dnode} {id : UInt64} (hd : (mosDnode disk os id).value = some d) (registry : SaRegistry)
    (layouts : SaLayouts) :
    (zplAttrs disk os registry layouts id).value =
      if d.dnBonustype = dmuOtSa then decodeSaBonus d.bonus registry layouts d.endian
      else if d.dnBonustype = dmuOtZnode then decodeZnodePhys d.bonus d.endian
      else none := by
  rw [zplAttrs, value_bind, hd]
  dsimp only
  split_ifs <;> rfl

end Datasets

end ZfsForensic
