import ZfsForensic.Lemmas.Body
import ZfsForensic.Lemmas.Recovery

/-!
# A pool of one snapshot

The head dataset of this pool has a `ds_bp` of zeros, so its live filesystem cannot be read. Its snapshot, object 4 of the MOS, holds
one file, `f`.
-/

namespace ZfsForensic

open Octets Checked Checked.Run

/-- A micro-ZAP of one entry, as the payload of an inline pointer. -/
def mzapPayload (name : String) (value : Nat) : Vector UInt8 112 :=
  padTo 112 (encode .little 8 zbtMicro.toNat ++ zeros 56 ++ encode .little 8 value ++ zeros 6 ++ ascii name)

/-- A dnode whose only block is an inline one of 512 bytes. -/
def inlineSlot (type : UInt8) (payload : Vector UInt8 112) : Bytes :=
  (padTo 64 [type, 17, 1, 1, 0, 0, 0, 0, 1]).toList ++ (inlinePtr payload 512).toList ++ zeros 320

/-- A dnode without blocks, whose bonus of 256 bytes begins as given. -/
def bonusSlot (bonus : Bytes) : Bytes :=
  (padTo 512 ([12, 17, 1, 0, 0, 0, 0, 0, 1, 0, 0, 1] ++ zeros 52 ++ bonus)).toList

/-- A DSL dataset's dnode. -/
def datasetSlot (prevSnap : Nat) (bp : Bytes) : Bytes :=
  bonusSlot (zeros 8 ++ encode .little 8 prevSnap ++ zeros 112 ++ bp)

/-- An objset whose meta-dnode has one block, of so many sectors of the body. -/
def poolObjset (sector : UInt64) (sectors : UInt8) : Bytes :=
  objsetBytes (padTo 64 [10, 17, 1, 1, 0, 0, 0, 0, sectors])
    ((bodyPtr sector sectors.toUInt32 2 10 0).encodeVector .little)

/-- The dnodes of the MOS: object directory, DSL directory, head dataset, snapshot dataset. -/
def poolDnodes : Bytes :=
  zeros 512 ++ inlineSlot 1 (mzapPayload "root_dataset" 2) ++ bonusSlot (zeros 8 ++ encode .little 8 3) ++
    datasetSlot 4 (zeros 128) ++ datasetSlot 0 ((bodyPtr 7 2 2 11 0).encode .little)

/-- The root pointer of the pool. -/
def poolRoot : Vector UInt8 128 := (bodyPtr 0 2 2 11 0).encodeVector .little

/-- The pool's MOS. -/
def poolMos : ObjsetPhys := objsetOf (poolObjset 2 5)

/-- The head dataset. -/
def poolHead : Dnode := (Dnode.parse (datasetSlot 4 (zeros 128)) .little).getD default

/-- The snapshot's dataset, object 4. -/
def poolSnapshot : Dnode := (Dnode.parse (datasetSlot 0 ((bodyPtr 7 2 2 11 0).encode .little)) .little).getD default

/-! ## What the records of the pool decode to -/

/-- The object set of the MOS, and what its object directory and its DSL directory hold. -/
theorem decode_poolMos :
    (Blkptr.parse poolRoot.toList .little).names 0 1024 = true ∧ poolMos.endian = .little ∧
      (poolMos.metaDnode.dnNlevels = 1 ∧ poolMos.metaDnode.dnDatablkszsec.toNat = 5 ∧
        (poolMos.metaDnode.blkptr 0).any (Blkptr.names 1024 2560) = true) ∧
      (soleBlkptr (inlineSlot 1 (mzapPayload "root_dataset" 2)) .little).bind (inlineBlock plainCtx) =
        some ((mzapPayload "root_dataset" 2).toList ++ zeros 400) ∧
      zapLookup ((mzapPayload "root_dataset" 2).toList ++ zeros 400) (ascii "root_dataset") = some 2 ∧
      dslDirHeadDataset ((Dnode.parse (bonusSlot (zeros 8 ++ encode .little 8 3)) .little).getD default) = 3 := by
  decide +kernel

/-- The pointers of the two datasets. That of the head is a hole of one sector, which is no object set. -/
theorem decode_poolDatasets :
    ((dslDatasetBp poolHead).isHole = true ∧
        (bodyDisk plainCtx [] (dslDatasetBp poolHead)).toOption.map Block.data = some (zeros 512) ∧
        (ObjsetPhys.parse (zeros 512) .little).toOption = none) ∧
      (dslDatasetBp poolSnapshot).names 3584 1024 = true ∧ dslDatasetPrevSnap poolHead = 4 ∧ dslDatasetPrevSnap poolSnapshot = 0 := by
  decide +kernel

/-- The directories of the snapshot and its file. -/
theorem decode_snapshotDnodes :
    ((objsetOf (poolObjset 9 4)).metaDnode.dnNlevels = 1 ∧ (objsetOf (poolObjset 9 4)).metaDnode.dnDatablkszsec.toNat = 4 ∧
        ((objsetOf (poolObjset 9 4)).metaDnode.blkptr 0).any (Blkptr.names 4608 2048) = true) ∧
      ((soleBlkptr (inlineSlot 21 (mzapPayload "ROOT" 2)) .little).bind (inlineBlock plainCtx) =
          some ((mzapPayload "ROOT" 2).toList ++ zeros 400) ∧
        zapLookup ((mzapPayload "ROOT" 2).toList ++ zeros 400) (ascii "ROOT") = some 2 ∧
        zapLookup ((mzapPayload "ROOT" 2).toList ++ zeros 400) (ascii "SA_ATTRS") = none) ∧
      ((soleBlkptr (inlineSlot 20 (mzapPayload "f" 3)) .little).bind (inlineBlock plainCtx) =
          some ((mzapPayload "f" 3).toList ++ zeros 400) ∧
        ([0x66], 3) ∈ (zapList ((mzapPayload "f" 3).toList ++ zeros 400)).map (fun e => (e.1, e.2 &&& zplDirentObjMask))) ∧
      (soleBlkptr (inlineSlot 19 (padTo 112 [1, 2, 3])) .little).bind (inlineBlock plainCtx) = some ([1, 2, 3] ++ zeros 509) := by
  decide +kernel

/-! ## The pool, with any snapshot -/

@[simp] theorem length_inlineSlot (type : UInt8) (payload : Vector UInt8 112) : (inlineSlot type payload).length = dnodeSize := by
  simp [inlineSlot, dnodeSize]

@[simp] theorem length_bonusSlot (bonus : Bytes) : (bonusSlot bonus).length = dnodeSize := by
  simp [bonusSlot, dnodeSize]

@[simp] theorem length_datasetSlot (prevSnap : Nat) (bp : Bytes) : (datasetSlot prevSnap bp).length = dnodeSize :=
  length_bonusSlot _

@[simp] theorem length_poolObjset (sector : UInt64) (sectors : UInt8) : (poolObjset sector sectors).length = objsetMinSize := by
  simp [poolObjset, objsetBytes, objsetMinSize]

/-- The slots of the MOS. -/
def poolSlots : List Bytes :=
  [zeros 512, inlineSlot 1 (mzapPayload "root_dataset" 2), bonusSlot (zeros 8 ++ encode .little 8 3), datasetSlot 4 (zeros 128),
    datasetSlot 0 ((bodyPtr 7 2 2 11 0).encode .little)]

theorem flatten_poolSlots : poolSlots.flatten = poolDnodes := by
  simp only [poolSlots, poolDnodes, List.flatten_cons, List.flatten_nil, List.append_nil, List.append_assoc]

theorem length_of_mem_poolSlots : ∀ s ∈ poolSlots, s.length = dnodeSize := by
  intro s hs
  simp only [poolSlots, List.mem_cons, List.not_mem_nil, or_false] at hs
  rcases hs with rfl | rfl | rfl | rfl | rfl <;> simp [dnodeSize]

theorem length_flatten_poolSlots : poolSlots.flatten.length = 2560 := by
  rw [← List.flatMap_id', Radix.length_flatMap length_of_mem_poolSlots]
  rfl

/-- The parts of the body: the MOS and its slots, the object set of the snapshot and its slots. -/
def poolParts (sectors : UInt8) (slots : List Bytes) : List Bytes :=
  [poolObjset 2 5, poolSlots.flatten, poolObjset 9 sectors, slots.flatten]

section Pool

variable (sectors : UInt8) (slots : List Bytes)

/-- The disk of such a pool. -/
def poolDisk : Disk := bodyDisk plainCtx (poolParts sectors slots).flatten

theorem openBody_poolParts : openBody plainCtx poolRoot (poolParts sectors slots).flatten = some (poolMos, .little) := by
  have hroot := decode_poolMos.1
  have hfront : ((poolParts sectors slots).take 0).flatten.length = 0 := rfl
  have hread : bodyDisk plainCtx (poolParts sectors slots).flatten (Blkptr.parse poolRoot.toList .little) =
      .ok ⟨poolObjset 2 5, none, 0⟩ :=
    bodyDisk_of_names plainCtx (i := 0) rfl hfront (length_poolObjset _ _) hroot (by decide)
  rw [openBody_of_read hread (length_poolObjset _ _).ge, poolMos]

/-- The MOS holds its slots. -/
theorem holds_poolMos : poolMos.Holds (poolDisk sectors slots) poolSlots := by
  obtain ⟨-, -, hmeta, -⟩ := decode_poolMos
  obtain ⟨bp, hbp, hnames⟩ := (Option.any_eq_true _ _).1 hmeta.2.2
  have hfront : ((poolParts sectors slots).take 1).flatten.length = 1024 := by simp [poolParts, objsetMinSize]
  exact ⟨hmeta.1, hmeta.2.1, length_of_mem_poolSlots, bp, hbp,
    bodyDisk_of_names plainCtx (i := 1) rfl hfront length_flatten_poolSlots hnames (by decide)⟩

/-- The head dataset, and the snapshot's dataset. -/
theorem datasets_poolMos :
    (headDataset (poolDisk sectors slots) poolMos).value = some poolHead ∧
      resolveDataset (poolDisk sectors slots) poolMos 4 = some poolSnapshot := by
  have hmos := holds_poolMos sectors slots
  obtain ⟨-, hendian, -, hobjdir, hid, hhead⟩ := decode_poolMos
  have hdata : (zapObjectData (poolDisk sectors slots) poolMos 1).value =
      some ((mzapPayload "root_dataset" 2).toList ++ zeros 400) :=
    value_zapObjectData_of_inline hmos rfl (by rw [hendian]; exact hobjdir)
  have hdir : (mosDnode (poolDisk sectors slots) poolMos 2).value =
      some ((Dnode.parse (bonusSlot (zeros 8 ++ encode .little 8 3)) .little).getD default) :=
    value_mosDnode_of_type hmos hendian rfl (length_bonusSlot _) (by decide)
  have hlive : poolSlots[(3 : UInt64).toNat]? = some (datasetSlot 4 (zeros 128)) := rfl
  have hsnapshot : poolSlots[(4 : UInt64).toNat]? = some (datasetSlot 0 ((bodyPtr 7 2 2 11 0).encode .little)) := rfl
  rw [value_headDataset hdata hid hdir (by rw [hhead]; decide), hhead, resolveDataset,
    value_mosDnode_of_type hmos hendian hlive (length_datasetSlot _ _) (by decide),
    value_mosDnode_of_type hmos hendian hsnapshot (length_datasetSlot _ _) (by decide)]
  exact ⟨rfl, rfl⟩

/-- The live objset does not read: its pointer is a hole of one sector. -/
theorem datasetZplObjset_poolHead : datasetZplObjset (poolDisk sectors slots) poolHead .little = none := by
  obtain ⟨⟨hhole, hread, hparse⟩, -⟩ := decode_poolDatasets
  obtain ⟨block, hblock, hdata⟩ := Option.map_eq_some_iff.1 hread
  rw [datasetZplObjset, poolDisk, bodyDisk_of_inline _ _ (by rw [hhole, Bool.or_true]), toOption_eq_some_iff.1 hblock]
  dsimp only
  rw [hdata, hparse]

/-- The objset of the snapshot. -/
theorem datasetZplObjset_poolSnapshot :
    datasetZplObjset (poolDisk sectors slots) poolSnapshot .little = some (objsetOf (poolObjset 9 sectors)) := by
  have hnames := decode_poolDatasets.2.1
  have hfront : ((poolParts sectors slots).take 2).flatten.length = 3584 := by
    simp only [poolParts, List.take_succ_cons, List.take_zero, List.flatten_cons, List.flatten_nil, List.append_nil,
      List.length_append, length_poolObjset, length_flatten_poolSlots]
    rfl
  have hread : bodyDisk plainCtx (poolParts sectors slots).flatten (dslDatasetBp poolSnapshot) = .ok ⟨poolObjset 9 sectors, none, 0⟩ :=
    bodyDisk_of_names plainCtx (i := 2) rfl hfront (length_poolObjset _ _) hnames (by decide)
  rw [datasetZplObjset, poolDisk, hread]
  dsimp only
  rw [parse_objsetOf (length_poolObjset _ _).ge]
  rfl

variable {sectors slots}

/-- The snapshot holds its slots. -/
theorem holds_poolSnapshot (hslots : ∀ s ∈ slots, s.length = dnodeSize) (hcount : slots.length ≤ 65536)
    (hmeta : (objsetOf (poolObjset 9 sectors)).metaDnode.dnNlevels = 1 ∧
      (objsetOf (poolObjset 9 sectors)).metaDnode.dnDatablkszsec.toNat = slots.length ∧
      ((objsetOf (poolObjset 9 sectors)).metaDnode.blkptr 0).any (Blkptr.names 4608 (512 * slots.length)) = true) :
    (objsetOf (poolObjset 9 sectors)).Holds (poolDisk sectors slots) slots := by
  obtain ⟨bp, hbp, hnames⟩ := (Option.any_eq_true _ _).1 hmeta.2.2
  have hfront : ((poolParts sectors slots).take 3).flatten.length = 4608 := by
    simp only [poolParts, List.take_succ_cons, List.take_zero, List.flatten_cons, List.flatten_nil, List.append_nil,
      List.length_append, length_poolObjset, length_flatten_poolSlots]
    rfl
  have hlen : slots.flatten.length = 512 * slots.length := by
    rw [← List.flatMap_id', Radix.length_flatMap hslots]
    rfl
  have hsmall : 4608 < 2 ^ 62 ∧ 512 * slots.length ≤ maxBlockSize := by
    unfold maxBlockSize
    omega
  exact ⟨hmeta.1, hmeta.2.1, hslots, bp, hbp, bodyDisk_of_names plainCtx (i := 3) rfl hfront hlen hnames hsmall⟩

/-- The objset of the snapshot is little-endian. -/
theorem endian_objsetOf_poolObjset (sectors : UInt8) : (objsetOf (poolObjset 9 sectors)).endian = .little :=
  (ObjsetPhys.endian_of_parse (parse_objsetOf (length_poolObjset _ _).ge)).1

section Slots

variable (h : (objsetOf (poolObjset 9 sectors)).Holds (poolDisk sectors slots) slots)
  (hmaster : slots[1]? = some (inlineSlot 21 (mzapPayload "ROOT" 2)))
include h

/-- The data of a directory in one inline block. -/
theorem data_poolSnapshot {n : UInt64} {raw data : Bytes} (hraw : slots[n.toNat]? = some raw)
    (hdata : (soleBlkptr raw .little).bind (inlineBlock plainCtx) = some data) :
    (zapObjectData (poolDisk sectors slots) (objsetOf (poolObjset 9 sectors)) n).value = some data :=
  value_zapObjectData_of_inline h hraw (by rwa [endian_objsetOf_poolObjset])

include hmaster

/-- A master node that names the root, object 2, and nothing else. -/
theorem masterNode_poolSnapshot :
    (zplMasterRoot (poolDisk sectors slots) (objsetOf (poolObjset 9 sectors))).value = some 2 ∧
      (zplSaContext (poolDisk sectors slots) (objsetOf (poolObjset 9 sectors))).value = none := by
  obtain ⟨-, ⟨hinline, hlookup⟩, -⟩ := decode_snapshotDnodes
  have hdata := data_poolSnapshot h (n := zplMasterNodeObj) hmaster hinline
  exact ⟨(value_zplMasterRoot hdata).trans hlookup.1, value_zplSaContext_of_none hdata hlookup.2⟩

/-- A file of one inline block reads whole. -/
theorem snapshotContent_poolSnapshot {n : UInt64} {raw data : Bytes} (hraw : slots[n.toNat]? = some raw)
    (hdata : (soleBlkptr raw .little).bind (inlineBlock plainCtx) = some data) :
    snapshotContent (poolDisk sectors slots) .little (4, poolSnapshot) n = some data := by
  rw [snapshotContent, datasetZplObjset_poolSnapshot, Option.bind_some, value_zplReadFile_of_none (masterNode_poolSnapshot h hmaster).2,
    poolDisk, value_zplReadFileWith_of_inline h hraw (by rwa [endian_objsetOf_poolObjset])]
  rfl

end Slots

end Pool

/-! ## The pool with the file `f` -/

/-- A pool of this kind has one snapshot. -/
theorem isSnapshotChain_poolDisk (sectors : UInt8) (slots : List Bytes) :
    IsSnapshotChain (poolDisk sectors slots) poolMos poolHead [(4, poolSnapshot)] := by
  have hresolve := (datasets_poolMos sectors slots).2
  obtain ⟨-, -, hhead, hlast⟩ := decode_poolDatasets
  refine ⟨fun p hp => ?_, List.nodup_singleton _, 0, ?_, Or.inl rfl⟩
  · rw [List.mem_singleton.1 hp]
    decide
  · rw [hhead]
    refine .cons hresolve ?_
    rw [hlast]
    exact .nil 0

theorem visitedSnapshots_poolDisk (sectors : UInt8) (slots : List Bytes) :
    visitedSnapshots (poolDisk sectors slots) poolMos poolHead = [(4, poolSnapshot)] :=
  visitedSnapshots_eq _ _ _ (isSnapshotChain_poolDisk sectors slots) (by rw [List.length_singleton]; decide)

/-- The live root of such a pool lists no name: it does not read. -/
theorem liveNames_poolDisk (sectors : UInt8) (slots : List Bytes) : liveNames (poolDisk sectors slots) .little poolHead = [] := by
  rw [liveNames, rootListing, datasetRootNames, datasetZplObjset_poolHead]
  rfl

end ZfsForensic
