import ZfsForensic.Lemmas.MountImage

/-!
# A pool with System Attributes

The registry of this filesystem registers the mode of a file and nothing else; the layout of its one file puts a second, unregistered
attribute behind the mode. Its root directory holds that file by one name.
-/

namespace ZfsForensic

open Octets Checked Checked.Run

/-- A micro-ZAP block of seven slots, of entries and then of free ones. -/
def sectorZap (entries : List MzapEnt) : MzapBlock :=
  { endian := .little
    salt := 0
    normflags := 0
    slots := entries.map .entry ++ List.replicate (7 - entries.length) (.free (Vector.replicate 14 0) (Vector.replicate 49 0)) }

/-- The master node: the root directory is object 2, the master of the attributes object 4. -/
def saMasterNode : MzapBlock :=
  sectorZap
    [{ value := 2, cd := 0, name := ascii "ROOT", name_ne := by decide, name_le := by decide, name_nul := by decide +kernel },
      { value := 4, cd := 0, name := ascii "SA_ATTRS", name_ne := by decide, name_le := by decide, name_nul := by decide +kernel }]

/-- The root directory: the file, object 3. -/
def saRoot : MzapBlock :=
  sectorZap [{ value := 0x8000000000000003, cd := 0, name := [0x66], name_ne := f_ne_nil, name_le := length_f_le,
               name_nul := f_ne_zero }]

/-- The master of the attributes: the registry is object 5, the layouts object 6. -/
def saMaster : MzapBlock :=
  sectorZap
    [{ value := 5, cd := 0, name := ascii "REGISTRY", name_ne := by decide, name_le := by decide, name_nul := by decide +kernel },
      { value := 6, cd := 0, name := ascii "LAYOUTS", name_ne := by decide, name_le := by decide, name_nul := by decide +kernel }]

/-- The file's bonus: the magic, a header of eight bytes for layout 2, and the mode. -/
def saBonus : Bytes :=
  [encode .little 4 saMagic.toNat, encode .little 2 0x0402, zeros 2, encode .little 8 0x81a4].flatten

/-- The file's slot: three bytes in a block of 512, and that bonus. -/
def saFileSlot : Bytes := inlineBonusSlot 19 dmuOtSa (padTo 112 [1, 2, 3]) saBonus

/-- The dnodes of the filesystem: master node, root directory, file, master of the attributes, registry, layouts. The value of the
layout holds the ids 5 and 6. -/
def saDnodes : Bytes :=
  [zeros 512, sectorSlot 21 16, sectorSlot 20 17, saFileSlot, sectorSlot 45 18, inlineSlot 46 (mzapPayload "ZPL_MODE" 0x8000005),
    inlineSlot 47 (mzapPayload "2" 0x6000500)].flatten

/-- The body of its pool. -/
def saBody : Bytes := mountBody saDnodes 7 ([saMasterNode.encode, saRoot.encode, saMaster.encode, zeros 512].flatten)

/-- The image of its pool. -/
def saImage : Bytes := imageOf 7 mountRoot saBody

/-- Its objset. -/
def saZpl : ObjsetPhys := objsetOf (zfsObjset 9 7)

/-- Its registry. -/
def saRegistry : SaRegistry := ⟨[(ascii "ZPL_MODE", { id := 5, size := 8, bswap := 0 })]⟩

/-- Its layouts. -/
def saLayouts : SaLayouts := ⟨[(2, [5, 6, 0, 0])]⟩

/-- Its mount. -/
def saFs : ZfsFs :=
  { image := saImage
    zpl := saZpl
    registry := saRegistry
    layouts := saLayouts
    rootId := 2
    recordSize := 512
    poolName := none }

/-- The file's dnode. -/
def saFile : Dnode := (Dnode.parse saFileSlot .little).getD default

/-- The slots of the filesystem. -/
def saSlots : List Bytes :=
  [zeros 512, sectorSlot 21 16, sectorSlot 20 17, saFileSlot, sectorSlot 45 18, inlineSlot 46 (mzapPayload "ZPL_MODE" 0x8000005),
    inlineSlot 47 (mzapPayload "2" 0x6000500)]

/-- The sectors behind them. -/
def saSectors : List Bytes := [saMasterNode.encode, saRoot.encode, saMaster.encode, zeros 512]

theorem saBody_eq : saBody = mountBody saSlots.flatten 7 saSectors.flatten := by
  rw [saBody, saDnodes, saSlots, saSectors]

theorem bodyDisk_saBody : bodyDisk plainCtx saBody = mountDisk saSlots 7 saSectors := by
  rw [saBody_eq, mountDisk]

/-- A block of seven slots has 512 bytes. -/
theorem length_encode_sectorZap {entries : List MzapEnt} (h : entries.length ≤ 7) :
    (sectorZap entries).encode.length = dnodeSize := by
  have hslots : (sectorZap entries).slots.length = 7 := by
    rw [sectorZap, List.length_append, List.length_map, List.length_replicate]
    omega
  rw [MzapBlock.length_encode, hslots]
  rfl

/-- The object set of the filesystem, what its slots name, and its file. No sector of the body has the magic of an uberblock. -/
theorem decode_saDnodes :
    (saZpl.osType = dmuOstZfs ∧ saZpl.metaDnode.dnNlevels = 1 ∧ saZpl.metaDnode.dnDatablkszsec.toNat = saSlots.length ∧
        (saZpl.metaDnode.blkptr 0).any (Blkptr.names 4608 (512 * saSlots.length)) = true) ∧
      ((soleBlkptr (sectorSlot 21 16) .little).any (Blkptr.names 8192 512) = true ∧
        (soleBlkptr (sectorSlot 20 17) .little).any (Blkptr.names 8704 512) = true ∧
        (soleBlkptr (sectorSlot 45 18) .little).any (Blkptr.names 9216 512) = true ∧
        recordSizeOf (some ((Dnode.parse (sectorSlot 20 17) .little).getD default)) = 512) ∧
      (saFile.dnNlevels = 1 ∧ (saFile.blkptr 0).any (fun bp => bp.embedded && bodyDisk plainCtx [] bp ==
        .ok ⟨[1, 2, 3] ++ zeros 509, none, 0⟩) = true) ∧
      (mountSectors saSlots 7 saSectors).all (fun s => (detectEndian (s.take 8)).isNone) = true := by
  decide +kernel

/-- What the ZAPs of its System Attributes hold. -/
theorem decode_saAttrs :
    ((soleBlkptr (inlineSlot 46 (mzapPayload "ZPL_MODE" 0x8000005)) .little).bind (inlineBlock plainCtx) =
          some ((mzapPayload "ZPL_MODE" 0x8000005).toList ++ zeros 400) ∧
        (soleBlkptr (inlineSlot 47 (mzapPayload "2" 0x6000500)) .little).bind (inlineBlock plainCtx) =
          some ((mzapPayload "2" 0x6000500).toList ++ zeros 400)) ∧
      (zapLookup saMasterNode.encode (ascii "ROOT") = some 2 ∧ zapLookup saMasterNode.encode (ascii "SA_ATTRS") = some 4 ∧
        zapLookup saMaster.encode (ascii "REGISTRY") = some 5 ∧ zapLookup saMaster.encode (ascii "LAYOUTS") = some 6) ∧
      parseSaRegistry ((mzapPayload "ZPL_MODE" 0x8000005).toList ++ zeros 400) = saRegistry ∧
      parseSaLayouts ((mzapPayload "2" 0x6000500).toList ++ zeros 400) = saLayouts := by
  decide +kernel

theorem isMount_saSlots : IsMount saSlots 7 saSectors := by
  obtain ⟨⟨-, hobjset⟩, -⟩ := decode_saDnodes
  rw [saZpl] at hobjset
  refine ⟨fun s hs => ?_, fun b hb => ?_, by decide, hobjset⟩
  · simp only [saSlots, List.mem_cons, List.not_mem_nil, or_false] at hs
    rcases hs with hs | hs | hs | hs | hs | hs | hs <;> rw [hs]
    · exact length_zeros 512
    · exact length_sectorSlot _ _
    · exact length_sectorSlot _ _
    · exact length_inlineBonusSlot _ _ _ _
    · exact length_sectorSlot _ _
    · exact length_inlineSlot _ _
    · exact length_inlineSlot _ _
  · simp only [saSectors, List.mem_cons, List.not_mem_nil, or_false] at hb
    rcases hb with hb | hb | hb | hb <;> rw [hb]
    · exact length_encode_sectorZap (by decide)
    · exact length_encode_sectorZap (by decide)
    · exact length_encode_sectorZap (by decide)
    · exact length_zeros 512

/-- What the master node names, and the decoding context it leads to. -/
theorem masterNode_saBody :
    (zplMasterRoot (bodyDisk plainCtx saBody) saZpl).value = some 2 ∧
      (zplSaContext (bodyDisk plainCtx saBody) saZpl).value = some (saRegistry, saLayouts) := by
  have hnode : saSlots[zplMasterNodeObj.toNat]? = some (sectorSlot 21 16) := rfl
  have hmaster : saSlots[(4 : UInt64).toNat]? = some (sectorSlot 45 18) := rfl
  have hregistry : saSlots[(5 : UInt64).toNat]? = some (inlineSlot 46 (mzapPayload "ZPL_MODE" 0x8000005)) := rfl
  have hlayouts : saSlots[(6 : UInt64).toNat]? = some (inlineSlot 47 (mzapPayload "2" 0x6000500)) := rfl
  obtain ⟨-, ⟨hnodeSector, -, hmasterSector, -⟩, -⟩ := decode_saDnodes
  obtain ⟨hinline, ⟨hrootId, hsaId, hregistryId, hlayoutsId⟩, hparse⟩ := decode_saAttrs
  have hdata := isMount_saSlots.zap_of_sector hnode (i := 0) rfl hnodeSector
  rw [bodyDisk_saBody, saZpl]
  refine ⟨(value_zplMasterRoot hdata).trans hrootId, ?_⟩
  rw [value_zplSaContext hdata hsaId (isMount_saSlots.zap_of_sector hmaster (i := 2) rfl hmasterSector) hregistryId hlayoutsId
    (isMount_saSlots.zap_of_inline hregistry hinline.1) (isMount_saSlots.zap_of_inline hlayouts hinline.2), hparse.1, hparse.2]

/-- The root directory: an object of one sector. -/
theorem rootDirectory_saBody :
    recordSizeOf (mosDnode (bodyDisk plainCtx saBody) saZpl 2).value = 512 ∧
      (zapObjectData (bodyDisk plainCtx saBody) saZpl 2).value = some saRoot.encode := by
  have hslot : saSlots[(2 : UInt64).toNat]? = some (sectorSlot 20 17) := rfl
  have hdnode := isMount_saSlots.mosDnode_of_slot hslot (by decide)
  obtain ⟨-, ⟨-, hnames, -, hrecord⟩, -⟩ := decode_saDnodes
  rw [bodyDisk_saBody, saZpl, hdnode]
  exact ⟨hrecord, isMount_saSlots.zap_of_sector hslot (i := 1) rfl hnames⟩

/-- The file, and its one block. -/
theorem file_saBody :
    (mosDnode (bodyDisk plainCtx saBody) saZpl 3).value = some saFile ∧
      (readDnodeData (bodyDisk plainCtx saBody) saFile 0).value = .ok ⟨[1, 2, 3] ++ zeros 509, none, 0⟩ := by
  have hslot : saSlots[(3 : UInt64).toNat]? = some saFileSlot := rfl
  obtain ⟨-, -, ⟨hlevels, hinline⟩, -⟩ := decode_saDnodes
  refine ⟨?_, readDnodeData_of_inline hlevels hinline⟩
  rw [bodyDisk_saBody, saZpl, saFile]
  exact isMount_saSlots.mosDnode_of_slot hslot (by decide)

/-- What the body holds. -/
theorem facts_saBody :
    (saBody.length = 10 * 1024 ∧ ∀ i < 10, (Uberblock.parse ((saBody.drop (i * 1024)).take 1024)).isNone = true) ∧
      openBody plainCtx mountRoot saBody = some (mountMos, .little) ∧
      (headDataset (bodyDisk plainCtx saBody) mountMos).value = some mountHead ∧
      (mosDnode (bodyDisk plainCtx saBody) mountMos 4).value = some mountSnapshot ∧
      datasetZplObjset (bodyDisk plainCtx saBody) mountHead .little = some saZpl ∧
      datasetZplObjset (bodyDisk plainCtx saBody) mountSnapshot .little = some saZpl ∧
      saZpl.osType = dmuOstZfs ∧
      (zplMasterRoot (bodyDisk plainCtx saBody) saZpl).value = some 2 ∧
      (zplSaContext (bodyDisk plainCtx saBody) saZpl).value = some (saRegistry, saLayouts) ∧
      recordSizeOf (mosDnode (bodyDisk plainCtx saBody) saZpl 2).value = 512 ∧
      (mosDnode (bodyDisk plainCtx saBody) saZpl 3).value = some saFile ∧
      (zapObjectData (bodyDisk plainCtx saBody) saZpl 2).value = some saRoot.encode ∧
      (readDnodeData (bodyDisk plainCtx saBody) saFile 0).value = .ok ⟨[1, 2, 3] ++ zeros 509, none, 0⟩ := by
  obtain ⟨⟨htype, -⟩, -, -, hmagic⟩ := decode_saDnodes
  obtain ⟨hlen, hnone⟩ := uberblock_mountBody 7 isMount_saSlots.slots_length isMount_saSlots.blocks_length hmagic
  have hopen := openBody_mountBody saSlots 7 saSectors
  obtain ⟨hhead, hsnapshot⟩ := datasets_mountMos saSlots 7 saSectors
  have hlive := datasetZplObjset_mountDisk saSlots 7 saSectors names_mountDatasets.1
  have hdataset := datasetZplObjset_mountDisk saSlots 7 saSectors names_mountDatasets.2.1
  rw [← saBody_eq] at hlen hnone hopen
  rw [← bodyDisk_saBody] at hhead hsnapshot hlive hdataset
  obtain ⟨hroot, hcontext⟩ := masterNode_saBody
  obtain ⟨hrecord, hdata⟩ := rootDirectory_saBody
  obtain ⟨hfile, hread⟩ := file_saBody
  exact ⟨⟨hlen, fun i _ => by rw [hnone i]; rfl⟩, hopen, hhead, hsnapshot, hlive, hdataset, htype, hroot, hcontext, hrecord, hfile,
    hdata, hread⟩

/-- The pool with System Attributes mounts. -/
theorem open_saImage : (ZfsFs.open plainCtx saImage).value = .ok saFs := by
  obtain ⟨⟨hlen, hbody⟩, hmos, hhead, -, hdataset, -, htype, hroot, hcontext, hrecord, -⟩ := facts_saBody
  have hpool : openMos plainCtx saImage = some (mountMos, .little) := by rw [saImage, openMos_imageOf, hmos]
  have hzpl : (zplObjset (bodyDisk plainCtx saBody) mountMos).value = some saZpl := by
    rw [value_zplObjset hhead, endian_of_openMos hpool]
    exact hdataset
  have hget : ((zplSaContext (bodyDisk plainCtx saBody) saZpl).value).getD (default, default) = (saRegistry, saLayouts) := by
    rw [hcontext]
    rfl
  exact open_imageOf (k := 10) hlen (by decide) (fun i hi => Option.isNone_iff_eq_none.1 (hbody i hi)) hmos hzpl htype hroot hget
    hrecord

/-- What the pool and its mount hold, by the image. -/
theorem facts_saImage :
    openMos plainCtx saImage = some (mountMos, .little) ∧
      (headDataset (readBlock plainCtx saImage) mountMos).value = some mountHead ∧
      (mosDnode (readBlock plainCtx saImage) mountMos 4).value = some mountSnapshot ∧
      datasetZplObjset (readBlock plainCtx saImage) mountHead .little = some saFs.zpl ∧
      datasetZplObjset (readBlock plainCtx saImage) mountSnapshot .little = some saFs.zpl ∧
      (zplMasterRoot (readBlock plainCtx saImage) saFs.zpl).value = some 2 ∧
      (zplSaContext (readBlock plainCtx saImage) saFs.zpl).value = some (saRegistry, saLayouts) ∧
      (mosDnode (readBlock plainCtx saImage) saFs.zpl 3).value = some saFile ∧
      (zapObjectData (readBlock plainCtx saImage) saFs.zpl 2).value = some saRoot.encode ∧
      (readDnodeData (readBlock plainCtx saImage) saFile 0).value = .ok ⟨[1, 2, 3] ++ zeros 509, none, 0⟩ := by
  have hzpl : saFs.zpl = saZpl := by rw [saFs]
  obtain ⟨-, hmos, hhead, hsnapshot, hlive, hdataset, -, hroot, hcontext, -, hfile, hdata, hread⟩ := facts_saBody
  rw [hzpl, saImage, openMos_imageOf, readBlock_imageOf]
  exact ⟨hmos, hhead, hsnapshot, hlive, hdataset, hroot, hcontext, hfile, hdata, hread⟩

end ZfsForensic
