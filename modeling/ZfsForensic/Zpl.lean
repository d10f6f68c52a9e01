import ZfsForensic.Sa

/-!
# Datasets and the POSIX layer

The objects of the MOS name a dataset's objset: the object directory, the DSL directory in one bonus, the DSL dataset in
another, whose `ds_bp` is a block pointer. Inside a dataset the master node names the root directory, and a directory is a ZAP
whose values hold an object id in their low 48 bits.
-/

namespace ZfsForensic

open Octets Checked Checked.Run

/-! ## DSL bonuses -/

/-- Bonus offset of `dd_head_dataset_obj`. -/
def ddHeadDatasetObj : Nat := 8

/-- Bonus offset of `ds_prev_snap_obj`. -/
def dsPrevSnapObj : Nat := 8

/-- Bonus offset of `ds_bp`. -/
def dsBpOffset : Nat := 128

/-- The head dataset object id of a DSL directory, or zero when the bonus is too short. The field is read little-endian. -/
def dslDirHeadDataset (dnode : Dnode) : UInt64 := leU64 dnode.bonus ddHeadDatasetObj

/-- The previous-snapshot object id of a DSL dataset, or zero. The field is read little-endian. -/
def dslDatasetPrevSnap (dnode : Dnode) : UInt64 := leU64 dnode.bonus dsPrevSnapObj

/-- The `ds_bp` of a DSL dataset, in the dnode's byte order; a bonus too short yields a hole. -/
def dslDatasetBp (dnode : Dnode) : Blkptr :=
  Blkptr.parse ((slice? dnode.bonus dsBpOffset (dsBpOffset + 128)).getD []) dnode.endian

/-! ## ZPL objects -/

/-- The master node's object id. -/
def zplMasterNodeObj : UInt64 := 1

/-- The bits of a directory entry's value that hold the object id. -/
def zplDirentObjMask : UInt64 := 0x0000ffffffffffff

/-- The bonus type of System Attributes. -/
def dmuOtSa : UInt8 := 44

/-- The bonus type of a legacy znode. -/
def dmuOtZnode : UInt8 := 17

/-- The data of the ZAP an object id names, or `none` when the object or a block of it does not read. -/
def zapObjectData (disk : Disk) (objset : ObjsetPhys) (objectId : UInt64) : Run (Option Bytes) := do
  match ← mosDnode disk objset objectId with
  | none => pure none
  | some dnode =>
    match ← readZapObject disk dnode with
    | .error _ => pure none
    | .ok data => pure (some data)

/-- The head dataset of a pool: object directory, DSL directory, DSL dataset. -/
def headDataset (disk : Disk) (mos : ObjsetPhys) : Run (Option Dnode) := do
  match ← zapObjectData disk mos 1 with
  | none => pure none
  | some objdirData =>
    match zapLookup objdirData (ascii "root_dataset") with
    | none => pure none
    | some rootDataset =>
      match ← mosDnode disk mos rootDataset with
      | none => pure none
      | some dslDir =>
        let head := dslDirHeadDataset dslDir
        if head = 0 then pure none else mosDnode disk mos head

/-- The ZPL objset of a DSL dataset, through its `ds_bp`. -/
def datasetZplObjset (disk : Disk) (dataset : Dnode) (endian : Endian) : Option ObjsetPhys :=
  match disk (dslDatasetBp dataset) with
  | .error _ => none
  | .ok block => (ObjsetPhys.parse block.data endian).toOption

/-- Resolve the head dataset's ZPL objset from the MOS. -/
def zplObjset (disk : Disk) (mos : ObjsetPhys) : Run (Option ObjsetPhys) := do
  match ← headDataset disk mos with
  | none => pure none
  | some dataset => pure (datasetZplObjset disk dataset mos.endian)

/-- The root directory's object id: the `ROOT` entry of the master node. -/
def zplMasterRoot (disk : Disk) (zpl : ObjsetPhys) : Run (Option UInt64) := do
  match ← zapObjectData disk zpl zplMasterNodeObj with
  | none => pure none
  | some data => pure (zapLookup data (ascii "ROOT"))

/-- List a directory as names and object ids; an absent or unreadable object lists as empty. -/
def zplListDir (disk : Disk) (zpl : ObjsetPhys) (dirObjId : UInt64) : Run (List (Bytes × UInt64)) := do
  match ← zapObjectData disk zpl dirObjId with
  | none => pure []
  | some data => pure ((zapList data).map (fun e => (e.1, e.2 &&& zplDirentObjMask)))

/-- The SA decoding context of a ZPL objset: the registry and the layouts the master node's `SA_ATTRS` entry leads to. -/
def zplSaContext (disk : Disk) (zpl : ObjsetPhys) : Run (Option (SaRegistry × SaLayouts)) := do
  match ← zapObjectData disk zpl zplMasterNodeObj with
  | none => pure none
  | some masterData =>
    match zapLookup masterData (ascii "SA_ATTRS") with
    | none => pure none
    | some saMasterObj =>
      match ← zapObjectData disk zpl saMasterObj with
      | none => pure none
      | some saMasterData =>
        match zapLookup saMasterData (ascii "REGISTRY"), zapLookup saMasterData (ascii "LAYOUTS") with
        | some registryObj, some layoutsObj =>
          match ← zapObjectData disk zpl registryObj with
          | none => pure none
          | some registryData =>
            match ← zapObjectData disk zpl layoutsObj with
            | none => pure none
            | some layoutsData => pure (some (parseSaRegistry registryData, parseSaLayouts layoutsData))
        | _, _ => pure none

/-- Decode an object's metadata, by the type of its bonus. -/
def zplAttrs (disk : Disk) (zpl : ObjsetPhys) (registry : SaRegistry) (layouts : SaLayouts)
    (objectId : UInt64) : Run (Option ZplAttrs) := do
  match ← mosDnode disk zpl objectId with
  | none => pure none
  | some dnode =>
    if dnode.dnBonustype = dmuOtSa then pure (decodeSaBonus dnode.bonus registry layouts dnode.endian)
    else if dnode.dnBonustype = dmuOtZnode then pure (decodeZnodePhys dnode.bonus dnode.endian)
    else pure none

/-- The cap on a file's blocks: 512 MiB. -/
def maxFileBytes : Nat := 512 * 1024 * 1024

/-- The number of blocks a file read visits: `0..=dn_maxblkid`, capped. -/
def fileBlockCount (dnode : Dnode) : Nat := min (satAdd dnode.dnMaxblkid.toNat 1) (max (maxFileBytes / dnode.dataBlockSize) 1)

/-- Read a file's content: its blocks, appended, cut at the logical size when one is given. -/
def zplReadFileWith (disk : Disk) (zpl : ObjsetPhys) (objectId : UInt64) (size : Option UInt64) :
    Run (Except ZfsError Bytes) := do
  match ← mosDnode disk zpl objectId with
  | none => pure (.error (.truncated "zpl file object (absent or empty slot)" 1 0))
  | some dnode =>
    if dnode.dataBlockSize = 0 then pure (.error (.truncated "zpl file object (zero block size)" 1 0))
    else
      match ← readBlocks disk dnode (fileBlockCount dnode) 0 [] with
      | .error e => pure (.error e)
      | .ok out =>
        match size with
        | none => pure (.ok out)
        | some sz => pure (.ok (out.take sz.toNat))

/-- Read a file's content, cut at the size its metadata gives; whole blocks when no size decodes. -/
def zplReadFile (disk : Disk) (zpl : ObjsetPhys) (objectId : UInt64) : Run (Except ZfsError Bytes) := do
  match ← zplSaContext disk zpl with
  | none => zplReadFileWith disk zpl objectId none
  | some (registry, layouts) =>
    let attrs ← zplAttrs disk zpl registry layouts objectId
    zplReadFileWith disk zpl objectId (attrs.map ZplAttrs.size)

/-! ## Paths -/

/-- The components of a path: what stands between its slashes, empty parts dropped. -/
def pathComponents (path : Bytes) : List Bytes := (path.splitOn 0x2f).filter (fun c => decide (c ≠ []))

/-- The object a directory names a component by: its first entry of that name. -/
def zplChild (disk : Disk) (zpl : ObjsetPhys) (current : UInt64) (component : Bytes) : Run (Option UInt64) := do
  let children ← zplListDir disk zpl current
  pure ((children.find? (fun e => e.1 == component)).map Prod.snd)

/-- The loop of `zplLookup` over the components of a path. -/
def zplDescend (disk : Disk) (zpl : ObjsetPhys) : List Bytes → UInt64 → Run (Option UInt64)
  | [], current => pure (some current)
  | component :: components, current => do
    match ← zplChild disk zpl current component with
    | none => pure none
    | some child => zplDescend disk zpl components child

/-- Resolve a path from the root directory to an object id and its metadata. -/
def zplLookup (disk : Disk) (zpl : ObjsetPhys) (path : Bytes) : Run (Option (UInt64 × ZplAttrs)) := do
  match ← zplMasterRoot disk zpl with
  | none => pure none
  | some rootId =>
    match ← zplSaContext disk zpl with
    | none => pure none
    | some (registry, layouts) =>
      match ← zplDescend disk zpl (pathComponents path) rootId with
      | none => pure none
      | some current =>
        let attrs ← zplAttrs disk zpl registry layouts current
        pure (attrs.map (fun a => (current, a)))

/-- Resolve a path, and read the content of the file it names, cut at the size its metadata gives. -/
def zplReadPath (disk : Disk) (zpl : ObjsetPhys) (path : Bytes) : Run (Except ZfsError Bytes) := do
  match ← zplLookup disk zpl path with
  | none => pure (.error (.truncated "zpl path (not found)" 1 0))
  | some (objectId, attrs) => zplReadFileWith disk zpl objectId (some attrs.size)

end ZfsForensic
