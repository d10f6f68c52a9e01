import ZfsForensic.Label
import ZfsForensic.Zpl

/-!
# Mounting a pool

`ZfsFs.open` takes the bytes of a source to a mounted root dataset. It finds the newest uberblock over every label in the
image, at the smallest slot size, so that a wiped configuration does not hide it, and fails with the stage that did not resolve.
The runs a mount reports for an object are those of its level-0 pointers, gathered level by level.
-/

namespace ZfsForensic

open Octets Checked Checked.Run

/-- The two hexadecimal digits of a byte. -/
def hex2 (b : UInt8) : String := String.ofList [Nat.digitChar (b.toNat / 16), Nat.digitChar (b.toNat % 16)]

/-- The text of a reader error. -/
def ZfsError.display : ZfsError → String
  | .truncated structure_ need have_ =>
    "buffer too small for " ++ structure_ ++ ": need " ++ toString need ++ " bytes, have " ++ toString have_
  | .noUberblock scanned =>
    "no valid uberblock found in " ++ toString scanned ++
      " array slots (neither little- nor big-endian magic 0x00bab10c matched)"
  | .badNvlistEncoding encoding offset =>
    "unsupported nvlist encoding 0x" ++ hex2 encoding ++ " at offset " ++ toString offset ++ " (expected 0x01 = XDR)"
  | .nvlistBomb field value cap =>
    "nvlist " ++ field ++ " value " ++ toString value ++ " exceeds cap " ++ toString cap ++ " (allocation-bomb guard)"
  | .allocationBomb field value cap =>
    "block " ++ field ++ " value " ++ toString value ++ " exceeds cap " ++ toString cap ++ " (allocation-bomb guard)"
  | .decompress codec reason => codec ++ " decompression failed: " ++ reason
  | .unsupportedCompression value =>
    "unsupported compression function " ++ toString value.toNat ++ " (no decoder implemented)"
  | .outOfRange what value max =>
    what ++ " value " ++ toString value ++ " out of range (max " ++ toString max ++ ")"

/-- The error of a mount: the stage that failed, and why. -/
structure VfsError where
  stage : String
  detail : String
deriving DecidableEq, Repr

/-- Whether a parsed nvlist is a pool configuration. -/
def isPoolConfig (list : NvList) : Bool :=
  (NvList.getU64 list (ascii "version")).isSome && (NvList.getU64 list (ascii "pool_guid")).isSome &&
    (NvList.getNvlist list (ascii "vdev_tree")).isSome

/-- The packed configuration region of the label at `base`, as far as the image reaches. -/
def configRegion (image : Bytes) (base : Nat) : Option Bytes :=
  let start := base + nvlistOffset
  if 2 ^ 64 ≤ start then none else slice? image start (min (satAdd start nvlistSize) image.length)

/-- The pool configuration of the front label, if present and well formed. -/
def poolConfig (image : Bytes) : Option NvList :=
  match configRegion image 0 with
  | none => none
  | some region => (nvlistParse region).toOption.filter isPoolConfig

/-- The offsets of the labels in an image, front to back. -/
def labelOffsetList (image : Bytes) : List Nat :=
  match labelOffsets image.length with
  | ((l0, l1), none) => [l0, l1]
  | ((l0, l1), some (l2, l3)) => [l0, l1, l2, l3]

/-- The uberblock ring of the label at `base`, as far as the image reaches. -/
def ringAt (image : Bytes) (base : Nat) : Option Bytes :=
  let ringStart := uberblockRingOffset + base
  if 2 ^ 64 ≤ ringStart then none
  else slice? image ringStart (min (satAdd ringStart uberblockRingSize) image.length)

/-- The uberblock of the highest transaction group over the labels at `offs`, after `best`. -/
def acrossLabels (image : Bytes) : List Nat → Option Uberblock → Option Uberblock
  | [], best => best
  | off :: offs, best =>
    match ringAt image off with
    | none => acrossLabels image offs best
    | some ring =>
      let slotSize := 1 <<< uberblockMinShift
      match activeUberblock ring slotSize (ring.length / slotSize) with
      | none => acrossLabels image offs best
      | some (ub, _) =>
        match best with
        | some cur => if ub.txg ≤ cur.txg then acrossLabels image offs (some cur) else acrossLabels image offs (some ub)
        | none => acrossLabels image offs (some ub)

/-- The active uberblock over every label present in an image. -/
def activeUberblockAcrossLabels (image : Bytes) : Option Uberblock := acrossLabels image (labelOffsetList image) none

/-- The text of the label offsets. -/
def showLabelOffsets (vdevSize : Nat) : String :=
  let pair (p : Nat × Nat) : String := "[" ++ toString p.1 ++ ", " ++ toString p.2 ++ "]"
  match labelOffsets vdevSize with
  | (front, none) => "(" ++ pair front ++ ", None)"
  | (front, some back) => "(" ++ pair front ++ ", Some(" ++ pair back ++ "))"

/-- The text of a byte order. -/
def showEndian : Endian → String
  | .little => "Little"
  | .big => "Big"

/-- The record size reported when the root directory has none. -/
def defaultRecordSize : Nat := 128 * 1024

/-- A mounted pool. -/
structure ZfsFs where
  image : Bytes
  zpl : ObjsetPhys
  registry : SaRegistry
  layouts : SaLayouts
  rootId : UInt64
  recordSize : Nat
  poolName : Option Bytes

/-- The record size of the root directory: its data block size, when it is not zero. -/
def recordSizeOf (root : Option Dnode) : Nat :=
  match root with
  | none => defaultRecordSize
  | some d => if d.dataBlockSize < 2 ^ 32 ∧ d.dataBlockSize ≠ 0 then d.dataBlockSize else defaultRecordSize

/-- Mount the dataset a resolved ZPL objset holds: check its type, find its root, and build the decoding context. -/
def ZfsFs.openDataset (disk : Disk) (image : Bytes) (zpl : ObjsetPhys) : Run (Except VfsError ZfsFs) :=
  if zpl.osType ≠ dmuOstZfs then
    pure (.error ⟨"zfs dataset objset type",
      "resolved objset os_type " ++ toString zpl.osType.toNat ++ " is not DMU_OST_ZFS (2)"⟩)
  else do
    match ← zplMasterRoot disk zpl with
    | none =>
      pure (.error ⟨"zfs ZPL master node ROOT entry", "the master node (object 1) named no ROOT directory"⟩)
    | some rootId =>
      let context ← zplSaContext disk zpl
      let root ← mosDnode disk zpl rootId
      let (registry, layouts) := context.getD (default, default)
      pure (.ok
        { image := image
          zpl := zpl
          registry := registry
          layouts := layouts
          rootId := rootId
          recordSize := recordSizeOf root
          poolName := (poolConfig image).bind (fun c => NvList.getStr c (ascii "name")) })

/-- Mount the bytes of a source. -/
def ZfsFs.open (Γ : Ctx) (image : Bytes) : Run (Except VfsError ZfsFs) :=
  match activeUberblockAcrossLabels image with
  | none =>
    pure (.error ⟨"zfs uberblock ring",
      "no slot carrying UBERBLOCK_MAGIC 0x00bab10c in any vdev label of a " ++ toString image.length ++
        " byte source (scanned label offsets " ++ showLabelOffsets image.length ++ " at 1 KiB granularity)"⟩)
  | some ub =>
    let rootbp := ub.rootbpFull
    match readBlock Γ image rootbp with
    | .error e =>
      pure (.error ⟨"zfs MOS objset block (uberblock rootbp)",
        "txg " ++ toString ub.txg.toNat ++ ", rootbp DVA[0] vdev " ++ toString (rootbp.dvas.get 0).vdev.toNat ++
          " offset_sectors " ++ toString (rootbp.dvas.get 0).offsetSectors.toNat ++ " -> byte " ++
          toString (rootbp.dvas.get 0).physicalByteOffset.toNat ++ ": " ++ e.display⟩)
    | .ok mosBlock =>
      match ObjsetPhys.parse mosBlock.data ub.endian with
      | .error e => pure (.error ⟨"zfs MOS objset", "txg " ++ toString ub.txg.toNat ++ ": " ++ e.display⟩)
      | .ok mos => do
        match ← zplObjset (readBlock Γ image) mos with
        | none =>
          pure (.error ⟨"zfs MOS object directory -> DSL dir -> DSL dataset -> ZPL objset",
            "the root_dataset chain did not resolve to a readable objset (MOS os_type " ++ toString mos.osType.toNat ++
              ", endian " ++ showEndian mos.endian ++ ")"⟩)
        | some zpl => ZfsFs.openDataset (readBlock Γ image) image zpl

/-! ## The level-0 pointers of an object -/

/-- The cap on the block pointers gathered for one object. -/
def maxRuns : Nat := 65536

/-- `data.chunks_exact(BLKPTR_SIZE)`: the whole pointers of a block, in order. -/
def blkptrChunks (data : Bytes) : List Bytes :=
  (List.range (data.length / blkptrSize)).map (fun i => (data.drop (i * blkptrSize)).take blkptrSize)

/-- Append the pointers of an indirect block that are not holes, up to the cap. -/
def pushChildren (endian : Endian) : List Bytes → List Blkptr → List Blkptr
  | [], next => next
  | chunk :: chunks, next =>
    if maxRuns ≤ next.length then next
    else
      let child := Blkptr.parse chunk endian
      if child.isHole then pushChildren endian chunks next else pushChildren endian chunks (next ++ [child])

/-- The level below a list of pointers, up to the cap: a block that does not read is passed over, and the pointers of one that
reads are parsed in the byte order of the pointer to it. -/
def expandLevel (disk : Disk) : List Blkptr → List Blkptr → List Blkptr
  | [], next => next
  | bp :: bps, next =>
    if maxRuns ≤ next.length then next
    else
      match disk bp with
      | .error _ => expandLevel disk bps next
      | .ok block => expandLevel disk bps (pushChildren bp.byteorder (blkptrChunks block.data) next)

/-- Expand a list of pointers so many levels down. -/
def expandLevels (disk : Disk) : Nat → List Blkptr → List Blkptr
  | 0, level => level
  | n + 1, level => if level = [] then level else expandLevels disk n (expandLevel disk level [])

/-- Whether a level-0 pointer names bytes of the vdev: it is not embedded and its first copy is not empty. -/
def Blkptr.addressable (bp : Blkptr) : Bool := !bp.embedded && !(bp.dvas.get 0).isEmpty

/-- The addressable level-0 pointers of an object. -/
def l0Blkptrs (disk : Disk) (dnode : Dnode) : List Blkptr :=
  let level := (dnode.blkptrs.filter (fun b => !b.isHole)).take maxRuns
  (expandLevels disk ((min dnode.dnNlevels maxIndirectLevels).toNat - 1) level).filter Blkptr.addressable

/-- One run of an object's data: where it lies, how long it is, and whether it is compressed. -/
structure ZfsFs.RunInfo where
  imageOffset : UInt64
  len : Nat
  compressed : Bool
deriving DecidableEq, Repr

/-- The run a level-0 pointer names: its first copy. The codes 0 and 2 mean stored raw. -/
def ZfsFs.runInfo (bp : Blkptr) : RunInfo :=
  { imageOffset := (bp.dvas.get 0).physicalByteOffset
    len := bp.psizeBytes
    compressed := decide (bp.compression ≠ 0 ∧ bp.compression ≠ 2) }

end ZfsForensic
