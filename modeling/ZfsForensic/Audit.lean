import ZfsForensic.Label
import ZfsForensic.Read

/-!
# The image auditor

`auditImage` parses the front label, checks the active root pointer's checksum against the block it names, compares the four
labels, and sweeps the block pointers of the MOS meta-dnode. Each observation is an anomaly of a kind, with a code and a note
that follow from the kind.
-/

namespace ZfsForensic

open Octets Checked

/-- How grave an observation is. All the kinds below share one grade. -/
inductive Severity where
  | high
deriving DecidableEq, Repr

/-- The kinds of structural anomaly, each with its evidence. -/
inductive AnomalyKind where
  | uberblockChecksumMismatch (txg : UInt64) (slot : Nat)
  | labelDivergence (field : String) (label : Nat) (reason : String)
  | blkptrChecksumMismatch (dvaOffset : UInt64) (objectType : UInt8)
  | impossibleGeometry (field : String) (value limit : Nat)
deriving DecidableEq, Repr

/-- The severity of a kind. -/
def AnomalyKind.severity : AnomalyKind → Severity
  | _ => .high

/-- The stable code of a kind. -/
def AnomalyKind.code : AnomalyKind → String
  | .uberblockChecksumMismatch .. => "ZFS-UBERBLOCK-CHECKSUM-MISMATCH"
  | .labelDivergence .. => "ZFS-LABEL-DIVERGENCE"
  | .blkptrChecksumMismatch .. => "ZFS-BLKPTR-CHECKSUM-MISMATCH"
  | .impossibleGeometry .. => "ZFS-IMPOSSIBLE-GEOMETRY"

/-- The note of a kind, from its evidence. -/
def AnomalyKind.note : AnomalyKind → String
  | .uberblockChecksumMismatch txg slot =>
    "active uberblock (txg " ++ toString txg.toNat ++ ", ring slot " ++ toString slot ++
      "): ub_rootbp checksum does not verify against the MOS block it points at — consistent with corruption or " ++
      "post-write tampering of the pool root"
  | .labelDivergence field label reason =>
    "vdev label L" ++ toString label ++ " " ++ field ++ ": " ++ reason ++
      " — consistent with a torn or tampered vdev label"
  | .blkptrChecksumMismatch dvaOffset objectType =>
    "metadata block (DMU type " ++ toString objectType.toNat ++ ") at byte " ++ toString dvaOffset.toNat ++
      ": blkptr checksum does not verify — consistent with a dead, corrupt, or tampered block"
  | .impossibleGeometry field value limit =>
    "geometry field " ++ field ++ " = " ++ toString value ++ " exceeds the sane bound " ++ toString limit ++
      " for this image — consistent with corruption or an allocation-bomb"

/-- An anomaly: a kind, with the grade, code and note that follow from it. -/
structure Anomaly where
  kind : AnomalyKind
  severity : Severity
  code : String
  note : String
  severity_eq : severity = kind.severity
  code_eq : code = kind.code
  note_eq : note = kind.note

/-- Build an anomaly from its kind. -/
def Anomaly.new (kind : AnomalyKind) : Anomaly :=
  ⟨kind, kind.severity, kind.code, kind.note, rfl, rfl, rfl⟩

/-! ## Checksum verdicts -/

/-- The verdict of checking a block pointer against the image. -/
inductive ChecksumVerdict where
  | ok
  | mismatch
  | unverified
  | unreadable
  | allocationBomb (value cap : Nat)
deriving DecidableEq, Repr

/-- The verdict on the bytes of a copy: an all-zero copy is a dead block, not a tampered one. -/
def verdictRaw (Γ : Ctx) (bp : Blkptr) (raw : Bytes) : ChecksumVerdict :=
  if raw.all (fun b => b == 0) then .unreadable
  else
    match verify Γ (ChecksumType.fromRaw bp.checksum) bp.byteorder raw bp.checksumWords with
    | some true => .ok
    | some false => .mismatch
    | none => .unverified

/-- The verdict on the first copy that lies in the image. `get` is `image.get(a..b)`. -/
def verdictDvas (Γ : Ctx) (get : Nat → Nat → Option Bytes) (bp : Blkptr) : List Dva → ChecksumVerdict
  | [] => .unreadable
  | dva :: dvas =>
    if dva.isEmpty then verdictDvas Γ get bp dvas
    else
      let phys := dva.physicalByteOffset.toNat
      match get phys (satAdd phys bp.psizeBytes) with
      | none => verdictDvas Γ get bp dvas
      | some raw => verdictRaw Γ bp raw

/-- Whether a checksum function is one the verdict skips. -/
def isUnchecked (kind : ChecksumType) : Bool := kind == .off || kind == .inherit || kind == .on

/-- Check a block pointer's checksum against the image, over its on-disk bytes. -/
def blkptrChecksumVerdict (Γ : Ctx) (image : Bytes) (bp : Blkptr) : ChecksumVerdict :=
  if bp.embedded || bp.isHole then .unverified
  else
    let lsize := bp.lsizeBytes
    if lsize = 0 ∨ maxBlockSize < lsize then .allocationBomb lsize maxBlockSize
    else if isUnchecked (ChecksumType.fromRaw bp.checksum) then .unverified
    else verdictDvas Γ (slice? image) bp bp.dvas.toList

/-! ## The checks -/

/-- The root pointer's check. -/
def checkUberblockRootbp (Γ : Ctx) (image : Bytes) (l0 : VdevLabel) : List Anomaly :=
  match blkptrChecksumVerdict Γ image l0.activeUberblock.rootbpFull with
  | .mismatch => [Anomaly.new (.uberblockChecksumMismatch l0.activeUberblock.txg l0.activeSlot)]
  | .allocationBomb value cap => [Anomaly.new (.impossibleGeometry "ub_rootbp LSIZE" value cap)]
  | .ok | .unverified | .unreadable => []

/-- A label's `pool_guid`, `txg` and `ashift`, or `none` when it does not parse or names no pool. -/
def labelIdentity (image : Bytes) (off : Nat) : Option (UInt64 × UInt64 × UInt64) :=
  match slice? image off (satAdd off labelSize) with
  | none => none
  | some bytes =>
    match slice? bytes nvlistOffset (nvlistOffset + nvlistSize) with
    | none => none
    | some _ =>
      match VdevLabel.parse bytes with
      | .error _ => none
      | .ok label =>
        match NvList.getU64 label.config (ascii "pool_guid") with
        | none => none
        | some guid =>
          let txg := (NvList.getU64 label.config (ascii "txg")).getD 0
          let ashift := ((NvList.vdevTree label.config).map VdevTree.ashift).getD 0
          some (guid, txg, ashift)

/-- What one label is reported for, against the front label's identity. -/
def labelDivergence (image : Bytes) (baseGuid baseAshift : UInt64) (idx off : Nat) : List Anomaly :=
  match labelIdentity image off with
  | none =>
    [Anomaly.new (.labelDivergence "config" idx
      ("vdev label config could not be parsed while the other labels did — consistent with a torn label in an " ++
        "otherwise well-formed vdev"))]
  | some (guid, _, ashift) =>
    (if guid ≠ baseGuid then
      [Anomaly.new (.labelDivergence "pool_guid" idx
        ("pool_guid " ++ toString guid.toNat ++ " differs from L0 baseline " ++ toString baseGuid.toNat))]
    else []) ++
    (if ashift ≠ baseAshift then
      [Anomaly.new (.labelDivergence "ashift" idx
        ("ashift " ++ toString ashift.toNat ++ " differs from L0 baseline " ++ toString baseAshift.toNat))]
    else [])

/-- Compare the labels, when the image is a whole vdev whose last label parses. -/
def checkLabelDivergence (image : Bytes) (l0 : VdevLabel) : List Anomaly :=
  match NvList.getU64 l0.config (ascii "pool_guid") with
  | none => []
  | some baseGuid =>
    let baseAshift := ((NvList.vdevTree l0.config).map VdevTree.ashift).getD 0
    let imageLen := image.length
    if imageLen < 4 * labelSize then []
    else
      let l3Off := imageLen - labelSize
      if (labelIdentity image l3Off).isNone then []
      else
        labelDivergence image baseGuid baseAshift 1 labelSize ++
          labelDivergence image baseGuid baseAshift 2 (imageLen - 2 * labelSize) ++
          labelDivergence image baseGuid baseAshift 3 l3Off

/-- The byte offset a sweep reports for a pointer: the first copy that is not empty, or zero. -/
def dvaOffsetOf (bp : Blkptr) : UInt64 :=
  match bp.dvas.toList.find? (fun d => !d.isEmpty) with
  | some d => d.physicalByteOffset
  | none => 0

/-- What one swept pointer is reported for. -/
def sweepBlkptr (Γ : Ctx) (image : Bytes) (bp : Blkptr) : List Anomaly :=
  if bp.embedded || bp.isHole then []
  else if blkptrChecksumVerdict Γ image bp = .mismatch then
    [Anomaly.new (.blkptrChecksumMismatch (dvaOffsetOf bp) bp.objectType)]
  else []

/-- The bound on the pointers swept. -/
def sweepBudget : Nat := 4096

/-- Sweep the top-level block pointers of the MOS meta-dnode. -/
def sweepReachableBlkptrs (Γ : Ctx) (image : Bytes) (l0 : VdevLabel) : List Anomaly :=
  match readBlock Γ image l0.activeUberblock.rootbpFull with
  | .error _ => []
  | .ok mosBlock =>
    match ObjsetPhys.parse mosBlock.data l0.activeUberblock.endian with
    | .error _ => []
    | .ok mos => (mos.metaDnode.blkptrs.take sweepBudget).flatMap (sweepBlkptr Γ image)

/-- Audit a whole image. -/
def auditImage (Γ : Ctx) (image : Bytes) : List Anomaly :=
  match slice? image 0 labelSize with
  | none => []
  | some l0Bytes =>
    match VdevLabel.parse l0Bytes with
    | .error _ => []
    | .ok l0 => checkUberblockRootbp Γ image l0 ++ checkLabelDivergence image l0 ++ sweepReachableBlkptrs Γ image l0

end ZfsForensic
