import ZfsForensic.Label
import ZfsForensic.Zpl

/-!
# Deleted-file recovery

A snapshot pins the blocks of an earlier state. `recoverDeleted` reads the live root directory, follows the chain of snapshots
from the head dataset, newest first, and carves every entry of a snapshot's root that the live root does not name. A name
already carved from a newer snapshot is kept as it is.
-/

namespace ZfsForensic

open Octets Checked Checked.Run

/-- A file recovered from a snapshot. -/
structure RecoveredFile where
  path : Bytes
  source : String
  inode : UInt64
  size : UInt64
  content : Bytes
  contentSha256 : String
deriving DecidableEq, Repr

/-- A 64-bit word as sixteen lower-case hexadecimal digits. -/
def hex16 (w : UInt64) : String :=
  String.ofList ((List.range 16).map (fun i => Nat.digitChar (w.toNat / 16 ^ (15 - i) % 16)))

/-- SHA-256 of a content, in hexadecimal. -/
def sha256Hex (Γ : Ctx) (data : Bytes) : String := String.join ((sha256 Γ data).toList.map hex16)

/-- Parse the front label, its active uberblock and the MOS; also the pool's byte order. -/
def openMos (Γ : Ctx) (image : Bytes) : Option (ObjsetPhys × Endian) :=
  match slice? image 0 labelSize with
  | none => none
  | some l0Bytes =>
    match VdevLabel.parse l0Bytes with
    | .error _ => none
    | .ok l0 =>
      let endian := l0.activeUberblock.endian
      match readBlock Γ image l0.activeUberblock.rootbpFull with
      | .error _ => none
      | .ok block =>
        match ObjsetPhys.parse block.data endian with
        | .error _ => none
        | .ok mos => some (mos, endian)

/-- The entries of a dataset's root directory: none when its objset or its root cannot be read. -/
def datasetRootNames (disk : Disk) (dataset : Dnode) (endian : Endian) : Run (List (Bytes × UInt64)) :=
  match datasetZplObjset disk dataset endian with
  | none => pure []
  | some zpl => do
    match ← zplMasterRoot disk zpl with
    | none => pure []
    | some root => zplListDir disk zpl root

/-- One entry of a snapshot's root: skipped when the live root names it, when it is already recovered, or when its content does
not read; else carved. -/
def recoverEntry (Γ : Ctx) (disk : Disk) (zpl : ObjsetPhys) (source : String) (liveNames : List (Bytes × UInt64))
    (out : List RecoveredFile) (entry : Bytes × UInt64) : Run (List RecoveredFile) :=
  if liveNames.any (fun n => n.1 == entry.1) then pure out
  else if out.any (fun r => r.path == entry.1) then pure out
  else do
    match ← zplReadFile disk zpl entry.2 with
    | .error _ => pure out
    | .ok content =>
      pure (out ++ [{ path := entry.1, source := source, inode := entry.2, size := UInt64.ofNat content.length,
                      content := content, contentSha256 := sha256Hex Γ content }])

/-- Diff one snapshot's root against the live one, and carve what only the snapshot holds. -/
def recoverFromSnapshot (Γ : Ctx) (disk : Disk) (snapDs : Dnode) (snapObj : UInt64) (endian : Endian)
    (liveNames : List (Bytes × UInt64)) (out : List RecoveredFile) : Run (List RecoveredFile) :=
  match datasetZplObjset disk snapDs endian with
  | none => pure out
  | some zpl => do
    match ← zplMasterRoot disk zpl with
    | none => pure out
    | some root =>
      let source := "snapshot obj " ++ toString snapObj.toNat
      let entries ← zplListDir disk zpl root
      entries.foldlM (recoverEntry Γ disk zpl source liveNames) out

/-- The bound on the snapshot chain. -/
def snapshotBudget : Nat := 4096

/-- The walk over the snapshot chain: it stops at zero, at an object already seen, at one that does not resolve, or when the
budget is spent. -/
def snapshotLoop (Γ : Ctx) (disk : Disk) (mos : ObjsetPhys) (endian : Endian) (liveNames : List (Bytes × UInt64)) :
    Nat → UInt64 → List UInt64 → List RecoveredFile → Run (List RecoveredFile)
  | 0, _, _, out => pure out
  | budget + 1, snapObj, seen, out =>
    if snapObj = 0 then pure out
    else if seen.contains snapObj then pure out
    else do
      match ← mosDnode disk mos snapObj with
      | none => pure out
      | some snapDs =>
        let out ← recoverFromSnapshot Γ disk snapDs snapObj endian liveNames out
        snapshotLoop Γ disk mos endian liveNames budget (dslDatasetPrevSnap snapDs) (seen ++ [snapObj]) out

/-- Recover deleted files from the snapshots of an opened pool. -/
def recoverFrom (Γ : Ctx) (disk : Disk) (mos : ObjsetPhys) (endian : Endian) : Run (List RecoveredFile) := do
  match ← headDataset disk mos with
  | none => pure []
  | some headDs =>
    let liveNames ← datasetRootNames disk headDs endian
    snapshotLoop Γ disk mos endian liveNames snapshotBudget (dslDatasetPrevSnap headDs) [] []

/-- Recover deleted files from the snapshots of a pool. -/
def recoverDeleted (Γ : Ctx) (image : Bytes) : Run (List RecoveredFile) :=
  match openMos Γ image with
  | none => pure []
  | some (mos, endian) => recoverFrom Γ (readBlock Γ image) mos endian

/-- Once its front label parses, a pool opens where its root pointer reads as an object set. -/
theorem openMos_of_label {Γ : Ctx} {image l0Bytes : Bytes} {l0 : VdevLabel}
    (hbytes : slice? image 0 labelSize = some l0Bytes) (hlabel : VdevLabel.parse l0Bytes = .ok l0) :
    openMos Γ image =
      match readBlock Γ image l0.activeUberblock.rootbpFull with
      | .error _ => none
      | .ok block =>
        match ObjsetPhys.parse block.data l0.activeUberblock.endian with
        | .error _ => none
        | .ok mos => some (mos, l0.activeUberblock.endian) := by
  simp only [openMos, hbytes, hlabel]

/-- The byte order of a pool is the one its MOS was parsed in. -/
theorem endian_of_openMos {Γ : Ctx} {image : Bytes} {mos : ObjsetPhys} {e : Endian}
    (h : openMos Γ image = some (mos, e)) : mos.endian = e := by
  unfold openMos at h
  split at h
  · exact absurd h (by simp)
  · split at h
    · exact absurd h (by simp)
    · dsimp only at h
      split at h
      · exact absurd h (by simp)
      · split at h
        · exact absurd h (by simp)
        · rename_i hparse
          simp only [Option.some.injEq, Prod.mk.injEq] at h
          rw [← h.1, ← h.2]
          exact (ObjsetPhys.endian_of_parse hparse).1

end ZfsForensic
