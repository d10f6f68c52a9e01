import ZfsForensic.Vfs

/-!
# The mounted filesystem

What a mount serves: directory listings and lookups by the object ids its entries hold, the metadata and the content of an object, and
the blocks its data occupies. A file id is an object id. Listings keep the type bits of an entry's value; lookups compare names with the
listing, byte for byte.
-/

namespace ZfsForensic

open Octets Checked Checked.Run

/-- The error of an operation on a mount. -/
inductive FsError where
  /-- The text of the reader's error. -/
  | decode (detail : String)
  | outOfRange (what : String) (offset : UInt64) (len bound : Nat)
deriving DecidableEq, Repr

/-- A reader error, reported by a mount. -/
def decodeErr (e : ZfsError) : FsError := .decode e.display

/-- The kind of a node. -/
inductive NodeKind where
  | file | dir | symlink | device | other
deriving DecidableEq, Repr

/-- The kind a directory entry's type code names. -/
def nodeKindFromDirent (dt : UInt64) : NodeKind :=
  if dt = 8 then .file
  else if dt = 4 then .dir
  else if dt = 10 then .symlink
  else if dt = 2 ∨ dt = 6 then .device
  else .other

/-- The bits of a mode that hold the file type (`S_IFMT`). -/
def sIfmt : UInt64 := 0o170000

/-- The kind a mode names. -/
def nodeKindFromMode (mode : UInt64) : NodeKind :=
  let fmt := mode &&& sIfmt
  if fmt = 0o100000 then .file
  else if fmt = 0o040000 then .dir
  else if fmt = 0o120000 then .symlink
  else if fmt = 0o020000 ∨ fmt = 0o060000 then .device
  else .other

/-- The position of the type code in a directory entry's value. -/
def direntTypeShift : UInt64 := 60

/-- An entry of a directory: its name, the object id it holds, and its kind. -/
structure DirEntry where
  name : Bytes
  id : UInt64
  kind : NodeKind
deriving DecidableEq, Repr

/-- The entry a name and a value of a directory's ZAP make. -/
def dirEntry (e : Bytes × UInt64) : DirEntry :=
  { name := e.1
    id := e.2 &&& zplDirentObjMask
    kind := nodeKindFromDirent ((e.2 >>> direntTypeShift) &&& 0xf) }

/-- Nanoseconds since the epoch, from the inode table. -/
structure TimeStamp where
  unixNanos : Int
deriving DecidableEq, Repr

/-- Convert seconds and nanoseconds. -/
def toTs (ts : UInt64 × UInt64) : TimeStamp := ⟨(ts.1.toNat : Int) * 1000000000 + (ts.2.toNat : Int)⟩

/-- The four times of a node. -/
structure MacbTimes where
  modified : Option TimeStamp
  accessed : Option TimeStamp
  changed : Option TimeStamp
  born : Option TimeStamp
deriving DecidableEq, Repr

/-- No time. -/
def MacbTimes.default : MacbTimes := { modified := none, accessed := none, changed := none, born := none }

/-- The default stream of a node, as its metadata lists it: it is never resident in the record. -/
structure StreamInfo where
  size : UInt64
deriving DecidableEq, Repr

/-- The metadata of a node. It is always an allocated one, and names no link target. -/
structure FsMeta where
  ino : UInt64
  kind : NodeKind
  size : UInt64
  nlink : UInt32
  uid : Option UInt32
  gid : Option UInt32
  mode : Option UInt32
  times : MacbTimes
  streams : List StreamInfo
deriving DecidableEq, Repr

/-- `u32::try_from`. -/
def tryU32 (v : UInt64) : Option UInt32 := if v.toNat < 2 ^ 32 then some v.toUInt32 else none

/-- The metadata a node's attributes make: without attributes its kind is not known and its size zero. -/
def fsMeta (obj : UInt64) (attrs : Option ZplAttrs) : FsMeta :=
  let size := (attrs.map ZplAttrs.size).getD 0
  { ino := obj
    kind := (attrs.map (fun a => nodeKindFromMode a.mode)).getD .other
    size := size
    nlink := (attrs.bind (fun a => tryU32 a.links)).getD 0
    uid := attrs.bind (fun a => tryU32 a.uid)
    gid := attrs.bind (fun a => tryU32 a.gid)
    mode := attrs.bind (fun a => tryU32 a.mode)
    times :=
      (attrs.map (fun a =>
        { modified := some (toTs a.mtime), accessed := some (toTs a.atime), changed := some (toTs a.ctime),
          born := some (toTs a.crtime) })).getD MacbTimes.default
    streams := [{ size := size }] }

namespace ZfsFs

/-- The reader of a mount's image. -/
def disk (Γ : Ctx) (fs : ZfsFs) : Disk := readBlock Γ fs.image

/-- The id of the root directory. -/
def root (fs : ZfsFs) : UInt64 := fs.rootId

/-- The dnode of an object. -/
def dnode (Γ : Ctx) (fs : ZfsFs) (obj : UInt64) : Run (Except FsError Dnode) := do
  match ← mosDnode (fs.disk Γ) fs.zpl obj with
  | none => pure (.error (.outOfRange "zfs object id (absent or an empty dnode slot)" obj 1 0))
  | some dnode => pure (.ok dnode)

/-- The decoded metadata of an object, when its bonus decodes. -/
def attrs (Γ : Ctx) (fs : ZfsFs) (obj : UInt64) : Run (Option ZplAttrs) :=
  zplAttrs (fs.disk Γ) fs.zpl fs.registry fs.layouts obj

/-- The metadata of an object. The object is looked up first, so that a missing one is an error. -/
def getMeta (Γ : Ctx) (fs : ZfsFs) (ino : UInt64) : Run (Except FsError FsMeta) := do
  match ← fs.dnode Γ ino with
  | .error e => pure (.error e)
  | .ok _ =>
    let attrs ← fs.attrs Γ ino
    pure (.ok (fsMeta ino attrs))

/-- The entries of a directory. -/
def dirEntries (Γ : Ctx) (fs : ZfsFs) (obj : UInt64) : Run (Except FsError (List DirEntry)) := do
  match ← mosDnode (fs.disk Γ) fs.zpl obj with
  | none => pure (.error (.outOfRange "zfs directory object id (absent or an empty dnode slot)" obj 1 0))
  | some dnode =>
    match ← readZapObject (fs.disk Γ) dnode with
    | .error e => pure (.error (decodeErr e))
    | .ok data => pure (.ok ((zapList data).map dirEntry))

/-- List a directory. -/
def readDir (Γ : Ctx) (fs : ZfsFs) (ino : UInt64) : Run (Except FsError (List DirEntry)) := fs.dirEntries Γ ino

/-- The object a directory names by `name`: that of its first entry of that name. -/
def lookup (Γ : Ctx) (fs : ZfsFs) (parent : UInt64) (name : Bytes) : Run (Except FsError (Option UInt64)) := do
  match ← fs.dirEntries Γ parent with
  | .error e => pure (.error e)
  | .ok entries => pure (.ok ((entries.find? (fun e => e.name == name)).map DirEntry.id))

/-- The content of an object, cut at its recorded size. -/
def content (Γ : Ctx) (fs : ZfsFs) (obj : UInt64) : Run (Except FsError Bytes) := do
  let attrs ← fs.attrs Γ obj
  match ← zplReadFileWith (fs.disk Γ) fs.zpl obj (attrs.map ZplAttrs.size) with
  | .error e => pure (.error (decodeErr e))
  | .ok out => pure (.ok out)

/-- Up to `len` bytes of the default stream of an object, from an offset: none behind its end. -/
def readAt (Γ : Ctx) (fs : ZfsFs) (ino : UInt64) (off : UInt64) (len : Nat) : Run (Except FsError Bytes) := do
  match ← fs.content Γ ino with
  | .error e => pure (.error e)
  | .ok content =>
    if off.toNat ≤ content.length then pure (.ok ((content.drop off.toNat).take len)) else pure (.ok [])

/-- The runs of the default stream of an object. -/
def extents (Γ : Ctx) (fs : ZfsFs) (ino : UInt64) : Run (Except FsError (List RunInfo)) := do
  match ← fs.dnode Γ ino with
  | .error e => pure (.error e)
  | .ok dnode => pure (.ok ((l0Blkptrs (fs.disk Γ) dnode).map runInfo))

end ZfsFs

end ZfsForensic
