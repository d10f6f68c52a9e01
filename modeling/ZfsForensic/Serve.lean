import ZfsForensic.VfsOps
import ZfsForensic.Xattr

/-!
# The mount as it is served

Around the operations on object ids stands the interface a mount implements: a mount that reads a source whole, file ids and streams of other
schemes, which are refused, and the streams of a node: its content, and one for each extended attribute.
-/

namespace ZfsForensic

open Octets Checked Checked.Run

/-! ## Sources -/

/-- A byte source: its length, and what a read at an offset makes of a buffer, with the number of bytes it reports. -/
structure Source (ε : Type) where
  len : UInt64
  readAt : UInt64 → Bytes → Except ε (Nat × Bytes)
  length_readAt : ∀ off buf n out, readAt off buf = .ok (n, out) → out.length = buf.length

/-- The loop of `readAll`: it reads into what is left of the buffer, until that is filled or a read reports nothing. A read that reports
something fills at least a byte, so as many turns as the buffer has bytes are enough. -/
def readAllLoop {ε : Type} (source : Source ε) (cap : Nat) : Nat → Nat → Bytes → Except ε (Nat × Bytes)
  | 0, filled, image => .ok (filled, image)
  | fuel + 1, filled, image =>
    if filled < cap then
      match source.readAt (UInt64.ofNat filled) (image.drop filled) with
      | .error e => .error e
      | .ok (n, out) =>
        if n = 0 then .ok (filled, image.take filled ++ out)
        else readAllLoop source cap fuel (satAdd filled n) (image.take filled ++ out)
    else .ok (filled, image)

/-- Read a whole source, cut at what it yielded. -/
def readAll {ε : Type} (source : Source ε) : Except ε Bytes :=
  match readAllLoop source source.len.toNat source.len.toNat 0 (zeros source.len.toNat) with
  | .error e => .error e
  | .ok (filled, image) => .ok (image.take filled)

/-- What fails in a mount of a source: the read, or a stage. -/
inductive MountError (ε : Type) where
  | io (e : ε)
  | bootstrap (e : VfsError)
deriving DecidableEq, Repr

/-- Mount a source. -/
def ZfsFs.openSource {ε : Type} (Γ : Ctx) (source : Source ε) : Run (Except (MountError ε) ZfsFs) :=
  match readAll source with
  | .error e => pure (.error (.io e))
  | .ok image => do
    match ← ZfsFs.open Γ image with
    | .error e => pure (.error (.bootstrap e))
    | .ok fs => pure (.ok fs)

/-! ## File ids and streams -/

/-- A file id: an object id, or an id of another scheme, by its text. -/
inductive FileId where
  | ofObject (id : UInt64)
  | other (debug : String)
deriving DecidableEq, Repr

/-- A stream of a node: its content, an extended attribute by number, or one of another scheme, by its text. -/
inductive StreamId where
  | default
  | xattr (idx : UInt16)
  | other (debug : String)
deriving DecidableEq, Repr

/-- The text of a stream. -/
def StreamId.debug : StreamId → String
  | .default => "Default"
  | .xattr idx => "Xattr(" ++ toString idx.toNat ++ ")"
  | .other debug => debug

/-- The errors of an operation: those of the object it is about, and ids and streams the mount does not have. -/
inductive ServeError where
  | fs (e : FsError)
  | unsupported (layer scheme : String)
deriving DecidableEq, Repr

/-- An id of another scheme. -/
def badFileId (debug : String) : ServeError :=
  .unsupported "zfs file-id" (debug ++ " (ZFS addresses objects by object id: FileId::Opaque)")

/-- The object id behind a file id. -/
def objectOf : FileId → Except ServeError UInt64
  | .ofObject id => .ok id
  | .other debug => .error (badFileId debug)

/-- A stream the mount does not have. -/
def badStream (stream : StreamId) : ServeError :=
  .unsupported "zfs stream" (stream.debug ++ " (ZFS objects carry a single data stream)")

/-- Where the bytes of a stream are: in blocks of their own, or in the record. -/
inductive ResidencyKind where
  | nonResident
  | resident (inlineLen : UInt32)
deriving DecidableEq, Repr

/-- The kind of a stream. -/
inductive StreamKind where
  | data
  | xattr
deriving DecidableEq, Repr

/-- A stream in a listing. -/
structure StreamEntry where
  id : StreamId
  name : Option Bytes
  size : UInt64
  residency : ResidencyKind
  kind : StreamKind
deriving DecidableEq, Repr

/-- The stream of the attribute at a position: positions past the last number share it. -/
def xattrStream (i : Nat) (x : Xattr) : StreamEntry :=
  { id := .xattr (if i < 2 ^ 16 then UInt16.ofNat i else 0xffff)
    name := some x.name
    size := UInt64.ofNat x.value.length
    residency := .resident (if x.value.length < 2 ^ 32 then UInt32.ofNat x.value.length else 0xffffffff)
    kind := .xattr }

/-- What a read of some bytes at an offset gives: none behind their end. -/
def readTail (content : Bytes) (off : UInt64) (len : Nat) : Bytes :=
  if off.toNat ≤ content.length then (content.drop off.toNat).take len else []

namespace ZfsFs

/-- The name of the pool. -/
def volumeLabel (fs : ZfsFs) : Option Bytes := fs.poolName

/-- The streams of a node: its content, and its extended attributes. -/
def dataStreams (Γ : Ctx) (fs : ZfsFs) (ino : FileId) : Run (Except ServeError (List StreamEntry)) :=
  match objectOf ino with
  | .error e => pure (.error e)
  | .ok obj => do
    let attrs ← fs.attrs Γ obj
    let xattrs ← listXattrs (fs.disk Γ) fs.zpl obj
    pure (.ok ({ id := .default, name := none, size := (attrs.map ZplAttrs.size).getD 0, residency := .nonResident, kind := .data } ::
      xattrs.mapIdx xattrStream))

/-- Up to `len` bytes of a stream, from an offset. -/
def readStreamAt (Γ : Ctx) (fs : ZfsFs) (ino : FileId) (stream : StreamId) (off : UInt64) (len : Nat) : Run (Except ServeError Bytes) :=
  match objectOf ino with
  | .error e => pure (.error e)
  | .ok obj =>
    match stream with
    | .xattr idx => do
      let all ← listXattrs (fs.disk Γ) fs.zpl obj
      match all[idx.toNat]? with
      | none =>
        pure (.error (.unsupported "zfs xattr index" ("attribute " ++ toString idx.toNat ++ " of " ++ toString all.length)))
      | some x => pure (.ok (readTail x.value off len))
    | .other _ => pure (.error (badStream stream))
    | .default => do
      match ← fs.content Γ obj with
      | .error e => pure (.error (.fs e))
      | .ok content => pure (.ok (readTail content off len))

/-- The runs of a stream: of the content only. -/
def streamExtents (Γ : Ctx) (fs : ZfsFs) (ino : FileId) (stream : StreamId) : Run (Except ServeError (List RunInfo)) :=
  if stream ≠ .default then pure (.error (badStream stream))
  else
    match objectOf ino with
    | .error e => pure (.error e)
    | .ok obj => do
      match ← fs.dnode Γ obj with
      | .error e => pure (.error (.fs e))
      | .ok dnode => pure (.ok ((l0Blkptrs (fs.disk Γ) dnode).map runInfo))

/-- The target of a link: the content of a symlink, cut at `cap`, and nothing of another node. -/
def readLink (Γ : Ctx) (fs : ZfsFs) (ino : FileId) (cap : Nat) : Run (Except ServeError Bytes) :=
  match objectOf ino with
  | .error e => pure (.error e)
  | .ok obj => do
    let attrs ← fs.attrs Γ obj
    if attrs.any (fun a => nodeKindFromMode a.mode == .symlink) then
      match ← fs.content Γ obj with
      | .error e => pure (.error (.fs e))
      | .ok target => pure (.ok (target.take cap))
    else pure (.ok [])

end ZfsFs

/-- The flag of a dnode with a spill block. -/
def dnodeFlagSpillBlkptr : UInt8 := (1 : UInt8) <<< (2 : UInt8)

/-- Whether attributes may stand in a spill block, which no reader here follows. -/
def hasUnreadSpillXattrs (disk : Disk) (zpl : ObjsetPhys) (objectId : UInt64) : Run Bool := do
  match ← mosDnode disk zpl objectId with
  | none => pure false
  | some dnode =>
    if dnode.dnFlags &&& dnodeFlagSpillBlkptr = 0 then pure false
    else
      let out ← saXattrs disk zpl dnode
      pure (out == [])

end ZfsForensic
