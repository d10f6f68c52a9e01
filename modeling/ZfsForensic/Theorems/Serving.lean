import ZfsForensic.Lemmas.Mount
import ZfsForensic.Serve
import ZfsForensic.Theorems.NoPanic

/-!
# The mount as it is served

A mount depends on what its source yields, not on how its reads are cut. Where every dnode a pool leads to has shifts that fit, no operation
of its mount stops a debug build. Every stream a listing names is read back by its id, as far as ids go.
-/

namespace ZfsForensic

open Octets Checked Checked.Run

/-! ## Sources -/

/-- A source that yields some bytes: it declares as many or more, a read inside them reports one or more of what follows, and a read at
their end reports none. -/
structure Source.Yields {ε : Type} (source : Source ε) (bytes : Bytes) : Prop where
  len : bytes.length ≤ source.len.toNat
  inside : ∀ off buf, off.toNat < bytes.length → buf ≠ [] → ∃ n out, source.readAt off buf = .ok (n, out) ∧ 0 < n ∧ n ≤ buf.length ∧
    off.toNat + n ≤ bytes.length ∧ out.take n = (bytes.drop off.toNat).take n
  atEnd : ∀ off buf, off.toNat = bytes.length → buf ≠ [] → ∃ out, source.readAt off buf = .ok (0, out)

section Sources

variable {ε : Type} {source : Source ε} {bytes : Bytes}

/-- The loop fills the buffer with what the source yields: the invariant is that what is filled is a prefix of it. -/
theorem readAllLoop_of_yields (h : source.Yields bytes) {fuel filled : Nat} {image : Bytes} (hlen : image.length = source.len.toNat)
    (hfilled : filled ≤ bytes.length) (himage : image.take filled = bytes.take filled) (hfuel : source.len.toNat ≤ filled + fuel) :
    ∃ image', readAllLoop source source.len.toNat fuel filled image = .ok (bytes.length, image') ∧
      image'.take bytes.length = bytes := by
  have hcap := h.len
  have hlt := source.len.toNat_lt
  induction fuel generalizing filled image with
  | zero =>
    have hall : filled = bytes.length := by omega
    refine ⟨image, by rw [readAllLoop, hall], ?_⟩
    rw [← hall, himage, hall, List.take_length]
  | succ fuel ih =>
    have hoff : (UInt64.ofNat filled).toNat = filled := by
      rw [UInt64.toNat_ofNat']
      omega
    have hfront : (image.take filled).length = filled := by
      rw [List.length_take]
      omega
    rw [readAllLoop]
    by_cases hroom : filled < source.len.toNat
    · have hbuf : image.drop filled ≠ [] := by
        rw [Ne, List.drop_eq_nil_iff]
        omega
      rw [if_pos hroom]
      by_cases hmore : filled < bytes.length
      · obtain ⟨n, out, hread, hpos, hn, hend, hout⟩ := h.inside _ _ (by rw [hoff]; exact hmore) hbuf
        have hlong := source.length_readAt _ _ _ _ hread
        rw [hoff] at hend hout
        rw [hread]
        dsimp only
        rw [if_neg (by omega), satAdd_eq (by omega)]
        refine ih ?_ hend ?_ (by omega)
        · rw [List.length_append, hfront, hlong, List.length_drop]
          omega
        · rw [List.take_append, hfront, Nat.add_sub_cancel_left, hout, List.take_take, Nat.min_eq_right (by omega), himage, ← List.take_add]
      · have hall : filled = bytes.length := by omega
        obtain ⟨out, hread⟩ := h.atEnd _ _ (by rw [hoff]; exact hall) hbuf
        rw [hread]
        dsimp only
        rw [if_pos rfl, hall]
        refine ⟨_, rfl, ?_⟩
        rw [← hall, List.take_append_of_le_length (by omega), List.take_of_length_le (by omega), himage, hall, List.take_length]
    · have hall : filled = bytes.length := by omega
      rw [if_neg hroom]
      refine ⟨image, by rw [hall], ?_⟩
      rw [← hall, himage, hall, List.take_length]

theorem readAll_of_yields (h : source.Yields bytes) : readAll source = .ok bytes := by
  obtain ⟨image, hloop, htake⟩ := @readAllLoop_of_yields ε source bytes h source.len.toNat 0 (zeros source.len.toNat)
    (length_zeros _) (Nat.zero_le _) (by rw [List.take_zero, List.take_zero]) (by omega)
  rw [readAll, hloop]
  dsimp only
  rw [htake]

/-- A source is mounted as the bytes it yields, whatever it declares and however short its reads are. -/
theorem openSource_of_yields (Γ : Ctx) (h : source.Yields bytes) :
    readAll source = .ok bytes ∧ (∀ fs, (ZfsFs.openSource Γ source).value = .ok fs ↔ (ZfsFs.open Γ bytes).value = .ok fs) ∧
      (∀ e, (ZfsFs.openSource Γ source).value = .error (.bootstrap e) ↔ (ZfsFs.open Γ bytes).value = .error e) ∧
      (ZfsFs.openSource Γ source).panics = (ZfsFs.open Γ bytes).panics := by
  have hall := readAll_of_yields h
  have hvalue : (ZfsFs.openSource Γ source).value = (ZfsFs.open Γ bytes).value.mapError .bootstrap := by
    rw [ZfsFs.openSource, hall]
    dsimp only
    rw [value_bind]
    cases (ZfsFs.open Γ bytes).value <;> rfl
  refine ⟨hall, fun fs => ?_, fun e => ?_, ?_⟩
  · rw [hvalue]
    cases (ZfsFs.open Γ bytes).value <;> simp [Except.mapError]
  · rw [hvalue]
    cases (ZfsFs.open Γ bytes).value <;> simp [Except.mapError]
  · rw [ZfsFs.openSource, hall]
    dsimp only
    rw [panics_bind]
    cases (ZfsFs.open Γ bytes).value <;> exact Bool.or_false _

end Sources

/-- A read that yields one byte of what is left, if any. -/
def slowRead (left buf : Bytes) : Nat × Bytes :=
  match left with
  | [] => (0, buf)
  | x :: _ => (min 1 buf.length, (x :: buf.drop 1).take buf.length)

theorem length_slowRead (left buf : Bytes) : (slowRead left buf).2.length = buf.length := by
  cases left with
  | nil => rfl
  | cons x xs =>
    rw [slowRead, List.length_take, List.length_cons, List.length_drop]
    omega

/-- A source of three bytes that declares four, and yields one a read. -/
def slowSource : Source Empty where
  len := 4
  readAt off buf := .ok (slowRead (([1, 2, 3] : Bytes).drop off.toNat) buf)
  length_readAt := by
    intro off buf n out h
    have hout : (slowRead (([1, 2, 3] : Bytes).drop off.toNat) buf).2 = out := congrArg Prod.snd (Except.ok.inj h)
    rw [← hout, length_slowRead]

theorem readAt_slowSource (off : UInt64) (buf : Bytes) :
    slowSource.readAt off buf = .ok (slowRead (([1, 2, 3] : Bytes).drop off.toNat) buf) := rfl

theorem yields_slowSource : slowSource.Yields [1, 2, 3] where
  len := by decide
  inside := by
    intro off buf hoff hbuf
    have hpos := List.length_pos_iff.2 hbuf
    obtain ⟨x, xs, hx⟩ := List.exists_cons_of_ne_nil (l := ([1, 2, 3] : Bytes).drop off.toNat)
      (by rw [Ne, List.drop_eq_nil_iff]; omega)
    refine ⟨1, (x :: buf.drop 1).take buf.length, ?_, Nat.one_pos, hpos, hoff, ?_⟩
    · rw [readAt_slowSource, hx, slowRead, Nat.min_eq_left hpos]
    · rw [hx, List.take_take, Nat.min_eq_left hpos]
      rfl
  atEnd := by
    intro off buf hoff hbuf
    have hnil : ([1, 2, 3] : Bytes).drop off.toNat = [] := List.drop_eq_nil_of_le (by rw [hoff])
    exact ⟨buf, by rw [readAt_slowSource, hnil, slowRead]⟩

/-- It is read whole. -/
theorem readAll_slowSource : readAll slowSource = .ok [1, 2, 3] := (openSource_of_yields plainCtx yields_slowSource).1

/-! ## Streams -/

theorem readTail_eq (content : Bytes) (off : UInt64) (len : Nat) : readTail content off len = (content.drop off.toNat).take len := by
  unfold readTail
  split
  · rfl
  · rw [List.drop_eq_nil_of_le (by omega), List.take_nil]

/-- A read of an attribute, by its number. -/
theorem ZfsFs.value_readStreamAt_xattr (Γ : Ctx) (fs : ZfsFs) (obj : UInt64) (idx : UInt16) (off : UInt64) (len : Nat) :
    (fs.readStreamAt Γ (.ofObject obj) (.xattr idx) off len).value =
      match (listXattrs (fs.disk Γ) fs.zpl obj).value[idx.toNat]? with
      | none => .error (.unsupported "zfs xattr index" ("attribute " ++ toString idx.toNat ++ " of " ++
          toString (listXattrs (fs.disk Γ) fs.zpl obj).value.length))
      | some x => .ok (readTail x.value off len) := by
  rw [readStreamAt, objectOf]
  dsimp only
  rw [value_bind]
  cases (listXattrs (fs.disk Γ) fs.zpl obj).value[idx.toNat]? <;> rfl

/-- A read of the content. -/
theorem ZfsFs.toOption_readStreamAt_default (Γ : Ctx) (fs : ZfsFs) (obj off : UInt64) (len : Nat) :
    (fs.readStreamAt Γ (.ofObject obj) .default off len).value.toOption = (fs.readAt Γ obj off len).value.toOption := by
  rw [readStreamAt, objectOf]
  dsimp only
  rw [value_bind, readAt, value_bind]
  cases (fs.content Γ obj).value with
  | error e => rfl
  | ok content =>
    dsimp only
    rw [value_pure, readTail]
    split <;> rfl

/-- The stream of a position reads the attribute of its number: that of the position, up to the last number. -/
theorem readStreamAt_xattrStream {Γ : Ctx} {fs : ZfsFs} {obj : UInt64} {xattrs : List Xattr}
    (hxattrs : (listXattrs (fs.disk Γ) fs.zpl obj).value = xattrs) {i : Nat} (x : Xattr) {y : Xattr}
    (hy : xattrs[min i 65535]? = some y) (off : UInt64) (len : Nat) :
    (fs.readStreamAt Γ (.ofObject obj) (xattrStream i x).id off len).value = .ok ((y.value.drop off.toNat).take len) := by
  have hnumber : (if i < 2 ^ 16 then UInt16.ofNat i else 0xffff).toNat = min i 65535 := by
    split
    · rw [UInt16.toNat_ofNat']
      omega
    · have hlast : (0xffff : UInt16).toNat = 65535 := rfl
      omega
  rw [xattrStream, ZfsFs.value_readStreamAt_xattr, hxattrs, hnumber, hy]
  dsimp only
  rw [readTail_eq]

/-- Every stream a listing names is read back by its id, at any offset: the content as it is, and an attribute whole, as long as it is one of
the first 65536. Behind them all streams have one number, and read as its attribute. A number without an attribute is refused. -/
theorem streams_read_back (Γ : Ctx) (fs : ZfsFs) (obj : UInt64) :
    ∃ (content : StreamEntry) (streams : List StreamEntry), (fs.dataStreams Γ (.ofObject obj)).value = .ok (content :: streams) ∧
      streams.length = (listXattrs (fs.disk Γ) fs.zpl obj).value.length ∧
      (∀ off len, (fs.readStreamAt Γ (.ofObject obj) content.id off len).value.toOption = (fs.readAt Γ obj off len).value.toOption) ∧
      (∀ i x s, (listXattrs (fs.disk Γ) fs.zpl obj).value[i]? = some x → streams[i]? = some s →
        s.name = some x.name ∧ s.size = UInt64.ofNat x.value.length ∧
        ∃ y, (listXattrs (fs.disk Γ) fs.zpl obj).value[min i 65535]? = some y ∧
          ∀ off len, (fs.readStreamAt Γ (.ofObject obj) s.id off len).value = .ok ((y.value.drop off.toNat).take len)) ∧
      ∀ idx : UInt16, (listXattrs (fs.disk Γ) fs.zpl obj).value.length ≤ idx.toNat → ∀ off len, ∃ scheme,
        (fs.readStreamAt Γ (.ofObject obj) (.xattr idx) off len).value = .error (.unsupported "zfs xattr index" scheme) := by
  refine ⟨{ id := .default, name := none, size := ((fs.attrs Γ obj).value.map ZplAttrs.size).getD 0, residency := .nonResident, kind := .data },
    (listXattrs (fs.disk Γ) fs.zpl obj).value.mapIdx xattrStream, ?_, List.length_mapIdx, fun off len => ?_, fun i x s hx hs => ?_,
    fun idx hidx off len => ?_⟩
  · rw [ZfsFs.dataStreams, objectOf]
    dsimp only
    rw [value_bind, value_bind, value_pure]
  · exact fs.toOption_readStreamAt_default Γ obj off len
  · rw [List.getElem?_mapIdx, hx, Option.map_some, Option.some.injEq] at hs
    obtain ⟨y, hy⟩ : ∃ y, (listXattrs (fs.disk Γ) fs.zpl obj).value[min i 65535]? = some y :=
      ⟨_, List.getElem?_eq_getElem (Nat.lt_of_le_of_lt (Nat.min_le_left i 65535) (List.getElem?_eq_some_iff.1 hx).1)⟩
    rw [← hs]
    exact ⟨rfl, rfl, y, hy, fun off len => readStreamAt_xattrStream rfl x hy off len⟩
  · rw [ZfsFs.value_readStreamAt_xattr, List.getElem?_eq_none hidx]
    exact ⟨_, rfl⟩

/-! ## Panic freedom -/

section Fits

variable {disk : Disk} {os : ObjsetPhys} (hos : os.Fits disk)

include hos

theorem saXattrs_panics_of_fits (dnode : Dnode) : (saXattrs disk os dnode).panics = false := by
  refine panics_bind_eq_false (zplSaContext_panics_of_fits hos) fun r _ => ?_
  cases r with
  | none => rfl
  | some context =>
    dsimp only
    split <;> rfl

theorem xattrFiles_panics_of_fits (entries : List (Bytes × UInt64)) : (xattrFiles disk os entries).panics = false := by
  induction entries with
  | nil => rfl
  | cons entry entries ih =>
    obtain ⟨name, obj⟩ := entry
    refine panics_bind_eq_false (zplReadFile_panics_of_fits hos obj) fun content _ => ?_
    refine panics_bind_eq_false ih fun rest _ => ?_
    cases content <;> rfl

theorem dirXattrs_panics_of_fits (dnode : Dnode) : (dirXattrs disk os dnode).panics = false := by
  refine panics_bind_eq_false (zplSaContext_panics_of_fits hos) fun r _ => ?_
  cases r with
  | none => rfl
  | some context =>
    dsimp only
    split
    · rfl
    · exact panics_bind_eq_false (zplListDir_panics_of_fits hos _) fun entries _ => xattrFiles_panics_of_fits hos entries

theorem listXattrs_panics_of_fits (id : UInt64) : (listXattrs disk os id).panics = false := by
  refine panics_bind_eq_false (mosDnode_panics_of_fits hos id) fun r _ => ?_
  cases r with
  | none => rfl
  | some dnode =>
    refine panics_bind_eq_false (saXattrs_panics_of_fits hos dnode) fun out _ => ?_
    split
    · exact dirXattrs_panics_of_fits hos dnode
    · rfl

theorem hasUnreadSpillXattrs_panics_of_fits (id : UInt64) : (hasUnreadSpillXattrs disk os id).panics = false := by
  refine panics_bind_eq_false (mosDnode_panics_of_fits hos id) fun r _ => ?_
  cases r with
  | none => rfl
  | some dnode =>
    dsimp only
    split
    · rfl
    · exact panics_bind_eq_false (saXattrs_panics_of_fits hos dnode) fun out _ => rfl

theorem zplDescend_panics_of_fits (components : List Bytes) (id : UInt64) : (zplDescend disk os components id).panics = false := by
  induction components generalizing id with
  | nil => rfl
  | cons component components ih =>
    have hchild : (zplChild disk os id component).panics = false :=
      panics_bind_eq_false (zplListDir_panics_of_fits hos id) fun children _ => rfl
    refine panics_bind_eq_false hchild fun r _ => ?_
    cases r with
    | none => rfl
    | some child => exact ih child

theorem zplLookup_panics_of_fits (path : Bytes) : (zplLookup disk os path).panics = false := by
  refine panics_bind_eq_false (zplMasterRoot_panics_of_fits hos) fun r _ => ?_
  cases r with
  | none => rfl
  | some rootId =>
    refine panics_bind_eq_false (zplSaContext_panics_of_fits hos) fun r _ => ?_
    cases r with
    | none => rfl
    | some context =>
      refine panics_bind_eq_false (zplDescend_panics_of_fits hos _ _) fun r _ => ?_
      cases r with
      | none => rfl
      | some current => exact panics_bind_eq_false (zplAttrs_panics_of_fits hos _ _ _) fun attrs _ => rfl

theorem zplReadPath_panics_of_fits (path : Bytes) : (zplReadPath disk os path).panics = false := by
  refine panics_bind_eq_false (zplLookup_panics_of_fits hos path) fun r _ => ?_
  cases r with
  | none => rfl
  | some found => exact zplReadFileWith_panics_of_fits hos _ _

end Fits

section Mounted

variable {Γ : Ctx} {fs : ZfsFs} (hfs : fs.zpl.Fits (fs.disk Γ))

include hfs

theorem ZfsFs.dnode_panics_of_fits (obj : UInt64) : (fs.dnode Γ obj).panics = false := by
  refine panics_bind_eq_false (mosDnode_panics_of_fits hfs obj) fun r _ => ?_
  cases r <;> rfl

theorem ZfsFs.attrs_panics_of_fits (obj : UInt64) : (fs.attrs Γ obj).panics = false := zplAttrs_panics_of_fits hfs _ _ obj

theorem ZfsFs.content_panics_of_fits (obj : UInt64) : (fs.content Γ obj).panics = false := by
  refine panics_bind_eq_false (fs.attrs_panics_of_fits hfs obj) fun attrs _ => ?_
  refine panics_bind_eq_false (zplReadFileWith_panics_of_fits hfs obj _) fun r _ => ?_
  cases r <;> rfl

theorem ZfsFs.dirEntries_panics_of_fits (obj : UInt64) : (fs.dirEntries Γ obj).panics = false := by
  refine panics_bind_eq_false (mosDnode_panics_of_fits hfs obj) fun r hr => ?_
  cases r with
  | none => rfl
  | some dnode =>
    refine panics_bind_eq_false (readZapObject_panics_of_fit _ (hfs.2 obj dnode hr)) fun r _ => ?_
    cases r <;> rfl

theorem ZfsFs.getMeta_panics_of_fits (id : UInt64) : (fs.getMeta Γ id).panics = false := by
  refine panics_bind_eq_false (fs.dnode_panics_of_fits hfs id) fun r _ => ?_
  cases r with
  | error e => rfl
  | ok dnode => exact panics_bind_eq_false (fs.attrs_panics_of_fits hfs id) fun attrs _ => rfl

theorem ZfsFs.lookup_panics_of_fits (id : UInt64) (name : Bytes) : (fs.lookup Γ id name).panics = false := by
  refine panics_bind_eq_false (fs.dirEntries_panics_of_fits hfs id) fun r _ => ?_
  cases r <;> rfl

theorem ZfsFs.readAt_panics_of_fits (id off : UInt64) (len : Nat) : (fs.readAt Γ id off len).panics = false := by
  refine panics_bind_eq_false (fs.content_panics_of_fits hfs id) fun r _ => ?_
  cases r with
  | error e => rfl
  | ok content =>
    dsimp only
    split <;> rfl

theorem ZfsFs.extents_panics_of_fits (id : UInt64) : (fs.extents Γ id).panics = false := by
  refine panics_bind_eq_false (fs.dnode_panics_of_fits hfs id) fun r _ => ?_
  cases r <;> rfl

/-! The adapter checks an id and a stream before it reads: what it refuses, it refuses at once. -/

theorem ZfsFs.dataStreams_panics_of_fits (ino : FileId) : (fs.dataStreams Γ ino).panics = false := by
  cases ino with
  | other debug => rfl
  | ofObject obj =>
    refine panics_bind_eq_false (fs.attrs_panics_of_fits hfs obj) fun attrs _ => ?_
    exact panics_bind_eq_false (listXattrs_panics_of_fits hfs obj) fun xattrs _ => rfl

theorem ZfsFs.readStreamAt_panics_of_fits (ino : FileId) (stream : StreamId) (off : UInt64) (len : Nat) :
    (fs.readStreamAt Γ ino stream off len).panics = false := by
  cases ino with
  | other debug => rfl
  | ofObject obj =>
    cases stream with
    | default =>
      refine panics_bind_eq_false (fs.content_panics_of_fits hfs obj) fun r _ => ?_
      cases r <;> rfl
    | xattr idx =>
      refine panics_bind_eq_false (listXattrs_panics_of_fits hfs obj) fun all _ => ?_
      split <;> rfl
    | other debug => rfl

theorem ZfsFs.streamExtents_panics_of_fits (ino : FileId) (stream : StreamId) : (fs.streamExtents Γ ino stream).panics = false := by
  unfold ZfsFs.streamExtents
  cases ino with
  | other debug => split <;> rfl
  | ofObject obj =>
    split
    · rfl
    · refine panics_bind_eq_false (fs.dnode_panics_of_fits hfs obj) fun r _ => ?_
      cases r <;> rfl

theorem ZfsFs.readLink_panics_of_fits (ino : FileId) (cap : Nat) : (fs.readLink Γ ino cap).panics = false := by
  cases ino with
  | other debug => rfl
  | ofObject obj =>
    refine panics_bind_eq_false (fs.attrs_panics_of_fits hfs obj) fun attrs _ => ?_
    split
    · refine panics_bind_eq_false (fs.content_panics_of_fits hfs obj) fun r _ => ?_
      cases r <;> rfl
    · rfl

end Mounted

/-- The object set of a mount is one its pool leads to. -/
theorem opened_of_open {Γ : Ctx} {image : Bytes} {fs : ZfsFs} (hopen : (ZfsFs.open Γ image).value = .ok fs) :
    Opened Γ image fs.zpl := by
  unfold ZfsFs.open at hopen
  split at hopen
  · exact absurd hopen (by simp)
  · rename_i ub hub
    dsimp only at hopen
    split at hopen
    · exact absurd hopen (by simp)
    · rename_i block hblock
      split at hopen
      · exact absurd hopen (by simp)
      · rename_i mos hparse
        have hmos : Opened Γ image mos := .newest hub hblock hparse
        rw [value_bind] at hopen
        split at hopen
        · exact absurd hopen (by simp)
        · rename_i zpl hzpl
          rw [zplObjset, value_bind] at hzpl
          cases hds : (headDataset (readBlock Γ image) mos).value with
          | none =>
            rw [hds] at hzpl
            exact absurd hzpl (by simp)
          | some ds =>
            rw [hds] at hzpl
            obtain ⟨id, hid⟩ := headDataset_eq_mosDnode hds
            rw [(ZfsFs.of_openDataset hopen).2.1]
            exact .dataset hmos hid hzpl

/-- Where every dnode a pool leads to has shifts that fit, no operation of its mount stops a debug build: not on any id, of any scheme, any
stream, offset, name or path. -/
theorem serving_runs_through {Γ : Ctx} {image : Bytes} {fs : ZfsFs} (hpool : PoolFits Γ image)
    (hopen : (ZfsFs.open Γ image).value = .ok fs) :
    (∀ id, (fs.getMeta Γ id).panics = false ∧ (fs.readDir Γ id).panics = false ∧ (∀ name, (fs.lookup Γ id name).panics = false) ∧
        (∀ off len, (fs.readAt Γ id off len).panics = false) ∧ (fs.extents Γ id).panics = false ∧
        (hasUnreadSpillXattrs (fs.disk Γ) fs.zpl id).panics = false) ∧
      (∀ ino, (fs.dataStreams Γ ino).panics = false ∧ (∀ stream off len, (fs.readStreamAt Γ ino stream off len).panics = false) ∧
        (∀ stream, (fs.streamExtents Γ ino stream).panics = false) ∧ ∀ cap, (fs.readLink Γ ino cap).panics = false) ∧
      ∀ path, (zplLookup (fs.disk Γ) fs.zpl path).panics = false ∧ (zplReadPath (fs.disk Γ) fs.zpl path).panics = false := by
  have hfs : fs.zpl.Fits (fs.disk Γ) := by
    rw [ZfsFs.disk_of_open hopen]
    exact hpool _ (opened_of_open hopen)
  refine ⟨fun id => ⟨fs.getMeta_panics_of_fits hfs id, fs.dirEntries_panics_of_fits hfs id, fs.lookup_panics_of_fits hfs id,
    fs.readAt_panics_of_fits hfs id, fs.extents_panics_of_fits hfs id, hasUnreadSpillXattrs_panics_of_fits hfs id⟩, fun ino => ?_,
    fun path => ⟨zplLookup_panics_of_fits hfs path, zplReadPath_panics_of_fits hfs path⟩⟩
  exact ⟨fs.dataStreams_panics_of_fits hfs ino, fs.readStreamAt_panics_of_fits hfs ino, fs.streamExtents_panics_of_fits hfs ino,
    fs.readLink_panics_of_fits hfs ino⟩

end ZfsForensic
