import ZfsForensic.Blkptr

/-!
# Block decompression

A block's codec takes its on-disk bytes to exactly `lsize` logical bytes. lzjb and zle are the crate's own; lz4, gzip and zstd
frame their input here and call a third-party decoder of the context.

A loop over the source takes at least one byte a turn, so `src.length + 1` turns are enough; the turn that finds no byte left
is the error of the source.
-/

namespace ZfsForensic

open Octets Checked

/-- The compression function of a block pointer (`zio_compress`). -/
inductive CompressType where
  | inherit
  | on
  | off
  | lzjb
  | empty
  | gzip (v : UInt8)
  | zle
  | lz4
  | zstd
  | other (v : UInt8)
deriving DecidableEq, Repr

/-- Map a raw on-disk value to a compression function. -/
def CompressType.fromRaw (v : UInt8) : CompressType :=
  if v = 0 then .inherit
  else if v = 1 then .on
  else if v = 2 then .off
  else if v = 3 then .lzjb
  else if v = 4 then .empty
  else if 5 ≤ v ∧ v ≤ 13 then .gzip v
  else if v = 14 then .zle
  else if v = 15 then .lz4
  else if v = 16 then .zstd
  else .other v

/-- `out.resize(n, 0)`: cut at `n` bytes, or filled up with zeros to `n`. -/
def resize (out : Bytes) (n : Nat) : Bytes := out.take n ++ zeros (n - out.length)

/-- Uncompressed: copy the first `lsize` bytes, filled up with zeros if `src` is shorter. -/
def decompressOff (src : Bytes) (lsize : Nat) : Bytes :=
  let n := min src.length lsize
  src.take n ++ zeros (lsize - n)

/-- LZ4 behind a four-byte big-endian length prefix. -/
def decompressLz4 (Γ : Ctx) (src : Bytes) (lsize : Nat) : Except ZfsError Bytes :=
  if src.length < 4 then .error (.decompress "lz4" "input shorter than the 4-byte length prefix")
  else
    let clen := (beU32 src 0).toNat
    match slice? src 4 (satAdd 4 clen) with
    | none => .error (.decompress "lz4" "declared compressed length exceeds the input")
    | some block =>
      match Γ.lz4Decompress block lsize with
      | none => .error (.decompress "lz4" "malformed LZ4 stream or output overrun")
      | some out => .ok out

/-- zlib, read up to `lsize` bytes and filled up with zeros. -/
def decompressGzip (Γ : Ctx) (src : Bytes) (lsize : Nat) : Except ZfsError Bytes :=
  match Γ.zlibRead src lsize with
  | none => .error (.decompress "gzip" "malformed zlib/DEFLATE stream")
  | some out => .ok (resize out lsize)

/-- zstd behind an eight-byte header, read up to `lsize` bytes and filled up with zeros. -/
def decompressZstd (Γ : Ctx) (src : Bytes) (lsize : Nat) : Except ZfsError Bytes :=
  match slice? src 8 src.length with
  | none => .error (.decompress "zstd" "input shorter than the 8-byte zfs_zstd header")
  | some frame =>
    if !Γ.zstdNew frame then .error (.decompress "zstd" "bad zstd frame header")
    else
      match Γ.zstdRead frame lsize with
      | none => .error (.decompress "zstd" "malformed zstd frame")
      | some out => .ok (resize out lsize)

/-! ## lzjb -/

/-- Copy `mlen` bytes of the output from `pos` on, one at a time, so that a match may overlap its own output. -/
def lzjbCopy (lsize : Nat) : Nat → Nat → Bytes → Except ZfsError Bytes
  | 0, _, out => .ok out
  | mlen + 1, pos, out =>
    if lsize ≤ out.length then .ok out
    else
      match out[pos]? with
      | none => .error (.decompress "lzjb" "back-reference reads past written output")
      | some byte => lzjbCopy lsize mlen (pos + 1) (out ++ [byte])

/-- One item, once its copymap bit is known: a back-reference or a literal byte. Returns the new source index and output. -/
def lzjbItem (src : Bytes) (lsize : Nat) (isMatch : Bool) (si : Nat) (out : Bytes) : Except ZfsError (Nat × Bytes) :=
  if isMatch then
    match src[si]? with
    | none => .error (.decompress "lzjb" "truncated match control byte 0")
    | some b0 =>
      match src[si + 1]? with
      | none => .error (.decompress "lzjb" "truncated match control byte 1")
      | some b1 =>
        let mlen := (b0.toNat >>> 2) + 3
        let offset := ((b0.toNat <<< 8) ||| b1.toNat) &&& 0x3ff
        if out.length < offset then .error (.decompress "lzjb" "back-reference before start of output")
        else (lzjbCopy lsize mlen (out.length - offset) out).map (fun out => (si + 2, out))
  else
    match src[si]? with
    | none => .error (.decompress "lzjb" "truncated literal byte")
    | some byte => .ok (si + 1, out ++ [byte])

/-- The loop of lzjb: a copymap byte gates the eight items after it. -/
def lzjbLoop (src : Bytes) (lsize : Nat) : Nat → Nat → UInt8 → Nat → Bytes → Except ZfsError Bytes
  | 0, _, _, _, _ => .error (.decompress "lzjb" "truncated copymap byte")
  | fuel + 1, si, copymap, copymask, out =>
    if lsize ≤ out.length then .ok out
    else if copymask <<< 1 = 1 <<< 8 then
      match src[si]? with
      | none => .error (.decompress "lzjb" "truncated copymap byte")
      | some map =>
        match lzjbItem src lsize (map.toNat &&& 1 != 0) (si + 1) out with
        | .error e => .error e
        | .ok (si, out) => lzjbLoop src lsize fuel si map 1 out
    else
      match lzjbItem src lsize (copymap.toNat &&& (copymask <<< 1) != 0) si out with
      | .error e => .error e
      | .ok (si, out) => lzjbLoop src lsize fuel si copymap (copymask <<< 1) out

/-- LZJB: the first turn loads a copymap, since the mask starts at its last bit. -/
def decompressLzjb (src : Bytes) (lsize : Nat) : Except ZfsError Bytes :=
  lzjbLoop src lsize (src.length + 1) 0 0 (1 <<< 7) []

/-! ## zle -/

/-- The loop of zle: a control byte below `0x80` is a run of literals, one above a run of zeros. -/
def zleLoop (src : Bytes) (lsize : Nat) : Nat → Nat → Bytes → Except ZfsError Bytes
  | 0, _, _ => .error (.decompress "zle" "truncated control byte")
  | fuel + 1, si, out =>
    if lsize ≤ out.length then .ok out
    else
      match src[si]? with
      | none => .error (.decompress "zle" "truncated control byte")
      | some ctrl =>
        if ctrl &&& 0x80 = 0 then
          let run := ctrl.toNat + 1
          match slice? src (si + 1) (si + 1 + run) with
          | none => .error (.decompress "zle" "literal run exceeds input")
          | some bytes => zleLoop src lsize fuel (si + 1 + run) (out ++ bytes.take (lsize - out.length))
        else
          let run := (ctrl - 0x80).toNat + 1 + 63
          zleLoop src lsize fuel (si + 1) (out ++ zeros (min run (lsize - out.length)))

/-- ZLE: runs of literals and of zeros. -/
def decompressZle (src : Bytes) (lsize : Nat) : Except ZfsError Bytes :=
  zleLoop src lsize (src.length + 1) 0 []

/-- Decompress `src` to `lsize` logical bytes. -/
def decompress (Γ : Ctx) (kind : CompressType) (src : Bytes) (lsize : Nat) : Except ZfsError Bytes :=
  match kind with
  | .off => .ok (decompressOff src lsize)
  | .lzjb => decompressLzjb src lsize
  | .lz4 => decompressLz4 Γ src lsize
  | .gzip _ | .on => decompressGzip Γ src lsize
  | .zle => decompressZle src lsize
  | .zstd => decompressZstd Γ src lsize
  | .empty => .ok (zeros lsize)
  | .inherit => .error (.unsupportedCompression 0)
  | .other v => .error (.unsupportedCompression v)

@[simp] theorem length_decompressOff (src : Bytes) (lsize : Nat) : (decompressOff src lsize).length = lsize := by
  simp only [decompressOff, List.length_append, List.length_take, List.length_replicate]
  omega

/-- Uncompressed bytes of the declared length are themselves. -/
theorem decompressOff_eq_self {src : Bytes} {lsize : Nat} (h : src.length = lsize) : decompressOff src lsize = src := by
  subst h
  simp [decompressOff]

/-! ## Lengths

Every codec of the crate, and every one it frames but lz4, ends at exactly `lsize` bytes: the loops stop at the first length that
reaches it, and no step runs past it.
-/

theorem length_resize (out : Bytes) (n : Nat) : (resize out n).length = n := by
  rw [resize, List.length_append, List.length_take, length_zeros]
  omega

theorem length_lzjbCopy {lsize mlen pos : Nat} {out res : Bytes} (h : lzjbCopy lsize mlen pos out = .ok res)
    (hle : out.length ≤ lsize) : res.length ≤ lsize := by
  induction mlen generalizing pos out with
  | zero =>
    rw [lzjbCopy, Except.ok.injEq] at h
    rwa [← h]
  | succ mlen ih =>
    rw [lzjbCopy] at h
    split at h
    · rw [Except.ok.injEq] at h
      rwa [← h]
    · split at h
      · exact absurd h (by simp)
      · refine ih h ?_
        rw [List.length_append, List.length_singleton]
        omega

theorem length_lzjbItem {src : Bytes} {lsize si : Nat} {isMatch : Bool} {out : Bytes} {r : Nat × Bytes}
    (h : lzjbItem src lsize isMatch si out = .ok r) (hlt : out.length < lsize) : r.2.length ≤ lsize := by
  unfold lzjbItem at h
  split at h
  · split at h
    · exact absurd h (by simp)
    · split at h
      · exact absurd h (by simp)
      · dsimp only at h
        split at h
        · exact absurd h (by simp)
        · obtain ⟨res, hcopy, hr⟩ := exists_of_map_eq_ok h
          rw [← hr]
          exact length_lzjbCopy hcopy (Nat.le_of_lt hlt)
  · split at h
    · exact absurd h (by simp)
    · simp only [Except.ok.injEq] at h
      rw [← h, List.length_append, List.length_singleton]
      exact hlt

theorem length_lzjbLoop {src : Bytes} {lsize fuel si : Nat} {copymap : UInt8} {copymask : Nat} {out res : Bytes}
    (h : lzjbLoop src lsize fuel si copymap copymask out = .ok res) (hle : out.length ≤ lsize) : res.length = lsize := by
  induction fuel generalizing si copymap copymask out with
  | zero => exact absurd h (by simp [lzjbLoop])
  | succ fuel ih =>
    rw [lzjbLoop] at h
    split at h
    · rw [Except.ok.injEq] at h
      rw [← h]
      omega
    · rename_i hlt
      split at h
      · split at h
        · exact absurd h (by simp)
        · split at h
          · exact absurd h (by simp)
          · rename_i hitem
            exact ih h (length_lzjbItem hitem (Nat.lt_of_not_le hlt))
      · split at h
        · exact absurd h (by simp)
        · rename_i hitem
          exact ih h (length_lzjbItem hitem (Nat.lt_of_not_le hlt))

theorem length_zleLoop {src : Bytes} {lsize fuel si : Nat} {out res : Bytes}
    (h : zleLoop src lsize fuel si out = .ok res) (hle : out.length ≤ lsize) : res.length = lsize := by
  induction fuel generalizing si out with
  | zero => exact absurd h (by simp [zleLoop])
  | succ fuel ih =>
    rw [zleLoop] at h
    split at h
    · rw [Except.ok.injEq] at h
      rw [← h]
      omega
    · split at h
      · exact absurd h (by simp)
      · split at h
        · dsimp only at h
          split at h
          · exact absurd h (by simp)
          · refine ih h ?_
            rw [List.length_append, List.length_take]
            omega
        · refine ih h ?_
          rw [List.length_append, length_zeros]
          omega

/-- A block decompresses to its declared length, unless its codec is lz4, where the decoder of the context decides. -/
theorem length_decompress {Γ : Ctx} {kind : CompressType} {src : Bytes} {lsize : Nat} {out : Bytes}
    (h : decompress Γ kind src lsize = .ok out) (hkind : kind ≠ .lz4) : out.length = lsize := by
  have hgzip : decompressGzip Γ src lsize = .ok out → out.length = lsize := by
    intro h
    unfold decompressGzip at h
    split at h
    · exact absurd h (by simp)
    · rw [Except.ok.injEq] at h
      rw [← h, length_resize]
  cases kind with
  | inherit => exact absurd h (by simp [decompress])
  | on => exact hgzip h
  | off =>
    rw [decompress, Except.ok.injEq] at h
    rw [← h, length_decompressOff]
  | lzjb => exact length_lzjbLoop h (Nat.zero_le _)
  | empty =>
    rw [decompress, Except.ok.injEq] at h
    rw [← h, length_zeros]
  | gzip v => exact hgzip h
  | zle => exact length_zleLoop h (Nat.zero_le _)
  | lz4 => exact absurd rfl hkind
  | zstd =>
    rw [decompress] at h
    unfold decompressZstd at h
    split at h
    · exact absurd h (by simp)
    · split at h
      · exact absurd h (by simp)
      · split at h
        · exact absurd h (by simp)
        · rw [Except.ok.injEq] at h
          rw [← h, length_resize]
  | other v => exact absurd h (by simp [decompress])

/-- With a decoder that keeps to its length, no block decompresses to more than its declared length. -/
theorem length_decompress_le {Γ : Ctx} (hΓ : Γ.Bounded) {kind : CompressType} {src : Bytes} {lsize : Nat} {out : Bytes}
    (h : decompress Γ kind src lsize = .ok out) : out.length ≤ lsize := by
  by_cases hkind : kind = .lz4
  · subst hkind
    simp only [decompress, decompressLz4] at h
    split at h
    · exact absurd h (by simp)
    · split at h
      · exact absurd h (by simp)
      · rename_i block hblock
        split at h
        · exact absurd h (by simp)
        · rename_i hout
          rw [Except.ok.injEq] at h
          rw [← h]
          exact hΓ block lsize _ hout
  · exact Nat.le_of_eq (length_decompress h hkind)

end ZfsForensic
