import ZfsForensic.Lib.Run
import ZfsForensic.Lib.Utf8

/-!
# Errors, the context, and the byte readers

`ZfsError` is the error type of the reader. `Ctx` holds the third-party decoders and the digest the crates call; it is the only
code of the model that is not in the repository. The readers yield zero out of range, so a truncated image reads as zeros and
never fails.

A size or an offset (`usize`, on a 64-bit target) is a natural number; a field keeps the width the source gives it.
-/

namespace ZfsForensic

export Octets (Bytes Endian)

open Octets

/-- What the reader reports: every case names the offending value. -/
inductive ZfsError where
  | truncated (structure_ : String) (need have_ : Nat)
  | noUberblock (scanned : Nat)
  | badNvlistEncoding (encoding : UInt8) (offset : Nat)
  | nvlistBomb (field : String) (value cap : Nat)
  | allocationBomb (field : String) (value cap : Nat)
  | decompress (codec reason : String)
  | unsupportedCompression (value : UInt8)
  | outOfRange (what : String) (value max : Nat)
deriving DecidableEq, Repr

/-- The third-party code the crates call: the LZ4 block decoder, the zlib and zstd readers cut at a length, and SHA-256. -/
structure Ctx where
  /-- `lz4_flex::block::decompress(block, n)`. -/
  lz4Decompress : Bytes → Nat → Option Bytes
  /-- `flate2::read::ZlibDecoder::new(src).take(n).read_to_end`. -/
  zlibRead : Bytes → Nat → Option Bytes
  /-- Whether `ruzstd::decoding::StreamingDecoder::new(frame)` accepts the frame header. -/
  zstdNew : Bytes → Bool
  /-- The accepted zstd reader's `take(n).read_to_end`. -/
  zstdRead : Bytes → Nat → Option Bytes
  /-- `sha2::Sha256::digest`. -/
  sha256Digest : Bytes → Vector UInt8 32

/-- The lz4 decoder returns at most the length it is given. -/
def Ctx.Bounded (Γ : Ctx) : Prop := ∀ block n out, Γ.lz4Decompress block n = some out → out.length ≤ n

/-! ## Readers -/

/-- Read a little-endian `u16` at `off`, or `0` if out of range. -/
def leU16 (data : Bytes) (off : Nat) : UInt16 := UInt16.ofNat (readUint .little 2 data off)

/-- Read a little-endian `u32` at `off`, or `0` if out of range. -/
def leU32 (data : Bytes) (off : Nat) : UInt32 := UInt32.ofNat (readUint .little 4 data off)

/-- Read a little-endian `u64` at `off`, or `0` if out of range. -/
def leU64 (data : Bytes) (off : Nat) : UInt64 := UInt64.ofNat (readUint .little 8 data off)

/-- Read a big-endian `u16` at `off`, or `0` if out of range. -/
def beU16 (data : Bytes) (off : Nat) : UInt16 := UInt16.ofNat (readUint .big 2 data off)

/-- Read a big-endian `u32` at `off`, or `0` if out of range. -/
def beU32 (data : Bytes) (off : Nat) : UInt32 := UInt32.ofNat (readUint .big 4 data off)

/-- Read a big-endian `u64` at `off`, or `0` if out of range. -/
def beU64 (data : Bytes) (off : Nat) : UInt64 := UInt64.ofNat (readUint .big 8 data off)

/-- Read a single byte at `off`, or `0` if out of range. -/
def u8At (data : Bytes) (off : Nat) : UInt8 := data[off]?.getD 0

/-- A reader in the byte order the on-disk data declared. -/
structure Reader where
  endian : Endian
deriving DecidableEq, Repr

/-- Read a `u16` at `off` in this reader's byte order. -/
def Reader.u16 (rd : Reader) (data : Bytes) (off : Nat) : UInt16 :=
  match rd.endian with
  | .little => leU16 data off
  | .big => beU16 data off

/-- Read a `u64` at `off` in this reader's byte order. -/
def Reader.u64 (rd : Reader) (data : Bytes) (off : Nat) : UInt64 :=
  match rd.endian with
  | .little => leU64 data off
  | .big => beU64 data off

theorem Reader.u16_eq (e : Endian) (data : Bytes) (off : Nat) :
    (Reader.mk e).u16 data off = UInt16.ofNat (readUint e 2 data off) := by
  cases e <;> rfl

theorem Reader.u64_eq (e : Endian) (data : Bytes) (off : Nat) :
    (Reader.mk e).u64 data off = UInt64.ofNat (readUint e 8 data off) := by
  cases e <;> rfl

/-! ## Results -/

theorem exists_of_map_eq_ok {α β : Type} {x : Except ZfsError α} {f : α → β} {b : β} (h : x.map f = .ok b) :
    ∃ a, x = .ok a ∧ f a = b := by
  cases x with
  | error e => exact absurd h (by simp [Except.map])
  | ok a =>
    simp only [Except.map, Except.ok.injEq] at h
    exact ⟨a, rfl, h⟩

theorem toOption_eq_ok {ε α : Type} {x : Except ε α} {a : α} (h : x.toOption = some a) : x = .ok a := by
  cases x with
  | error e => exact absurd h (by simp [Except.toOption])
  | ok b => rw [Option.some.inj h]

end ZfsForensic
