import ZfsForensic.Basic

/-!
# Block pointers

The 128-byte `blkptr_t`: up to three ditto DVAs, the packed `blk_prop` word, the births, the fill count and the 256-bit
checksum. An embedded pointer carries its payload inline and has no DVA.
-/

namespace ZfsForensic

open Octets Checked

/-- The 4 MiB skew that skips the two front vdev labels and the boot block. -/
def bootSkew : UInt64 := 0x00400000

/-- The bytes of inline payload an embedded pointer carries. -/
def bpePayloadSize : Nat := 112

/-- The size of one block pointer. -/
def blkptrSize : Nat := 128

/-- A Data Virtual Address: one ditto copy a block pointer records. -/
structure Dva where
  vdev : UInt32
  asizeSectors : UInt32
  offsetSectors : UInt64
  gang : Bool
deriving DecidableEq, Repr, Inhabited

/-- The raw byte offset of a DVA on its vdev: `(offset_sectors << 9) + 0x400000`, the sum saturating. The shift drops the bits
that leave the word. -/
def Dva.physicalByteOffset (d : Dva) : UInt64 := satAddU64 (d.offsetSectors <<< 9) bootSkew

/-- Whether this DVA is unused. The gang flag is not part of the test. -/
def Dva.isEmpty (d : Dva) : Bool := d.vdev == 0 && d.asizeSectors == 0 && d.offsetSectors == 0

/-- Decode a 16-byte DVA at `off` within `bp`. -/
def Dva.parse (rd : Reader) (bp : Bytes) (off : Nat) : Dva :=
  let w0 := rd.u64 bp off
  let w1 := rd.u64 bp (off + 8)
  { vdev := ((w0 >>> 32) &&& 0x00ffffff).toUInt32
    asizeSectors := (w0 &&& 0x00ffffff).toUInt32
    offsetSectors := w1 &&& 0x7fffffffffffffff
    gang := (w1 >>> 63) &&& 1 == 1 }

/-- A fully decoded 128-byte block pointer. -/
structure Blkptr where
  dvas : Vector Dva 3
  lsizeRaw : UInt32
  psizeRaw : UInt32
  compression : UInt8
  embedded : Bool
  checksum : UInt8
  objectType : UInt8
  level : UInt8
  dedup : Bool
  byteorder : Endian
  logicalBirth : UInt64
  fill : UInt64
  checksumWords : Vector UInt64 4
  embeddedLsize : UInt32
  embeddedPsize : UInt32
  embeddedPayload : Vector UInt8 112
deriving DecidableEq, Repr, Inhabited

/-- The inline payload of an embedded pointer: its first `embedded_psize` bytes. Empty for a pointer that is not embedded. -/
def Blkptr.embeddedData (bp : Blkptr) : Bytes :=
  if bp.embedded then bp.embeddedPayload.toList.take (min bp.embeddedPsize.toNat bpePayloadSize) else []

/-- Logical size in bytes: `(lsize_raw + 1) << 9`, or the inline size of an embedded pointer. -/
def Blkptr.lsizeBytes (bp : Blkptr) : Nat :=
  if bp.embedded then bp.embeddedLsize.toNat else (bp.lsizeRaw.toNat + 1) <<< 9

/-- Physical size in bytes: `(psize_raw + 1) << 9`, or the inline size of an embedded pointer. -/
def Blkptr.psizeBytes (bp : Blkptr) : Nat :=
  if bp.embedded then bp.embeddedPsize.toNat else (bp.psizeRaw.toNat + 1) <<< 9

/-- Whether every DVA is empty: a hole, a block that was never written. -/
def Blkptr.isHole (bp : Blkptr) : Bool := !bp.embedded && bp.dvas.toList.all Dva.isEmpty

/-- One region of the payload, or zeros where a truncated pointer cannot supply it. -/
def bpeRegion (bp : Bytes) (start stop : Nat) : Bytes := (slice? bp start stop).getD (zeros (stop - start))

theorem length_bpeRegion (bp : Bytes) (start stop : Nat) : (bpeRegion bp start stop).length = stop - start := by
  unfold bpeRegion
  cases h : slice? bp start stop with
  | none => simp
  | some s => simpa using slice?_length h

/-- Gather the 112-byte payload of an embedded pointer: `[0,48) ++ [56,88) ++ [96,128)`. -/
def gatherBpePayload (bp : Bytes) : Vector UInt8 112 :=
  ⟨(bpeRegion bp 0 48 ++ bpeRegion bp 56 88 ++ bpeRegion bp 96 128).toArray, by simp [length_bpeRegion]⟩

/-- Decode the 128-byte block pointer in `bp`. -/
def Blkptr.parse (bp : Bytes) (endian : Endian) : Blkptr :=
  let rd : Reader := ⟨endian⟩
  let prop := rd.u64 bp 48
  let embedded := (prop >>> 39) &&& 1 == 1
  { dvas := if embedded then #v[default, default, default]
      else #v[Dva.parse rd bp 0, Dva.parse rd bp 16, Dva.parse rd bp 32]
    lsizeRaw := (prop &&& 0xffff).toUInt32
    psizeRaw := ((prop >>> 16) &&& 0xffff).toUInt32
    compression := ((prop >>> 32) &&& 0x7f).toUInt8
    embedded := embedded
    checksum := ((prop >>> 40) &&& 0xff).toUInt8
    objectType := ((prop >>> 48) &&& 0xff).toUInt8
    level := ((prop >>> 56) &&& 0x1f).toUInt8
    dedup := (prop >>> 62) &&& 1 == 1
    byteorder := if (prop >>> 63) &&& 1 == 1 then .little else .big
    logicalBirth := if embedded then 0 else rd.u64 bp 80
    fill := if embedded then 0 else rd.u64 bp 88
    checksumWords := if embedded then #v[0, 0, 0, 0]
      else #v[rd.u64 bp 96, rd.u64 bp 104, rd.u64 bp 112, rd.u64 bp 120]
    embeddedLsize := if embedded then (prop &&& 0x01ffffff).toUInt32 + 1 else 0
    embeddedPsize := if embedded then ((prop >>> 25) &&& 0x7f).toUInt32 + 1 else 0
    embeddedPayload := if embedded then gatherBpePayload bp else Vector.replicate 112 0 }

/-- The byte order to decode a pointer with: the top bit of the properties word is looked for where a little-endian word has it, then
where a big-endian one has it. -/
def detectBlkptrEndian (bp : Bytes) : Endian :=
  let leTop := u8At bp 55
  if leTop &&& 0x80 ≠ 0 then .little
  else
    let beTop := u8At bp 48
    -- with neither bit set, the common case
    if beTop &&& 0x80 ≠ 0 then .big else .little

/-! ## Sizes -/

theorem Blkptr.lsizeBytes_of_not_embedded {bp : Blkptr} (h : bp.embedded = false) :
    bp.lsizeBytes = (bp.lsizeRaw.toNat + 1) * 512 := by
  simp [lsizeBytes, h, Nat.shiftLeft_eq]

theorem Blkptr.psizeBytes_of_not_embedded {bp : Blkptr} (h : bp.embedded = false) :
    bp.psizeBytes = (bp.psizeRaw.toNat + 1) * 512 := by
  simp [psizeBytes, h, Nat.shiftLeft_eq]

theorem Blkptr.embedded_of_isHole {bp : Blkptr} (h : bp.isHole = true) : bp.embedded = false := by
  simp only [isHole, Bool.and_eq_true, Bool.not_eq_true'] at h
  exact h.1

/-- A pointer that is not embedded has a logical size of at least one sector. -/
theorem Blkptr.lsizeBytes_pos {bp : Blkptr} (h : bp.embedded = false) : 0 < bp.lsizeBytes := by
  rw [lsizeBytes_of_not_embedded h]
  omega

/-- The size fields of a parsed pointer have sixteen bits. -/
theorem Blkptr.parse_sizes_lt (bp : Bytes) (e : Endian) :
    (Blkptr.parse bp e).lsizeRaw.toNat < 2 ^ 16 ∧ (Blkptr.parse bp e).psizeRaw.toNat < 2 ^ 16 := by
  have hmask : ∀ w : UInt64, (w &&& 0xffff).toUInt32.toNat < 2 ^ 16 := by
    intro w
    rw [UInt64.toNat_toUInt32, toNat_and_mask _ _ (w := 16) rfl]
    omega
  exact ⟨hmask _, hmask _⟩

/-- The skew puts every address past the front labels. -/
theorem Dva.bootSkew_le_physicalByteOffset (d : Dva) : 0x400000 ≤ d.physicalByteOffset.toNat := by
  have hb : bootSkew.toNat = 0x400000 := rfl
  rw [physicalByteOffset, toNat_satAddU64, hb]
  omega

end ZfsForensic
