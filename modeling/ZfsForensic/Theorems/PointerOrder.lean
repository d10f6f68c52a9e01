import ZfsForensic.Blkptr

/-!
# The byte order of a pointer, detected from its bytes

A pointer states the byte order of the block it names in the top bit of its properties word, set for little-endian. A host that
names a block of its own sets the bit when it is little-endian, and clears it when it is big-endian. The detector looks for a bit
that is set, in the two places the orders put it: no pointer of a big-endian host has one in the second.
-/

namespace ZfsForensic

open Octets

/-- The bit that states a byte order. -/
def byteorderBit : Endian → UInt64
  | .little => 1
  | .big => 0

/-- A pointer that is not embedded, as a host of a byte order writes it for a block of its own: sixteen words, with its own order
stated in the properties. -/
structure NativePtr (e : Endian) where
  words : Vector UInt64 16
  not_embedded : (words[6] >>> 39) &&& 1 = 0
  byteorder : (words[6] >>> 63) &&& 1 = byteorderBit e

namespace NativePtr

variable {e : Endian} (p : NativePtr e)

/-- The 128 bytes of the pointer, in the order of the host. -/
def bytes : Bytes := encodeWords e 8 (p.words.toList.map UInt64.toNat)

/-- The order of the host is detected, and the pointer decoded in the detected order states it. -/
def OrderDetected : Prop :=
  detectBlkptrEndian p.bytes = e ∧ (Blkptr.parse p.bytes (detectBlkptrEndian p.bytes)).byteorder = e

end NativePtr

/-! ## Where the detector looks -/

/-- The order a pointer states stands in the top bit of the first or of the last byte of its properties. -/
theorem Blkptr.byteorder_parse_iff {bp : Bytes} (h : 56 ≤ bp.length) (e : Endian) :
    (Blkptr.parse bp e).byteorder = .little ↔ u8At bp (topOffset e 7 48) &&& 0x80 ≠ 0 := by
  have htop : readUint e 8 bp 48 / 256 ^ 7 = (u8At bp (topOffset e 7 48)).toNat := readUint_div_pow e h
  have hbyte := (u8At bp (topOffset e 7 48)).toNat_lt
  have hlt := readUint_lt e 8 bp 48
  have hword : ((Reader.mk e).u64 bp 48).toNat = readUint e 8 bp 48 := by
    rw [Reader.u64_eq, UInt64.toNat_ofNat']
    omega
  have hbit : ((Reader.mk e).u64 bp 48 >>> 63 &&& 1 == 1) = decide (128 ≤ (u8At bp (topOffset e 7 48)).toNat) := by
    rw [bit_eq_one_iff _ _ (by decide), hword, decide_eq_decide]
    simp only [UInt64.reduceToNat]
    omega
  rw [ne_eq, and_high_eq_zero_iff, Nat.not_lt, Blkptr.parse]
  dsimp only
  rw [hbit]
  by_cases hset : 128 ≤ (u8At bp (topOffset e 7 48)).toNat <;> simp [hset]

/-- The detector answers big-endian only where the pointer, decoded as big-endian, states little-endian. -/
theorem detectBlkptrEndian_eq {bp : Bytes} (h : 56 ≤ bp.length) :
    detectBlkptrEndian bp = if (Blkptr.parse bp .little).byteorder = .little then .little
      else if (Blkptr.parse bp .big).byteorder = .little then .big else .little := by
  simp only [detectBlkptrEndian, Blkptr.byteorder_parse_iff h, topOffset]

/-! ## Native pointers -/

namespace NativePtr

variable {e : Endian} (p : NativePtr e)

theorem length_bytes : p.bytes.length = blkptrSize := by
  rw [bytes, length_encodeWords, List.length_map, Vector.length_toList]
  rfl

/-- Decoded in the order of the host, the pointer is not embedded and states that order. -/
theorem parse_bytes : (Blkptr.parse p.bytes e).embedded = false ∧ (Blkptr.parse p.bytes e).byteorder = e := by
  have hword : (p.words.toList.map UInt64.toNat)[6]? = some p.words[6].toNat := by simp
  have hread := readUint_encodeWords e 8 _ [] hword
  rw [List.append_nil] at hread
  have hprop : (Reader.mk e).u64 p.bytes 48 = p.words[6] := by
    rw [Reader.u64_eq, bytes, hread]
    exact UInt64.toNat_inj.1 (by simp)
  rw [Blkptr.parse]
  dsimp only
  rw [hprop, p.not_embedded, p.byteorder]
  cases e <;> exact ⟨rfl, rfl⟩

/-- Every native pointer is taken for a little-endian one. -/
theorem detect_bytes : detectBlkptrEndian p.bytes = .little := by
  obtain ⟨-, horder⟩ := p.parse_bytes
  rw [detectBlkptrEndian_eq (by rw [length_bytes]; decide)]
  cases e with
  | little => rw [if_pos horder]
  | big =>
    rw [horder]
    split <;> rfl

/-- A pointer of a big-endian host, decoded in the order the detector answers, states big-endian where bit 7 of its logical size is
clear. -/
theorem byteorder_detected (p : NativePtr .big) :
    (Blkptr.parse p.bytes (detectBlkptrEndian p.bytes)).byteorder = .big ↔ p.words[6].toNat % 256 < 128 := by
  have hword : (p.words.toList.map UInt64.toNat)[6]? = some p.words[6].toNat := by simp
  have hslice := slice?_encodeWords .big 8 _ [] hword
  rw [List.append_nil] at hslice
  have hlow := getElem?_of_slice? hslice (i := 7) (by omega)
  have hlast : (encode .big 8 p.words[6].toNat)[7]? = some (UInt8.ofNat (p.words[6].toNat % 256)) := rfl
  have hbyte : u8At p.bytes 55 = UInt8.ofNat (p.words[6].toNat % 256) := by
    rw [u8At, bytes, ← hlow, hlast, Option.getD_some]
  have hiff : (Blkptr.parse p.bytes .little).byteorder = .little ↔ u8At p.bytes 55 &&& 0x80 ≠ 0 :=
    Blkptr.byteorder_parse_iff (by rw [length_bytes]; decide) .little
  rw [hbyte, ne_eq, and_high_eq_zero_iff, UInt8.toNat_ofNat', Nat.mod_mod] at hiff
  rw [detect_bytes]
  cases horder : (Blkptr.parse p.bytes .little).byteorder with
  | little =>
    have hhigh := hiff.1 horder
    simp only [reduceCtorEq, false_iff]
    exact hhigh
  | big =>
    rw [horder] at hiff
    simp only [reduceCtorEq, false_iff, Classical.not_not] at hiff
    simp only [true_iff]
    exact hiff

end NativePtr

/-- The order of a native pointer is detected, and stated by the pointer decoded in it, exactly where it is little-endian. -/
theorem pointer_order_detected_iff (e : Endian) (p : NativePtr e) : p.OrderDetected ↔ e = .little := by
  constructor
  · rintro ⟨hdetected, -⟩
    rw [← hdetected, p.detect_bytes]
  · rintro rfl
    refine ⟨p.detect_bytes, ?_⟩
    rw [p.detect_bytes]
    exact p.parse_bytes.2

/-- A pointer of a big-endian host to a file's block of 128 KiB. -/
def bigNative : NativePtr .big :=
  { words := #v[256, 2048, 0, 0, 0, 0, 0x0013070f00ff00ff, 0, 0, 0, 5, 1, 1, 2, 3, 4]
    not_embedded := by decide
    byteorder := by decide }

/-- It is taken for a little-endian one, and states little-endian when it is decoded as one. -/
theorem big_pointer_taken_for_little :
    detectBlkptrEndian bigNative.bytes = .little ∧
      (Blkptr.parse bigNative.bytes (detectBlkptrEndian bigNative.bytes)).byteorder = .little ∧ ¬ bigNative.OrderDetected := by
  have hdetected := bigNative.detect_bytes
  refine ⟨hdetected, ?_, fun h => ?_⟩
  · cases horder : (Blkptr.parse bigNative.bytes (detectBlkptrEndian bigNative.bytes)).byteorder with
    | little => rfl
    | big => exact absurd (bigNative.byteorder_detected.1 horder) (by decide)
  · exact absurd (h.1.symm.trans hdetected) (by decide)

end ZfsForensic
