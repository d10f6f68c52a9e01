import ZfsForensic.Lemmas.Encode

/-!
# Embedded payloads

An embedded pointer stores its payload in the words that are neither its properties, word 6, nor its logical birth, word 10. The
decoder skips word 11 in place of word 10, so that the birth is read as the bytes 72 to 79 of a payload.
-/

namespace ZfsForensic

open Octets

/-- An embedded pointer: its payload and what fills the payload words behind it, its birth, and properties that mark it as embedded
and hold the size of the payload. -/
structure EmbeddedPtr where
  payload : Bytes
  fill : Bytes
  birth : UInt64
  prop : UInt64
  payload_pos : 1 ≤ payload.length
  length_words : payload.length + fill.length = 112
  embedded : prop.toNat / 2 ^ 39 % 2 = 1
  psize : prop.toNat / 2 ^ 25 % 2 ^ 7 + 1 = payload.length

namespace EmbeddedPtr

/-- The payload words. -/
def words (p : EmbeddedPtr) : Bytes := p.payload ++ p.fill

/-- The 128 bytes of the pointer: six payload words, the properties, three payload words, the birth, five payload words. -/
def encode (p : EmbeddedPtr) : Bytes :=
  p.words.take 48 ++ Octets.encode .little 8 p.prop.toNat ++ (p.words.drop 48).take 24 ++
    Octets.encode .little 8 p.birth.toNat ++ p.words.drop 72

/-- The same pointer with another birth. -/
def withBirth (p : EmbeddedPtr) (birth : UInt64) : EmbeddedPtr := { p with birth := birth }

/-- The inline payload the decoder reads from the pointer. -/
def read (p : EmbeddedPtr) : Bytes := (Blkptr.parse p.encode .little).embeddedData

/-- The decoder reads the payload, and reads the same whatever the birth. -/
def ReadsPayload (p : EmbeddedPtr) : Prop := p.read = p.payload ∧ ∀ birth, (p.withBirth birth).read = p.read

@[simp] theorem words_withBirth (p : EmbeddedPtr) (birth : UInt64) : (p.withBirth birth).words = p.words := rfl

@[simp] theorem payload_withBirth (p : EmbeddedPtr) (birth : UInt64) : (p.withBirth birth).payload = p.payload := rfl

@[simp] theorem birth_withBirth (p : EmbeddedPtr) (birth : UInt64) : (p.withBirth birth).birth = birth := rfl

theorem length_words_eq (p : EmbeddedPtr) : p.words.length = 112 := by
  rw [words, List.length_append]
  exact p.length_words

/-- What the decoder gathers: the birth in the place of the tenth payload word. -/
theorem gather_encode (p : EmbeddedPtr) :
    (gatherBpePayload p.encode).toList = p.words.take 72 ++ Octets.encode .little 8 p.birth.toNat ++ p.words.drop 80 := by
  have hlen := p.length_words_eq
  have hhead : bpeRegion p.encode 0 48 = p.words.take 48 := by
    have hparts : p.encode = p.words.take 48 ++ (Octets.encode .little 8 p.prop.toNat ++ (p.words.drop 48).take 24 ++
        Octets.encode .little 8 p.birth.toNat ++ p.words.drop 72) := by
      simp only [encode, List.append_assoc]
    have hslice : slice? p.encode 0 48 = some (p.words.take 48) := by
      rw [hparts, slice?_append_left (by rw [List.length_take]; omega)]
      exact slice?_self (by rw [List.length_take]; omega)
    rw [bpeRegion, hslice, Option.getD_some]
  have hmiddle : bpeRegion p.encode 56 88 = (p.words.drop 48).take 24 ++ Octets.encode .little 8 p.birth.toNat := by
    have hparts : p.encode = (p.words.take 48 ++ Octets.encode .little 8 p.prop.toNat) ++
        ((p.words.drop 48).take 24 ++ Octets.encode .little 8 p.birth.toNat) ++ p.words.drop 72 := by
      simp only [encode, List.append_assoc]
    have hslice : slice? p.encode 56 88 = some ((p.words.drop 48).take 24 ++ Octets.encode .little 8 p.birth.toNat) := by
      rw [hparts]
      refine slice?_middle ?_ ?_
      · rw [List.length_append, List.length_take, Octets.length_encode]
        omega
      · rw [List.length_append, List.length_take, List.length_drop, Octets.length_encode]
        omega
    rw [bpeRegion, hslice, Option.getD_some]
  have htail : bpeRegion p.encode 96 128 = p.words.drop 80 := by
    have hdrop : p.words.drop 80 = (p.words.drop 72).drop 8 := by rw [List.drop_drop]
    have hsplit : (p.words.drop 72).take 8 ++ p.words.drop 80 = p.words.drop 72 := by rw [hdrop, List.take_append_drop]
    have hparts : p.encode = (p.words.take 48 ++ Octets.encode .little 8 p.prop.toNat ++ (p.words.drop 48).take 24 ++
        Octets.encode .little 8 p.birth.toNat ++ (p.words.drop 72).take 8) ++ p.words.drop 80 := by
      simp only [encode, List.append_assoc]
      rw [hsplit]
    have hslice : slice? p.encode 96 128 = some (p.words.drop 80) := by
      rw [hparts]
      refine slice?_suffix ?_ ?_
      · simp only [List.length_append, List.length_take, List.length_drop, Octets.length_encode]
        omega
      · rw [List.length_drop]
        omega
    rw [bpeRegion, hslice, Option.getD_some]
  have htake : p.words.take 72 = p.words.take 48 ++ (p.words.drop 48).take 24 := by rw [← List.take_add]
  rw [gatherBpePayload, Vector.toList_mk, List.toList_toArray, hhead, hmiddle, htail, htake]
  simp only [List.append_assoc]

/-- The properties word, read back. -/
theorem u64_encode (p : EmbeddedPtr) : (Reader.mk .little).u64 p.encode 48 = p.prop := by
  have hlen := p.length_words_eq
  have hprop := p.prop.toNat_lt
  have hhead : (p.words.take 48).length = 48 := by
    rw [List.length_take]
    omega
  rw [Reader.u64_eq, encode]
  simp only [List.append_assoc]
  rw [readUint_append_right (by omega), hhead, Nat.sub_self, readUint_encode, Nat.mod_eq_of_lt (by omega)]
  exact UInt64.ofNat_toNat

/-- The decoder reads as many of the gathered bytes as the payload has. -/
theorem read_eq (p : EmbeddedPtr) :
    p.read = (p.words.take 72 ++ Octets.encode .little 8 p.birth.toNat ++ p.words.drop 80).take p.payload.length := by
  have hpsize : (((p.prop >>> 25) &&& 0x7f).toUInt32 + 1).toNat = p.payload.length := by
    have hle := p.length_words
    have hfield := toNat_shift_and_mask p.prop 25 0x7f (w := 7) (by decide) rfl
    have hword : ((p.prop >>> 25) &&& 0x7f).toUInt32.toNat + 1 = p.payload.length := by
      rw [UInt64.toNat_toUInt32, hfield, ← p.psize]
      simp only [UInt64.reduceToNat]
      omega
    rw [UInt32.toNat_add]
    simp only [UInt32.reduceToNat]
    omega
  have hembedded : ((p.prop >>> 39) &&& 1 == 1) = true := by
    rw [bit_eq_one_iff _ _ (by decide)]
    exact decide_eq_true p.embedded
  have hmin : min p.payload.length bpePayloadSize = p.payload.length := by
    have hle := p.length_words
    unfold bpePayloadSize
    omega
  rw [← p.gather_encode, read, Blkptr.embeddedData]
  simp only [Blkptr.parse, p.u64_encode, hembedded, if_true, hpsize, hmin]

/-- The decoder reads a payload, and the same whatever the birth, exactly where the payload ends before the tenth payload word. -/
theorem readsPayload_iff (p : EmbeddedPtr) : p.ReadsPayload ↔ p.payload.length ≤ 72 := by
  have hlen := p.length_words_eq
  have hhead : (p.words.take 72).length = 72 := by
    rw [List.length_take]
    omega
  constructor
  · rintro ⟨-, hbirth⟩
    by_contra hlong
    have hbyte : ∀ birth, (p.withBirth birth).read[72]? = (Octets.encode .little 8 birth.toNat)[0]? := by
      intro birth
      rw [read_eq, payload_withBirth, words_withBirth, birth_withBirth, List.getElem?_take_of_lt (by omega),
        List.append_assoc, List.getElem?_append_right (by omega), hhead,
        List.getElem?_append_left (by rw [Octets.length_encode]; omega)]
    have hzero := hbyte 0
    have hone := hbyte 1
    rw [hbirth 0] at hzero
    rw [hbirth 1, hzero] at hone
    exact absurd hone (by decide)
  · intro hshort
    have hread : ∀ birth, (p.withBirth birth).read = p.payload := by
      intro birth
      rw [read_eq, payload_withBirth, words_withBirth, birth_withBirth, List.append_assoc,
        List.take_append_of_le_length (by omega), List.take_take, Nat.min_eq_left hshort, words, List.take_left]
    refine ⟨hread p.birth, fun birth => ?_⟩
    rw [hread birth]
    exact (hread p.birth).symm

/-- A payload of 73 bytes, the last of them not zero. -/
def long : EmbeddedPtr :=
  { payload := List.replicate 73 0xaa
    fill := zeros 39
    birth := 0
    prop := UInt64.ofNat (72 * 2 ^ 25 + 2 ^ 39)
    payload_pos := by simp
    length_words := by simp
    embedded := by decide
    psize := by rw [List.length_replicate]; decide }

/-- Its last byte is read from the birth. -/
theorem long_misread : long.read = List.replicate 72 0xaa ++ [0] ∧ ¬ long.ReadsPayload := by
  have hread : long.read = List.replicate 72 0xaa ++ [0] := by
    rw [read_eq]
    decide
  refine ⟨hread, fun h => ?_⟩
  have hlast := congrArg List.getLast? (hread.symm.trans h.1)
  exact absurd hlast (by decide)

end EmbeddedPtr

end ZfsForensic
