import ZfsForensic.Dnode
import ZfsForensic.Label

/-!
# Serialised records

The bit layouts that the decoders of block pointers, uberblocks and dnodes read, written in either byte order. A record is
`Stored` when its fields have the widths of the layout; a dnode further when it has no extra slot, and its pointers and its
bonus fill what its counts say.
-/

namespace ZfsForensic

open Octets

/-! ## Block pointers -/

/-- The fields of a copy fit their bits. -/
structure Dva.Stored (d : Dva) : Prop where
  vdev : d.vdev.toNat < 2 ^ 24
  asize : d.asizeSectors.toNat < 2 ^ 24
  offset : d.offsetSectors.toNat < 2 ^ 63

/-- The two words of a copy. -/
def Dva.words (d : Dva) : List Nat :=
  [d.asizeSectors.toNat + 2 ^ 32 * d.vdev.toNat, d.offsetSectors.toNat + 2 ^ 63 * d.gang.toNat]

/-- A pointer that is not embedded, whose fields fit their bits. -/
structure Blkptr.Stored (p : Blkptr) : Prop where
  embedded : p.embedded = false
  dvas : ∀ d ∈ p.dvas.toList, d.Stored
  lsize : p.lsizeRaw.toNat < 2 ^ 16
  psize : p.psizeRaw.toNat < 2 ^ 16
  compression : p.compression.toNat < 2 ^ 7
  level : p.level.toNat < 2 ^ 5
  embeddedLsize : p.embeddedLsize = 0
  embeddedPsize : p.embeddedPsize = 0
  embeddedPayload : p.embeddedPayload = Vector.replicate 112 0

/-- The packed properties of a pointer that is not embedded. -/
def Blkptr.propWord (p : Blkptr) : Nat :=
  p.lsizeRaw.toNat + 2 ^ 16 * p.psizeRaw.toNat + 2 ^ 32 * p.compression.toNat + 2 ^ 40 * p.checksum.toNat +
    2 ^ 48 * p.objectType.toNat + 2 ^ 56 * p.level.toNat + 2 ^ 62 * p.dedup.toNat +
    2 ^ 63 * (match p.byteorder with | .little => 1 | .big => 0)

/-- The sixteen words of a pointer that is not embedded. -/
def Blkptr.words (p : Blkptr) : List Nat :=
  p.dvas[0].words ++ p.dvas[1].words ++ p.dvas[2].words ++
    [p.propWord, 0, 0, 0, p.logicalBirth.toNat, p.fill.toNat, p.checksumWords[0].toNat, p.checksumWords[1].toNat,
      p.checksumWords[2].toNat, p.checksumWords[3].toNat]

/-- The 128 bytes of a pointer that is not embedded. -/
def Blkptr.encode (e : Endian) (p : Blkptr) : Bytes := encodeWords e 8 p.words

@[simp] theorem Blkptr.length_encode (e : Endian) (p : Blkptr) : (p.encode e).length = blkptrSize := by
  rw [Blkptr.encode, length_encodeWords]
  rfl

/-- The `k`-th word of a pointer, read back. -/
theorem Blkptr.toNat_u64_encode (e : Endian) (p : Blkptr) {k n : Nat} (hk : p.words[k]? = some n) (hn : n < 2 ^ 64) :
    ((Reader.mk e).u64 (p.encode e) (8 * k)).toNat = n := by
  have h := readUint_encodeWords e 8 p.words [] hk
  rw [List.append_nil] at h
  rw [Reader.u64_eq, Blkptr.encode, h, UInt64.toNat_ofNat']
  omega

theorem Blkptr.u64_encode (e : Endian) (p : Blkptr) {k : Nat} {w : UInt64} (hk : p.words[k]? = some w.toNat) :
    (Reader.mk e).u64 (p.encode e) (8 * k) = w :=
  UInt64.toNat_inj.1 (p.toNat_u64_encode e hk w.toNat_lt)

/-- A copy that is stored reads back from its two words, whole by the decoder and whole by the summary. -/
theorem Dva.parse_encode {e : Endian} {p : Blkptr} {d : Dva} (h : d.Stored) {k : Nat}
    (h0 : p.words[k]? = some (d.asizeSectors.toNat + 2 ^ 32 * d.vdev.toNat))
    (h1 : p.words[k + 1]? = some (d.offsetSectors.toNat + 2 ^ 63 * d.gang.toNat)) :
    Dva.parse ⟨e⟩ (p.encode e) (8 * k) = d ∧ BlkptrSummary.parseDva ⟨e⟩ (p.encode e) (8 * k) = d := by
  obtain ⟨hv, ha, ho⟩ := h
  have hg : d.gang.toNat ≤ 1 := Bool.toNat_le d.gang
  have hw0 := p.toNat_u64_encode e h0 (by omega)
  have hw1 := p.toNat_u64_encode e h1 (by omega)
  rw [Nat.mul_succ] at hw1
  have hasize : (((Reader.mk e).u64 (p.encode e) (8 * k)) &&& 0x00ffffff).toUInt32 = d.asizeSectors := by
    apply UInt32.toNat_inj.1
    rw [UInt64.toNat_toUInt32, toNat_and_mask _ _ (w := 24) rfl, hw0]
    omega
  have hvdev : ((((Reader.mk e).u64 (p.encode e) (8 * k)) >>> 32) &&& 0x00ffffff).toUInt32 = d.vdev := by
    apply UInt32.toNat_inj.1
    rw [UInt64.toNat_toUInt32, toNat_shift_and_mask _ _ _ (w := 24) (by decide) rfl, hw0]
    simp only [UInt64.reduceToNat]
    omega
  have hvdev' : (((Reader.mk e).u64 (p.encode e) (8 * k)) >>> 32).toUInt32 = d.vdev := by
    apply UInt32.toNat_inj.1
    rw [UInt64.toNat_toUInt32, UInt64.toNat_shiftRight, hw0, Nat.shiftRight_eq_div_pow]
    simp only [UInt64.reduceToNat, Nat.reduceMod]
    omega
  have hoffset : ((Reader.mk e).u64 (p.encode e) (8 * k + 8)) &&& 0x7fffffffffffffff = d.offsetSectors := by
    apply UInt64.toNat_inj.1
    rw [toNat_and_mask _ _ (w := 63) rfl, hw1]
    omega
  have hgang : ((((Reader.mk e).u64 (p.encode e) (8 * k + 8)) >>> 63) &&& 1 == 1) = d.gang := by
    rw [bit_eq_one_iff _ _ (by decide), hw1]
    simp only [UInt64.reduceToNat]
    cases d.gang with
    | false =>
      rw [decide_eq_false_iff_not, Bool.toNat_false]
      omega
    | true =>
      rw [decide_eq_true_iff, Bool.toNat_true]
      omega
  constructor
  · rw [Dva.parse, hasize, hvdev, hoffset, hgang]
  · rw [BlkptrSummary.parseDva, hasize, hvdev', hoffset, hgang]

/-- The properties word of a stored pointer has 64 bits. -/
theorem Blkptr.Stored.propWord_lt {p : Blkptr} (h : p.Stored) : p.propWord < 2 ^ 64 := by
  have h1 := h.lsize
  have h2 := h.psize
  have h3 := h.compression
  have h4 := h.level
  have h5 := p.checksum.toNat_lt
  have h6 := p.objectType.toNat_lt
  have h7 := Bool.toNat_le p.dedup
  unfold propWord
  cases p.byteorder <;> dsimp only <;> omega

/-- The fields of the properties word, by their offsets and widths. -/
theorem Blkptr.Stored.fields {p : Blkptr} (h : p.Stored) :
    p.propWord % 2 ^ 16 = p.lsizeRaw.toNat ∧ p.propWord / 2 ^ 16 % 2 ^ 16 = p.psizeRaw.toNat ∧
      p.propWord / 2 ^ 32 % 2 ^ 7 = p.compression.toNat ∧ p.propWord / 2 ^ 39 % 2 = 0 ∧
      p.propWord / 2 ^ 40 % 2 ^ 8 = p.checksum.toNat ∧ p.propWord / 2 ^ 48 % 2 ^ 8 = p.objectType.toNat ∧
      p.propWord / 2 ^ 56 % 2 ^ 5 = p.level.toNat ∧ p.propWord / 2 ^ 62 % 2 = p.dedup.toNat ∧
      (p.propWord / 2 ^ 63 % 2 = 1 ↔ p.byteorder = .little) := by
  have h1 := h.lsize
  have h2 := h.psize
  have h3 := h.compression
  have h4 := h.level
  have h5 := p.checksum.toNat_lt
  have h6 := p.objectType.toNat_lt
  have h7 := Bool.toNat_le p.dedup
  have hbyte : (match p.byteorder with | .little => 1 | .big => 0) ≤ 1 ∧
      ((match p.byteorder with | .little => 1 | .big => 0) = 1 ↔ p.byteorder = .little) := by
    cases p.byteorder <;> decide
  obtain ⟨h8, hlittle⟩ := hbyte
  rw [← hlittle]
  unfold propWord
  generalize (match p.byteorder with | .little => 1 | .big => 0) = b at h8 ⊢
  generalize p.dedup.toNat = d at h7 ⊢
  refine ⟨?_, ?_, ?_, ?_, ?_, ?_, ?_, ?_, ?_⟩ <;> omega

/-- The summary of a pointer that is not embedded: its copies, its sizes in sectors, its type. -/
def Blkptr.summary (p : Blkptr) : BlkptrSummary :=
  { dvas := p.dvas
    lsizeSectors := p.lsizeRaw + 1
    psizeSectors := p.psizeRaw + 1
    compression := p.compression
    objectType := p.objectType
    level := p.level
    embedded := p.embedded }

/-- A vector of three is its three elements. -/
theorem vector_three {α : Type} (v : Vector α 3) : #v[v[0], v[1], v[2]] = v := by
  apply Vector.ext
  intro i hi
  match i, hi with
  | 0, _ | 1, _ | 2, _ => rfl

/-- A vector of four is its four elements. -/
theorem vector_four {α : Type} (v : Vector α 4) : #v[v[0], v[1], v[2], v[3]] = v := by
  apply Vector.ext
  intro i hi
  match i, hi with
  | 0, _ | 1, _ | 2, _ | 3, _ => rfl

section Parse

variable {p : Blkptr} (h : p.Stored) (e : Endian)
include h

/-- The copies of a stored pointer read back. -/
theorem Blkptr.Stored.parse_dvas :
    #v[Dva.parse ⟨e⟩ (p.encode e) 0, Dva.parse ⟨e⟩ (p.encode e) 16, Dva.parse ⟨e⟩ (p.encode e) 32] = p.dvas ∧
      #v[BlkptrSummary.parseDva ⟨e⟩ (p.encode e) 0, BlkptrSummary.parseDva ⟨e⟩ (p.encode e) 16,
        BlkptrSummary.parseDva ⟨e⟩ (p.encode e) 32] = p.dvas := by
  have hmem : ∀ (i : Nat) (hi : i < 3), p.dvas[i].Stored := fun i hi => h.dvas _ (by simp)
  obtain ⟨h0, h0'⟩ := Dva.parse_encode (e := e) (hmem 0 (by omega)) (k := 0) rfl rfl
  obtain ⟨h1, h1'⟩ := Dva.parse_encode (e := e) (hmem 1 (by omega)) (k := 2) rfl rfl
  obtain ⟨h2, h2'⟩ := Dva.parse_encode (e := e) (hmem 2 (by omega)) (k := 4) rfl rfl
  refine ⟨?_, ?_⟩
  · rw [h0, h1, h2, vector_three]
  · rw [h0', h1', h2', vector_three]

/-- The packed fields of a stored pointer read back. -/
theorem Blkptr.Stored.parse_fields {prop : UInt64} (hprop : prop.toNat = p.propWord) :
    (prop &&& 0xffff).toUInt32 = p.lsizeRaw ∧ ((prop >>> 16) &&& 0xffff).toUInt32 = p.psizeRaw ∧
      ((prop >>> 32) &&& 0x7f).toUInt8 = p.compression ∧ ((prop >>> 39) &&& 1 == 1) = false ∧
      ((prop >>> 40) &&& 0xff).toUInt8 = p.checksum ∧ ((prop >>> 48) &&& 0xff).toUInt8 = p.objectType ∧
      ((prop >>> 56) &&& 0x1f).toUInt8 = p.level ∧ ((prop >>> 62) &&& 1 == 1) = p.dedup ∧
      (if (prop >>> 63) &&& 1 == 1 then Endian.little else Endian.big) = p.byteorder := by
  obtain ⟨f1, f2, f3, f4, f5, f6, f7, f8, f9⟩ := h.fields
  refine ⟨?_, ?_, ?_, ?_, ?_, ?_, ?_, ?_, ?_⟩
  · apply UInt32.toNat_inj.1
    rw [UInt64.toNat_toUInt32, toNat_and_mask _ _ (w := 16) rfl, hprop, f1]
    exact Nat.mod_eq_of_lt p.lsizeRaw.toNat_lt
  · apply UInt32.toNat_inj.1
    rw [UInt64.toNat_toUInt32, toNat_shift_and_mask _ _ _ (w := 16) (by decide) rfl, hprop]
    exact (congrArg (· % 2 ^ 32) f2).trans (Nat.mod_eq_of_lt p.psizeRaw.toNat_lt)
  · apply UInt8.toNat_inj.1
    rw [UInt64.toNat_toUInt8, toNat_shift_and_mask _ _ _ (w := 7) (by decide) rfl, hprop]
    exact (congrArg (· % 2 ^ 8) f3).trans (Nat.mod_eq_of_lt p.compression.toNat_lt)
  · rw [bit_eq_one_iff _ _ (by decide), hprop, decide_eq_false_iff_not]
    exact fun hc => absurd (f4.symm.trans hc) (by decide)
  · apply UInt8.toNat_inj.1
    rw [UInt64.toNat_toUInt8, toNat_shift_and_mask _ _ _ (w := 8) (by decide) rfl, hprop]
    exact (congrArg (· % 2 ^ 8) f5).trans (Nat.mod_eq_of_lt p.checksum.toNat_lt)
  · apply UInt8.toNat_inj.1
    rw [UInt64.toNat_toUInt8, toNat_shift_and_mask _ _ _ (w := 8) (by decide) rfl, hprop]
    exact (congrArg (· % 2 ^ 8) f6).trans (Nat.mod_eq_of_lt p.objectType.toNat_lt)
  · apply UInt8.toNat_inj.1
    rw [UInt64.toNat_toUInt8, toNat_shift_and_mask _ _ _ (w := 5) (by decide) rfl, hprop]
    exact (congrArg (· % 2 ^ 8) f7).trans (Nat.mod_eq_of_lt p.level.toNat_lt)
  · rw [bit_eq_one_iff _ _ (by decide), hprop]
    have f8' : p.propWord / 2 ^ (62 : UInt64).toNat % 2 = p.dedup.toNat := f8
    rw [f8']
    cases p.dedup <;> decide
  · have f9' : p.propWord / 2 ^ (63 : UInt64).toNat % 2 = 1 ↔ p.byteorder = .little := f9
    rw [bit_eq_one_iff _ _ (by decide), hprop]
    simp only [decide_eq_true_iff, f9']
    cases p.byteorder <;> decide

/-- A stored pointer is decoded from its bytes, in both byte orders. -/
theorem Blkptr.parse_encode : Blkptr.parse (p.encode e) e = p := by
  have hprop : ((Reader.mk e).u64 (p.encode e) 48).toNat = p.propWord := p.toNat_u64_encode e (k := 6) rfl h.propWord_lt
  obtain ⟨f1, f2, f3, f4, f5, f6, f7, f8, f9⟩ := h.parse_fields hprop
  have hbirth : (Reader.mk e).u64 (p.encode e) 80 = p.logicalBirth := p.u64_encode e (k := 10) rfl
  have hfill : (Reader.mk e).u64 (p.encode e) 88 = p.fill := p.u64_encode e (k := 11) rfl
  have hc0 : (Reader.mk e).u64 (p.encode e) 96 = p.checksumWords[0] := p.u64_encode e (k := 12) rfl
  have hc1 : (Reader.mk e).u64 (p.encode e) 104 = p.checksumWords[1] := p.u64_encode e (k := 13) rfl
  have hc2 : (Reader.mk e).u64 (p.encode e) 112 = p.checksumWords[2] := p.u64_encode e (k := 14) rfl
  have hc3 : (Reader.mk e).u64 (p.encode e) 120 = p.checksumWords[3] := p.u64_encode e (k := 15) rfl
  have hdvas := (h.parse_dvas e).1
  have he := h.embedded
  have hl := h.embeddedLsize
  have hs := h.embeddedPsize
  have hp := h.embeddedPayload
  unfold Blkptr.parse
  dsimp only
  rw [f1, f2, f3, f4, f5, f6, f7, f8, f9, hbirth, hfill, hc0, hc1, hc2, hc3, vector_four]
  simp only [Bool.false_eq_true, if_false, hdvas]
  cases p
  simp_all only

/-- Its summary too. -/
theorem Blkptr.parse_summary_encode : BlkptrSummary.parse ⟨e⟩ (p.encode e) = p.summary := by
  have hprop : ((Reader.mk e).u64 (p.encode e) 48).toNat = p.propWord := p.toNat_u64_encode e (k := 6) rfl h.propWord_lt
  obtain ⟨f1, f2, f3, f4, -, f6, f7, -, -⟩ := h.parse_fields hprop
  unfold BlkptrSummary.parse
  dsimp only
  rw [f1, f2, f3, f4, f6, f7, (h.parse_dvas e).2, Blkptr.summary, h.embedded]

end Parse

/-! ## Uberblocks -/

/-- An uberblock whose root pointer is stored, and summed up as it is. -/
structure Uberblock.Stored (ub : Uberblock) : Prop where
  magic : ub.magic = uberblockMagic
  rootbp : ub.rootbpFull.Stored
  summary : ub.rootbp = ub.rootbpFull.summary

/-- The bytes of a stored pointer, at their length. -/
def Blkptr.encodeVector (e : Endian) (p : Blkptr) : Vector UInt8 128 := ⟨(p.encode e).toArray, by simp [blkptrSize]⟩

/-- The fields of an uberblock, in a byte order: five words and the root pointer. -/
def Uberblock.encode (e : Endian) (ub : Uberblock) : Bytes :=
  encodeWords e 8 [ub.magic.toNat, ub.version.toNat, ub.txg.toNat, ub.guidSum.toNat, ub.timestamp.toNat] ++
    ub.rootbpFull.encode e

/-- An uberblock rewritten in a byte order: the fields stay, the copy of the root pointer's bytes changes. -/
def Uberblock.inOrder (e : Endian) (ub : Uberblock) : Uberblock :=
  { ub with endian := e, rootbpRaw := ub.rootbpFull.encodeVector e }

/-- A word of a serialised uberblock, read back. -/
theorem Uberblock.u64_encode (e : Endian) (ub : Uberblock) (rest : Bytes) {k : Nat} {w : UInt64}
    (h : [ub.magic.toNat, ub.version.toNat, ub.txg.toNat, ub.guidSum.toNat, ub.timestamp.toNat][k]? = some w.toNat) :
    (Reader.mk e).u64 (ub.encode e ++ rest) (8 * k) = w := by
  have hw := w.toNat_lt
  rw [Reader.u64_eq, Uberblock.encode, List.append_assoc, readUint_encodeWords e 8 _ _ h]
  apply UInt64.toNat_inj.1
  rw [UInt64.toNat_ofNat']
  omega

/-- The byte order of a serialised uberblock is told by its magic. -/
theorem detectEndian_encode (e : Endian) {ub : Uberblock} (h : ub.magic = uberblockMagic) (rest : Bytes) :
    detectEndian (ub.encode e ++ rest) = some e := by
  have hmagic := ub.u64_encode e rest (k := 0) rfl
  rw [h, Nat.mul_zero] at hmagic
  cases e with
  | little =>
    have hle : leU64 (ub.encode .little ++ rest) 0 = uberblockMagic := hmagic
    rw [detectEndian, if_pos hle]
  | big =>
    have hbe : beU64 (ub.encode .big ++ rest) 0 = uberblockMagic := hmagic
    have hswap : leU64 (ub.encode .big ++ rest) 0 ≠ uberblockMagic := by
      -- the magic's eight bytes are no palindrome
      rw [leU64, Uberblock.encode, h, encodeWords, List.flatMap_cons, List.append_assoc, List.append_assoc,
        readUint_append_left (by rw [length_encode])]
      decide
    rw [detectEndian, if_neg hswap, if_pos hbe]

/-- A stored uberblock is decoded from its bytes, whatever fills the slot behind them. -/
theorem Uberblock.parse_encode (e : Endian) {ub : Uberblock} (h : ub.Stored) (rest : Bytes) :
    Uberblock.parse (ub.encode e ++ rest) = some (ub.inOrder e) ∧ (ub.inOrder e).rootbpFull = ub.rootbpFull := by
  have hversion : (Reader.mk e).u64 (ub.encode e ++ rest) 8 = ub.version := ub.u64_encode e rest (k := 1) rfl
  have htxg : (Reader.mk e).u64 (ub.encode e ++ rest) 16 = ub.txg := ub.u64_encode e rest (k := 2) rfl
  have hguid : (Reader.mk e).u64 (ub.encode e ++ rest) 24 = ub.guidSum := ub.u64_encode e rest (k := 3) rfl
  have htime : (Reader.mk e).u64 (ub.encode e ++ rest) 32 = ub.timestamp := ub.u64_encode e rest (k := 4) rfl
  have hbp : slice? (ub.encode e ++ rest) offRootbp (offRootbp + 128) = some (ub.rootbpFull.encode e) :=
    slice?_middle (by rw [length_encodeWords]; rfl) (by rw [Blkptr.length_encode]; rfl)
  have hraw : rootbpRegion (ub.encode e ++ rest) = ub.rootbpFull.encodeVector e := by
    unfold rootbpRegion
    split
    · rename_i bp hslice
      rw [hbp, Option.some.injEq] at hslice
      subst hslice
      rfl
    · rename_i hslice
      rw [hbp] at hslice
      exact absurd hslice (by simp)
  constructor
  · rw [Uberblock.parse, detectEndian_encode e h.magic]
    dsimp only
    rw [hversion, htxg, hguid, htime, hbp, hraw]
    dsimp only
    rw [Blkptr.parse_summary_encode h.rootbp, Uberblock.inOrder, h.summary, h.magic]
  · exact Blkptr.parse_encode h.rootbp e

/-! ## Dnodes -/

/-- A dnode of one slot: its counts are those of its pointers and its bonus, which fit the slot. -/
structure Dnode.Stored (d : Dnode) : Prop where
  extraSlots : d.dnExtraSlots = 0
  nblkptr : d.dnNblkptr.toNat = d.blkptrs.length
  blkptrs : ∀ p ∈ d.blkptrs, p.Stored
  bonuslen : d.dnBonuslen.toNat = d.bonus.length
  fits : dnodeCoreSize + d.blkptrs.length * blkptrSize + d.bonus.length ≤ dnodeSize

/-- The fixed core of a dnode. -/
def Dnode.encodeCore (e : Endian) (d : Dnode) : Bytes :=
  [d.dnType, d.dnIndblkshift, d.dnNlevels, d.dnNblkptr, d.dnBonustype, d.dnChecksum, d.dnCompress, d.dnFlags] ++
    encodeWords e 2 [d.dnDatablkszsec.toNat, d.dnBonuslen.toNat] ++ [d.dnExtraSlots, 0, 0, 0] ++
    encodeWords e 8 [d.dnMaxblkid.toNat, d.dnUsed.toNat] ++ zeros 32

/-- The slot of a dnode: core, pointers, bonus, and zeros. -/
def Dnode.encode (e : Endian) (d : Dnode) : Bytes :=
  d.encodeCore e ++ d.blkptrs.flatMap (Blkptr.encode e) ++ d.bonus ++
    zeros (dnodeSize - (dnodeCoreSize + d.blkptrs.length * blkptrSize + d.bonus.length))

@[simp] theorem Dnode.length_encodeCore (e : Endian) (d : Dnode) : (d.encodeCore e).length = dnodeCoreSize := by
  simp [encodeCore, dnodeCoreSize]

theorem Blkptr.length_flatMap_encode (e : Endian) (ps : List Blkptr) :
    (ps.flatMap (Blkptr.encode e)).length = ps.length * blkptrSize := by
  rw [Radix.length_flatMap (fun p _ => p.length_encode e), Nat.mul_comm]

/-- Pointers laid end to end are decoded one by one. -/
theorem Dnode.parseBlkptrs_encode (e : Endian) {ps : List Blkptr} (h : ∀ p ∈ ps, p.Stored) (rest : Bytes) {i : Nat}
    {front : Bytes} (hfront : front.length = dnodeCoreSize + i * blkptrSize) :
    Dnode.parseBlkptrs (front ++ ps.flatMap (Blkptr.encode e) ++ rest) e i ps.length = ps := by
  induction ps generalizing i front with
  | nil => rfl
  | cons p ps ih =>
    rw [List.length_cons, Dnode.parseBlkptrs, List.flatMap_cons]
    have hslice : slice? (front ++ (p.encode e ++ ps.flatMap (Blkptr.encode e)) ++ rest) (dnodeCoreSize + i * blkptrSize)
        (dnodeCoreSize + i * blkptrSize + blkptrSize) = some (p.encode e) := by
      rw [← List.append_assoc, List.append_assoc _ _ rest]
      exact slice?_middle hfront (by rw [Blkptr.length_encode])
    rw [hslice]
    dsimp only
    rw [Blkptr.parse_encode (h p List.mem_cons_self) e, ← List.append_assoc]
    congr 1
    refine ih (fun q hq => h q (List.mem_cons_of_mem _ hq)) ?_
    rw [List.length_append, Blkptr.length_encode, hfront, Nat.succ_mul]
    rfl

/-- The fields of the core, read back. -/
theorem Dnode.read_core (e : Endian) (d : Dnode) (rest : Bytes) :
    u8At (d.encodeCore e ++ rest) 0 = d.dnType ∧ u8At (d.encodeCore e ++ rest) 1 = d.dnIndblkshift ∧
      u8At (d.encodeCore e ++ rest) 2 = d.dnNlevels ∧ u8At (d.encodeCore e ++ rest) 3 = d.dnNblkptr ∧
      u8At (d.encodeCore e ++ rest) 4 = d.dnBonustype ∧ u8At (d.encodeCore e ++ rest) 5 = d.dnChecksum ∧
      u8At (d.encodeCore e ++ rest) 6 = d.dnCompress ∧ u8At (d.encodeCore e ++ rest) 7 = d.dnFlags ∧
      u8At (d.encodeCore e ++ rest) 12 = d.dnExtraSlots ∧
      (Reader.mk e).u16 (d.encodeCore e ++ rest) 8 = d.dnDatablkszsec ∧
      (Reader.mk e).u16 (d.encodeCore e ++ rest) 10 = d.dnBonuslen ∧
      (Reader.mk e).u64 (d.encodeCore e ++ rest) 16 = d.dnMaxblkid ∧
      (Reader.mk e).u64 (d.encodeCore e ++ rest) 24 = d.dnUsed := by
  have h16 : ∀ {k : Nat} {w : UInt16}, [d.dnDatablkszsec.toNat, d.dnBonuslen.toNat][k]? = some w.toNat →
      (Reader.mk e).u16 (d.encodeCore e ++ rest) (8 + 2 * k) = w := by
    intro k w hk
    have hw := w.toNat_lt
    simp only [Reader.u16_eq, encodeCore, List.append_assoc]
    rw [readUint_append_right (by simp)]
    simp only [List.length_cons, List.length_nil, Nat.reduceAdd, Nat.add_sub_cancel_left]
    rw [readUint_encodeWords e 2 _ _ hk]
    apply UInt16.toNat_inj.1
    rw [UInt16.toNat_ofNat']
    omega
  have h64 : ∀ {k : Nat} {w : UInt64}, [d.dnMaxblkid.toNat, d.dnUsed.toNat][k]? = some w.toNat →
      (Reader.mk e).u64 (d.encodeCore e ++ rest) (16 + 8 * k) = w := by
    intro k w hk
    have hw := w.toNat_lt
    rw [Reader.u64_eq, encodeCore, List.append_assoc, List.append_assoc, readUint_append_right (by simp)]
    simp only [List.length_append, List.length_cons, List.length_nil, length_encodeWords, Nat.reduceAdd, Nat.reduceMul,
      Nat.add_sub_cancel_left]
    rw [readUint_encodeWords e 8 _ _ hk]
    apply UInt64.toNat_inj.1
    rw [UInt64.toNat_ofNat']
    omega
  have h12 : u8At (d.encodeCore e ++ rest) 12 = d.dnExtraSlots := by
    simp only [u8At, encodeCore, List.append_assoc]
    rw [List.getElem?_append_right (by simp), List.getElem?_append_right (by simp)]
    simp
  exact ⟨rfl, rfl, rfl, rfl, rfl, rfl, rfl, rfl, h12, h16 (k := 0) rfl, h16 (k := 1) rfl, h64 (k := 0) rfl,
    h64 (k := 1) rfl⟩

/-- A stored dnode is decoded from its slot, in both byte orders, whatever follows the slot. -/
theorem Dnode.parse_encode_append (e : Endian) {d : Dnode} (h : d.Stored) (rest : Bytes) :
    Dnode.parse (d.encode e ++ rest) e = some { d with endian := e } := by
  have hfits := h.fits
  have hclamp : Dnode.clampNblkptr d.dnNblkptr d.dnExtraSlots = d.blkptrs.length := by
    rw [clampNblkptr, h.extraSlots, h.nblkptr]
    unfold dnodeCoreSize blkptrSize dnodeSize at *
    change min d.blkptrs.length ((512 - 64) / 128) = d.blkptrs.length
    omega
  have hbonus : Dnode.clampBonuslen d.dnBonuslen d.dnExtraSlots d.blkptrs.length = d.bonus.length := by
    rw [clampBonuslen, h.extraSlots, h.bonuslen]
    change min d.bonus.length (dnodeSize - _) = _
    omega
  have hcore : ¬ (d.encode e ++ rest).length < dnodeCoreSize := by
    simp only [Dnode.encode, List.length_append, length_encodeCore]
    omega
  obtain ⟨c0, c1, c2, c3, c4, c5, c6, c7, c12, c8, c10, c16, c24⟩ :=
    d.read_core e (d.blkptrs.flatMap (Blkptr.encode e) ++ (d.bonus ++
      (zeros (dnodeSize - (dnodeCoreSize + d.blkptrs.length * blkptrSize + d.bonus.length)) ++ rest)))
  have hassoc : d.encode e ++ rest = d.encodeCore e ++ (d.blkptrs.flatMap (Blkptr.encode e) ++ (d.bonus ++
      (zeros (dnodeSize - (dnodeCoreSize + d.blkptrs.length * blkptrSize + d.bonus.length)) ++ rest))) := by
    simp only [Dnode.encode, List.append_assoc]
  rw [← hassoc] at c0 c1 c2 c3 c4 c5 c6 c7 c12 c8 c10 c16 c24
  have hptrs : Dnode.parseBlkptrs (d.encode e ++ rest) e 0 d.blkptrs.length = d.blkptrs := by
    rw [hassoc, ← List.append_assoc]
    exact parseBlkptrs_encode e h.blkptrs _ (by rw [length_encodeCore, Nat.zero_mul, Nat.add_zero])
  have hslice : slice? (d.encode e ++ rest) (dnodeCoreSize + d.blkptrs.length * blkptrSize)
      (dnodeCoreSize + d.blkptrs.length * blkptrSize + d.bonus.length) = some d.bonus := by
    rw [hassoc, ← List.append_assoc, ← List.append_assoc]
    exact slice?_middle (by rw [List.length_append, length_encodeCore, Blkptr.length_flatMap_encode]) rfl
  unfold Dnode.parse
  rw [if_neg hcore]
  dsimp only
  rw [c0, c1, c2, c3, c4, c5, c6, c7, c12, c8, c10, c16, c24, hclamp, hbonus, hptrs, hslice]
  rfl

theorem Dnode.parse_encode (e : Endian) {d : Dnode} (h : d.Stored) : Dnode.parse (d.encode e) e = some { d with endian := e } := by
  rw [← Dnode.parse_encode_append e h [], List.append_nil]

theorem Dnode.length_encode (e : Endian) {d : Dnode} (h : d.Stored) : (d.encode e).length = dnodeSize := by
  have hfits := h.fits
  simp only [Dnode.encode, List.length_append, length_encodeCore, Blkptr.length_flatMap_encode, length_zeros]
  omega

end ZfsForensic
