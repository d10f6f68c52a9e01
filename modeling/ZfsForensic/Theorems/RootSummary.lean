import ZfsForensic.Label

/-!
# The two decodings of a root pointer

An uberblock shows a summary of its root pointer and decodes the whole of it on demand. Both unpack the same words. They agree on
every field but one: the summary keeps the high byte of a copy's first word in the vdev, the full decoding masks it off.
-/

namespace ZfsForensic

open Octets Checked

/-- Whether a summary and a full pointer carry the same copies, sizes in bytes, compression, type, level and embedded flag. -/
structure BlkptrSummary.Agrees (summary : BlkptrSummary) (bp : Blkptr) : Prop where
  dvas : summary.dvas = bp.dvas
  lsize : summary.lsizeSectors.toNat * 512 = bp.lsizeBytes
  psize : summary.psizeSectors.toNat * 512 = bp.psizeBytes
  compression : summary.compression = bp.compression
  objectType : summary.objectType = bp.objectType
  level : summary.level = bp.level
  embedded : summary.embedded = bp.embedded

/-- The low bits of a word that fit a narrower word keep their value there. -/
theorem toNat_toUInt32 {w : UInt64} {k : Nat} (hk : k ≤ 32) (hw : w.toNat < 2 ^ k) : w.toUInt32.toNat = w.toNat := by
  have hpow : 2 ^ k ≤ 2 ^ 32 := Nat.pow_le_pow_right (by omega) hk
  rw [UInt64.toNat_toUInt32]
  exact Nat.mod_eq_of_lt (by omega)

/-- The masked vdev is the unmasked one exactly where the byte above it is zero. -/
theorem vdev_eq_iff (w : UInt64) :
    (w >>> 32).toUInt32 = ((w >>> 32) &&& 0x00ffffff).toUInt32 ↔ w.toNat < 2 ^ 56 := by
  have hw := w.toNat_lt
  have hhigh : (w >>> 32).toNat = w.toNat / 2 ^ 32 := by
    rw [UInt64.toNat_shiftRight, Nat.shiftRight_eq_div_pow]
    rfl
  have hmasked : ((w >>> 32) &&& 0x00ffffff).toNat = w.toNat / 2 ^ 32 % 2 ^ 24 := by
    rw [toNat_and_mask _ _ (w := 24) rfl, hhigh]
  have hfull : (w >>> 32).toUInt32.toNat = w.toNat / 2 ^ 32 := by
    rw [toNat_toUInt32 le_rfl (by rw [hhigh]; omega), hhigh]
  have hlow : ((w >>> 32) &&& 0x00ffffff).toUInt32.toNat = w.toNat / 2 ^ 32 % 2 ^ 24 := by
    rw [toNat_toUInt32 (k := 24) (by omega) (by rw [hmasked]; exact Nat.mod_lt _ (by omega)), hmasked]
  rw [← UInt32.toNat_inj, hfull, hlow]
  constructor
  · intro h
    have hlt : w.toNat / 2 ^ 32 % 2 ^ 24 < 2 ^ 24 := Nat.mod_lt _ (by omega)
    omega
  · intro h
    rw [Nat.mod_eq_of_lt]
    omega

/-- Two readings of one copy are the same exactly where its vdev word has no high byte. -/
theorem parseDva_eq_iff (rd : Reader) (bp : Bytes) (off : Nat) :
    BlkptrSummary.parseDva rd bp off = Dva.parse rd bp off ↔ (rd.u64 bp off).toNat < 2 ^ 56 := by
  rw [← vdev_eq_iff]
  simp only [BlkptrSummary.parseDva, Dva.parse, Dva.mk.injEq, and_true]

/-- A stored size is one sector more than its field, in at most 17 bits. -/
theorem sectors_toNat (w : UInt64) : ((w &&& 0xffff).toUInt32 + 1).toNat = (w &&& 0xffff).toUInt32.toNat + 1 := by
  have hlow : (w &&& 0xffff).toNat < 2 ^ 16 := by
    rw [toNat_and_mask _ _ (w := 16) rfl]
    exact Nat.mod_lt _ (by omega)
  have hone : (1 : UInt32).toNat = 1 := rfl
  have hfield := toNat_toUInt32 (k := 16) (by omega) hlow
  rw [UInt32.toNat_add, hone, hfield]
  omega

/-- The summary of a root pointer agrees with its full decoding exactly where no copy has a bit above its vdev. -/
theorem parse_agrees_iff (bp : Bytes) (e : Endian) (hembedded : (Blkptr.parse bp e).embedded = false) :
    (BlkptrSummary.parse ⟨e⟩ bp).Agrees (Blkptr.parse bp e) ↔
      ∀ i < 3, ((Reader.mk e).u64 bp (16 * i)).toNat < 2 ^ 56 := by
  have hbit : (((Reader.mk e).u64 bp 48 >>> 39) &&& 1 == 1) = false := hembedded
  have hdvas : (Blkptr.parse bp e).dvas = #v[Dva.parse ⟨e⟩ bp 0, Dva.parse ⟨e⟩ bp 16, Dva.parse ⟨e⟩ bp 32] := by
    simp only [Blkptr.parse, hbit, Bool.false_eq_true, if_false]
  have hcopies : (BlkptrSummary.parse ⟨e⟩ bp).dvas = (Blkptr.parse bp e).dvas ↔
      ∀ i < 3, ((Reader.mk e).u64 bp (16 * i)).toNat < 2 ^ 56 := by
    rw [hdvas, BlkptrSummary.parse]
    constructor
    · intro h i hi
      rw [← parseDva_eq_iff]
      interval_cases i
      · exact congrArg (fun v => v[0]) h
      · exact congrArg (fun v => v[1]) h
      · exact congrArg (fun v => v[2]) h
    · intro h
      have hcopy : ∀ i < 3, BlkptrSummary.parseDva ⟨e⟩ bp (16 * i) = Dva.parse ⟨e⟩ bp (16 * i) :=
        fun i hi => (parseDva_eq_iff _ _ _).2 (h i hi)
      have h0 : BlkptrSummary.parseDva ⟨e⟩ bp 0 = Dva.parse ⟨e⟩ bp 0 := hcopy 0 (by omega)
      have h1 : BlkptrSummary.parseDva ⟨e⟩ bp 16 = Dva.parse ⟨e⟩ bp 16 := hcopy 1 (by omega)
      have h2 : BlkptrSummary.parseDva ⟨e⟩ bp 32 = Dva.parse ⟨e⟩ bp 32 := hcopy 2 (by omega)
      simp only [h0, h1, h2]
  refine ⟨fun h => hcopies.1 h.dvas, fun h => ?_⟩
  refine ⟨hcopies.2 h, ?_, ?_, rfl, rfl, rfl, rfl⟩
  · rw [Blkptr.lsizeBytes_of_not_embedded hembedded]
    exact congrArg (· * 512) (sectors_toNat _)
  · rw [Blkptr.psizeBytes_of_not_embedded hembedded]
    exact congrArg (· * 512) (sectors_toNat _)

/-- A slot that holds its root pointer keeps it as it stands, and summarises it. -/
theorem rootbp_of_parse {slot : Bytes} {ub : Uberblock} (hlen : 168 ≤ slot.length) (hparse : Uberblock.parse slot = some ub) :
    ub.rootbp = BlkptrSummary.parse ⟨ub.endian⟩ ub.rootbpRaw.toList := by
  obtain ⟨bp, hbp⟩ : ∃ bp, slice? slot offRootbp (offRootbp + 128) = some bp := ⟨_, slice?_of_le (Nat.le_add_right _ _) hlen⟩
  have hraw : (rootbpRegion slot).toList = bp := by
    unfold rootbpRegion
    split
    · rename_i bp' hslice
      rw [hbp, Option.some.injEq] at hslice
      rw [hslice]
      rfl
    · rename_i hslice
      rw [hbp] at hslice
      cases hslice
  rw [Uberblock.parse] at hparse
  cases hendian : detectEndian slot with
  | none =>
    rw [hendian] at hparse
    cases hparse
  | some e =>
    rw [hendian] at hparse
    dsimp only at hparse
    rw [hbp, Option.some.injEq] at hparse
    rw [← hparse]
    dsimp only
    rw [hraw]

/-- An uberblock's summary of its root pointer agrees with the full decoding exactly where the high byte of the first word of each
copy is zero. -/
theorem root_summary_agrees_iff (slot : Bytes) (ub : Uberblock) (hlen : 168 ≤ slot.length)
    (hparse : Uberblock.parse slot = some ub) (hembedded : ub.rootbpFull.embedded = false) :
    ub.rootbp.Agrees ub.rootbpFull ↔ ∀ i < 3, ((Reader.mk ub.endian).u64 ub.rootbpRaw.toList (16 * i)).toNat < 2 ^ 56 := by
  rw [rootbp_of_parse hlen hparse]
  exact parse_agrees_iff ub.rootbpRaw.toList ub.endian hembedded

/-! ## Reserved bits of a copy -/

/-- A slot whose root pointer has one copy, its first word given. -/
def slotWithCopy (word : Nat) : Bytes :=
  encode .little 8 uberblockMagic.toNat ++ zeros 32 ++ encode .little 8 word ++ zeros 120

/-- With the reserved byte above the vdev set, the two decodings name different vdevs. -/
theorem root_summary_keeps_reserved_byte :
    ∃ ub, 168 ≤ (slotWithCopy 0x0100000000000001).length ∧ Uberblock.parse (slotWithCopy 0x0100000000000001) = some ub ∧
      ub.rootbpFull.embedded = false ∧ ub.rootbp.dvas.toList.map Dva.vdev = [0x01000000, 0, 0] ∧
      ub.rootbpFull.dvas.toList.map Dva.vdev = [0, 0, 0] ∧
      ¬ ub.rootbp.Agrees ub.rootbpFull := by
  obtain ⟨ub, hparse⟩ : ∃ ub, Uberblock.parse (slotWithCopy 0x0100000000000001) = some ub :=
    Option.isSome_iff_exists.1 (by decide +kernel)
  have hfacts : (Uberblock.parse (slotWithCopy 0x0100000000000001)).all (fun ub =>
      !ub.rootbpFull.embedded && ub.rootbp.dvas.toList.map Dva.vdev == [0x01000000, 0, 0] &&
        ub.rootbpFull.dvas.toList.map Dva.vdev == [0, 0, 0]) = true := by
    decide +kernel
  rw [hparse] at hfacts
  simp only [Option.all_some, Bool.and_eq_true, Bool.not_eq_true', beq_iff_eq] at hfacts
  obtain ⟨⟨hembedded, hsummary⟩, hfull⟩ := hfacts
  refine ⟨ub, by decide +kernel, hparse, hembedded, hsummary, hfull, ?_⟩
  intro hagrees
  rw [hagrees.dvas, hfull] at hsummary
  cases hsummary

/-- A slot with a copy on vdev 3: both decodings name it. -/
theorem root_summary_agrees_iff_vdev :
    ∃ ub, Uberblock.parse (slotWithCopy 0x0000000300000008) = some ub ∧ ub.rootbp.dvas.toList.map Dva.vdev = [3, 0, 0] ∧
      (ub.rootbp.Agrees ub.rootbpFull ↔ ∀ i < 3, ((Reader.mk ub.endian).u64 ub.rootbpRaw.toList (16 * i)).toNat < 2 ^ 56) := by
  obtain ⟨ub, hparse⟩ : ∃ ub, Uberblock.parse (slotWithCopy 0x0000000300000008) = some ub :=
    Option.isSome_iff_exists.1 (by decide +kernel)
  have hfacts : (Uberblock.parse (slotWithCopy 0x0000000300000008)).all (fun ub =>
      !ub.rootbpFull.embedded && ub.rootbp.dvas.toList.map Dva.vdev == [3, 0, 0]) = true := by
    decide +kernel
  rw [hparse] at hfacts
  simp only [Option.all_some, Bool.and_eq_true, Bool.not_eq_true', beq_iff_eq] at hfacts
  obtain ⟨hembedded, hvdev⟩ := hfacts
  exact ⟨ub, hparse, hvdev, root_summary_agrees_iff _ ub (by decide +kernel) hparse hembedded⟩

end ZfsForensic
