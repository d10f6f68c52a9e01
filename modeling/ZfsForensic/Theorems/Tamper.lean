import ZfsForensic.Lemmas.Image
import ZfsForensic.Lemmas.Verdict
import ZfsForensic.Lib.Fletcher

/-!
# Small tampers of the pool root

The sums of a Fletcher checksum tell a block from every block that differs in one word, and the second sum of fletcher4 tells it
from every block with two words exchanged. So the auditor, which checks the first copy of the active root block, reports each such
change of it: the label it reads the pointer from lies in front of every copy and stays as it was.
-/

namespace ZfsForensic

open Octets Checked

/-! ## Changes of an image -/

/-- Two images of one length that differ, and only in the bytes `a..b`. -/
structure DiffersOnlyIn (image image' : Bytes) (a b : Nat) : Prop where
  length : image'.length = image.length
  outside : ∀ i, i < a ∨ b ≤ i → image'[i]? = image[i]?
  ne : image' ≠ image

/-- Two images of one length that differ, and only in the exchange of two words of four bytes. -/
structure ExchangesWords (image image' : Bytes) (a b : Nat) : Prop where
  length : image'.length = image.length
  first : ∀ r < 4, image'[a + r]? = image[b + r]?
  second : ∀ r < 4, image'[b + r]? = image[a + r]?
  outside : ∀ i, (i < a ∨ a + 4 ≤ i) → (i < b ∨ b + 4 ≤ i) → image'[i]? = image[i]?
  ne : image' ≠ image

/-- Bytes that differ only in a range differ there. -/
theorem DiffersOnlyIn.exists_ne {image image' : Bytes} {a w : Nat} (h : DiffersOnlyIn image image' a (a + w)) :
    ¬ ∀ r < w, image'[a + r]? = image[a + r]? := by
  intro hsame
  refine h.ne (List.ext_getElem? fun i => ?_)
  by_cases hi : i < a ∨ a + w ≤ i
  · exact h.outside i hi
  · have hr := hsame (i - a) (by omega)
    rwa [Nat.add_sub_cancel' (by omega)] at hr

/-- A change of a block of `size` bytes at `phys`: one aligned word of the checksum function's width, or, under fletcher4, an
exchange of two words. -/
inductive SmallTamper (image image' : Bytes) (phys size : Nat) : ChecksumType → Prop
  | word2 {k : Nat} (hk : 8 * k + 8 ≤ size) (h : DiffersOnlyIn image image' (phys + 8 * k) (phys + 8 * k + 8)) :
      SmallTamper image image' phys size .fletcher2
  | word4 {k : Nat} (hk : 4 * k + 4 ≤ size) (h : DiffersOnlyIn image image' (phys + 4 * k) (phys + 4 * k + 4)) :
      SmallTamper image image' phys size .fletcher4
  | exchange {i j : Nat} (hij : i < j) (hj : 4 * j + 4 ≤ size)
      (h : ExchangesWords image image' (phys + 4 * i) (phys + 4 * j)) : SmallTamper image image' phys size .fletcher4

theorem SmallTamper.length_eq {image image' : Bytes} {phys size : Nat} {kind : ChecksumType}
    (h : SmallTamper image image' phys size kind) : image'.length = image.length := by
  cases h with
  | word2 _ h => exact h.length
  | word4 _ h => exact h.length
  | exchange _ _ h => exact h.length

/-- Such a change leaves every byte in front of the block as it was. -/
theorem SmallTamper.getElem?_front {image image' : Bytes} {phys size : Nat} {kind : ChecksumType}
    (h : SmallTamper image image' phys size kind) {i : Nat} (hi : i < phys) : image'[i]? = image[i]? := by
  cases h with
  | word2 _ h => exact h.outside i (Or.inl (by omega))
  | word4 _ h => exact h.outside i (Or.inl (by omega))
  | exchange _ _ h => exact h.outside i (Or.inl (by omega)) (Or.inl (by omega))

/-! ## The sums as running sums -/

/-- The first two sums of fletcher4. -/
theorem fletcher4_sums (data : Bytes) (e : Endian) :
    (fletcher4 data e).get 0 = (Fletcher.sums (fletcher4Word data e) (data.length / 4)).1 ∧
      (fletcher4 data e).get 1 = (Fletcher.sums (fletcher4Word data e) (data.length / 4)).2 := by
  have hfold : ∀ n : Nat,
      (((List.range n).map (fletcher4Word data e)).foldl Fletcher4.step ⟨0, 0, 0, 0⟩).a =
          (Fletcher.sums (fletcher4Word data e) n).1 ∧
        (((List.range n).map (fletcher4Word data e)).foldl Fletcher4.step ⟨0, 0, 0, 0⟩).b =
          (Fletcher.sums (fletcher4Word data e) n).2 := by
    intro n
    induction n with
    | zero => exact ⟨rfl, rfl⟩
    | succ n ih =>
      rw [List.range_succ, List.map_append, List.foldl_append, Fletcher.sums, ← ih.1, ← ih.2]
      exact ⟨rfl, rfl⟩
  exact hfold (data.length / 4)

example : fletcher4 [1, 0, 0, 0, 2, 0, 0, 0] .little = #v[3, 4, 5, 6] := by decide

/-- The first sums of fletcher2, of the even words and of the odd ones. -/
theorem fletcher2_sums (data : Bytes) (e : Endian) :
    (fletcher2 data e).get 0 = (Fletcher.sums (fun i => fletcher2Word data e (i * 16)) (data.length / 16)).1 ∧
      (fletcher2 data e).get 1 = (Fletcher.sums (fun i => fletcher2Word data e (i * 16 + 8)) (data.length / 16)).1 := by
  have hfold : ∀ n : Nat,
      (((List.range n).map (fun i => (fletcher2Word data e (i * 16), fletcher2Word data e (i * 16 + 8)))).foldl
          Fletcher2.step ⟨0, 0, 0, 0⟩).a0 = (Fletcher.sums (fun i => fletcher2Word data e (i * 16)) n).1 ∧
        (((List.range n).map (fun i => (fletcher2Word data e (i * 16), fletcher2Word data e (i * 16 + 8)))).foldl
          Fletcher2.step ⟨0, 0, 0, 0⟩).a1 = (Fletcher.sums (fun i => fletcher2Word data e (i * 16 + 8)) n).1 := by
    intro n
    induction n with
    | zero => exact ⟨rfl, rfl⟩
    | succ n ih =>
      rw [List.range_succ, List.map_append, List.foldl_append, Fletcher.sums, Fletcher.sums, ← ih.1, ← ih.2]
      exact ⟨rfl, rfl⟩
  exact hfold (data.length / 16)

theorem toNat_fletcher4Word (data : Bytes) (e : Endian) (i : Nat) :
    (fletcher4Word data e i).toNat = readUint e 4 data (i * 4) := by
  have h := readUint_lt e 4 data (i * 4)
  cases e <;>
  · simp only [fletcher4Word, leU32, beU32, UInt32.toNat_toUInt64, UInt32.toNat_ofNat']
    exact Nat.mod_eq_of_lt h

theorem toNat_fletcher2Word (data : Bytes) (e : Endian) (off : Nat) :
    (fletcher2Word data e off).toNat = readUint e 8 data off := by
  have h := readUint_lt e 8 data off
  cases e <;>
  · simp only [fletcher2Word, leU64, beU64, UInt64.toNat_ofNat']
    exact Nat.mod_eq_of_lt h

theorem fletcher4Word_lt (data : Bytes) (e : Endian) (i : Nat) : (fletcher4Word data e i).toNat < 2 ^ 32 := by
  rw [toNat_fletcher4Word]
  exact readUint_lt e 4 data (i * 4)

/-! ## Blocks that a change tells apart -/

section Blocks

variable {image image' raw raw' : Bytes} {phys size : Nat} (hraw : slice? image phys (phys + size) = some raw)
  (hraw' : slice? image' phys (phys + size) = some raw')
include hraw hraw'

/-- A word of one block is a word of the other exactly when the images hold the same bytes there. -/
theorem readUint_slices_eq_iff (e : Endian) {w off off' : Nat} (hoff : off + w ≤ size) (hoff' : off' + w ≤ size) :
    readUint e w raw' off = readUint e w raw off' ↔ ∀ r < w, image'[phys + off + r]? = image[phys + off' + r]? := by
  have hlen := slice?_length hraw
  have hlen' := slice?_length hraw'
  rw [Nat.add_sub_cancel_left] at hlen hlen'
  rw [readUint_eq_iff (by omega) (by omega)]
  refine forall₂_congr fun r hr => ?_
  rw [getElem?_of_slice? hraw (by omega), getElem?_of_slice? hraw' (by omega), Nat.add_assoc, Nat.add_assoc]

theorem fletcher4Word_eq_iff (e : Endian) {k m : Nat} (hk : 4 * k + 4 ≤ size) (hm : 4 * m + 4 ≤ size) :
    fletcher4Word raw' e k = fletcher4Word raw e m ↔ ∀ r < 4, image'[phys + 4 * k + r]? = image[phys + 4 * m + r]? := by
  rw [← UInt64.toNat_inj, toNat_fletcher4Word, toNat_fletcher4Word, Nat.mul_comm k, Nat.mul_comm m]
  exact readUint_slices_eq_iff hraw hraw' e hk hm

theorem fletcher2Word_eq_iff (e : Endian) {off : Nat} (hoff : off + 8 ≤ size) :
    fletcher2Word raw' e off = fletcher2Word raw e off ↔ ∀ r < 8, image'[phys + off + r]? = image[phys + off + r]? := by
  rw [← UInt64.toNat_inj, toNat_fletcher2Word, toNat_fletcher2Word]
  exact readUint_slices_eq_iff hraw hraw' e hoff hoff

/-- A change of one word changes the sum of fletcher4. -/
theorem fletcher4_ne_of_word (e : Endian) {k : Nat} (hk : 4 * k + 4 ≤ size)
    (h : DiffersOnlyIn image image' (phys + 4 * k) (phys + 4 * k + 4)) : fletcher4 raw' e ≠ fletcher4 raw e := by
  have hlen := slice?_length hraw
  have hlen' := slice?_length hraw'
  rw [Nat.add_sub_cancel_left] at hlen hlen'
  have hne : fletcher4Word raw' e k ≠ fletcher4Word raw e k :=
    fun heq => h.exists_ne ((fletcher4Word_eq_iff hraw hraw' e hk hk).1 heq)
  have hother : ∀ m, m < size / 4 → m ≠ k → fletcher4Word raw' e m = fletcher4Word raw e m := fun m hm hmk =>
    (fletcher4Word_eq_iff hraw hraw' e (by omega) (by omega)).2 fun r hr => h.outside _ (by omega)
  have hsub := Fletcher.sums_fst_sub_of_change (show k < size / 4 by omega) hother
  intro heq
  rw [← hlen, ← (fletcher4_sums raw e).1, hlen, ← hlen', ← (fletcher4_sums raw' e).1, heq, sub_self] at hsub
  exact hne (sub_eq_zero.1 hsub.symm)

/-- An exchange of two words changes its second sum. -/
theorem fletcher4_ne_of_exchange (e : Endian) {i j : Nat} (hij : i < j) (hj : 4 * j + 4 ≤ size) (hsize : size ≤ 2 ^ 25)
    (h : ExchangesWords image image' (phys + 4 * i) (phys + 4 * j)) : fletcher4 raw' e ≠ fletcher4 raw e := by
  have hlen := slice?_length hraw
  have hlen' := slice?_length hraw'
  rw [Nat.add_sub_cancel_left] at hlen hlen'
  have hfirst : fletcher4Word raw' e i = fletcher4Word raw e j :=
    (fletcher4Word_eq_iff hraw hraw' e (by omega) hj).2 h.first
  have hsecond : fletcher4Word raw' e j = fletcher4Word raw e i :=
    (fletcher4Word_eq_iff hraw hraw' e hj (by omega)).2 h.second
  have hother : ∀ m, m < size / 4 → m ≠ i → m ≠ j → fletcher4Word raw' e m = fletcher4Word raw e m :=
    fun m hm hmi hmj => (fletcher4Word_eq_iff hraw hraw' e (by omega) (by omega)).2
      fun r hr => h.outside _ (by omega) (by omega)
  -- were the two words the same, the exchange would change nothing
  have hne : fletcher4Word raw e j ≠ fletcher4Word raw e i := by
    intro heq
    refine h.ne (List.ext_getElem? fun p => ?_)
    by_cases hpi : phys + 4 * i ≤ p ∧ p < phys + 4 * i + 4
    · have hp := (fletcher4Word_eq_iff hraw hraw' e (by omega) (by omega)).1 (hfirst.trans heq) (p - (phys + 4 * i)) (by omega)
      rwa [Nat.add_sub_cancel' hpi.1] at hp
    · by_cases hpj : phys + 4 * j ≤ p ∧ p < phys + 4 * j + 4
      · have hp := (fletcher4Word_eq_iff hraw hraw' e hj hj).1 (hsecond.trans heq.symm) (p - (phys + 4 * j)) (by omega)
        rwa [Nat.add_sub_cancel' hpj.1] at hp
      · exact h.outside p (by omega) (by omega)
  have hsub := Fletcher.sums_snd_sub_of_exchange hij (show j < size / 4 by omega) hfirst hsecond hother
  intro heq
  rw [← hlen, ← (fletcher4_sums raw e).2, hlen, ← hlen', ← (fletcher4_sums raw' e).2, heq, sub_self] at hsub
  exact Fletcher.nsmul_sub_ne_zero (by omega) (by omega) (fletcher4Word_lt raw e j) (fletcher4Word_lt raw e i) hne hsub.symm

/-- A change of one word changes one of the two sums of fletcher2. -/
theorem fletcher2_ne_of_word (e : Endian) {k : Nat} (hk : 8 * k + 8 ≤ size) (hsize : size % 16 = 0)
    (h : DiffersOnlyIn image image' (phys + 8 * k) (phys + 8 * k + 8)) : fletcher2 raw' e ≠ fletcher2 raw e := by
  have hlen := slice?_length hraw
  have hlen' := slice?_length hraw'
  rw [Nat.add_sub_cancel_left] at hlen hlen'
  have hne : fletcher2Word raw' e (8 * k) ≠ fletcher2Word raw e (8 * k) :=
    fun heq => h.exists_ne ((fletcher2Word_eq_iff hraw hraw' e hk).1 heq)
  have hother : ∀ off, off + 8 ≤ size → (off + 8 ≤ 8 * k ∨ 8 * k + 8 ≤ off) →
      fletcher2Word raw' e off = fletcher2Word raw e off := fun off hoff hapart =>
    (fletcher2Word_eq_iff hraw hraw' e hoff).2 fun r hr => h.outside _ (by omega)
  intro heq
  -- the word is the even or the odd one of its pair
  obtain hk2 | hk2 : 8 * k = k / 2 * 16 ∨ 8 * k = k / 2 * 16 + 8 := by omega
  · have hsub := Fletcher.sums_fst_sub_of_change (w := fun i => fletcher2Word raw e (i * 16))
      (v := fun i => fletcher2Word raw' e (i * 16)) (show k / 2 < size / 16 by omega)
      (fun m hm hmk => hother _ (by omega) (by omega))
    rw [← hlen, ← (fletcher2_sums raw e).1, hlen, ← hlen', ← (fletcher2_sums raw' e).1, heq, sub_self] at hsub
    rw [hk2] at hne
    exact hne (sub_eq_zero.1 hsub.symm)
  · have hsub := Fletcher.sums_fst_sub_of_change (w := fun i => fletcher2Word raw e (i * 16 + 8))
      (v := fun i => fletcher2Word raw' e (i * 16 + 8)) (show k / 2 < size / 16 by omega)
      (fun m hm hmk => hother _ (by omega) (by omega))
    rw [← hlen, ← (fletcher2_sums raw e).2, hlen, ← hlen', ← (fletcher2_sums raw' e).2, heq, sub_self] at hsub
    rw [hk2] at hne
    exact hne (sub_eq_zero.1 hsub.symm)

/-- A block that passes fails after a small tamper. -/
theorem SmallTamper.fails (Γ : Ctx) {bp : Blkptr} (h16 : size % 16 = 0) (h25 : size ≤ 2 ^ 25)
    (htamper : SmallTamper image image' phys size (ChecksumType.fromRaw bp.checksum))
    (hok : verify Γ (ChecksumType.fromRaw bp.checksum) bp.byteorder raw bp.checksumWords = some true) :
    bp.Fails Γ raw' := by
  unfold Blkptr.Fails
  generalize ChecksumType.fromRaw bp.checksum = kind at htamper hok ⊢
  cases htamper with
  | word2 hk h =>
    simp only [verify, Option.some.injEq, beq_iff_eq] at hok ⊢
    rw [← hok, beq_eq_false_iff_ne]
    exact fletcher2_ne_of_word hraw hraw' _ hk h16 h
  | word4 hk h =>
    simp only [verify, Option.some.injEq, beq_iff_eq] at hok ⊢
    rw [← hok, beq_eq_false_iff_ne]
    exact fletcher4_ne_of_word hraw hraw' _ hk h
  | exchange hij hj h =>
    simp only [verify, Option.some.injEq, beq_iff_eq] at hok ⊢
    rw [← hok, beq_eq_false_iff_ne]
    exact fletcher4_ne_of_exchange hraw hraw' _ hij hj h25 h

end Blocks

/-! ## The audit -/

/-- A copy of a decoded pointer that lies in an image holds its physical size, a whole number of sectors up to 32 MiB. -/
theorem slice?_of_firstCopy_parse {image raw bytes : Bytes} {e : Endian} {phys : Nat} (himage : image.length < 2 ^ 63)
    (h : firstCopy image (Blkptr.parse bytes e) = some (phys, raw)) :
    slice? image phys (phys + (Blkptr.parse bytes e).psizeBytes) = some raw ∧
      (Blkptr.parse bytes e).psizeBytes % 512 = 0 ∧ (Blkptr.parse bytes e).psizeBytes ≤ 2 ^ 25 := by
  have hslice := (slice?_of_firstCopy h).2
  have hpsize := (Blkptr.parse_sizes_lt bytes e).2
  have hembedded : (Blkptr.parse bytes e).embedded = false := by
    by_contra hemb
    rw [firstCopy_eq_none_of_isEmpty image (Blkptr.parse_isEmpty bytes e (by simp [hemb]))] at h
    exact absurd h (by simp)
  have hsize := Blkptr.psizeBytes_of_not_embedded hembedded
  obtain ⟨-, hstop, -⟩ := slice?_eq_some_iff.1 hslice
  have hsat : satAdd phys (Blkptr.parse bytes e).psizeBytes = phys + (Blkptr.parse bytes e).psizeBytes := by
    unfold satAdd at hstop ⊢
    omega
  rw [hsat] at hslice
  exact ⟨hslice, by omega, by omega⟩

/-- Where the first copy of the active root block verifies, the audit of an image that differs from it by a small tamper of that
copy reports the uberblock, unless the copy has become all zero. -/
theorem audit_reports_small_tamper (Γ : Ctx) (image image' l0Bytes raw : Bytes) (l0 : VdevLabel) (phys : Nat)
    (himage : image.length < 2 ^ 63) (hbytes : slice? image 0 labelSize = some l0Bytes)
    (hlabel : VdevLabel.parse l0Bytes = .ok l0)
    (hcopy : firstCopy image l0.activeUberblock.rootbpFull = some (phys, raw))
    (hok : verify Γ (ChecksumType.fromRaw l0.activeUberblock.rootbpFull.checksum) l0.activeUberblock.rootbpFull.byteorder raw
      l0.activeUberblock.rootbpFull.checksumWords = some true)
    (htamper : SmallTamper image image' phys l0.activeUberblock.rootbpFull.psizeBytes
      (ChecksumType.fromRaw l0.activeUberblock.rootbpFull.checksum))
    (hnonzero : ∃ b ∈ (image'.drop phys).take l0.activeUberblock.rootbpFull.psizeBytes, b ≠ 0) :
    Anomaly.new (.uberblockChecksumMismatch l0.activeUberblock.txg l0.activeSlot) ∈ auditImage Γ image' := by
  have hlen := htamper.length_eq
  have hpast := (slice?_of_firstCopy hcopy).1
  obtain ⟨raw', hcopy'⟩ := firstCopy_resize hlen hcopy
  obtain ⟨hslice, h512, h25⟩ := slice?_of_firstCopy_parse himage hcopy
  obtain ⟨hslice', -, -⟩ := slice?_of_firstCopy_parse (hlen ▸ himage) hcopy'
  -- the label lies in front of the copy
  have hbytes' : slice? image' 0 labelSize = some l0Bytes := by
    rw [← hbytes]
    refine slice?_congr hlen fun i _ hi => htamper.getElem?_front ?_
    rw [labelSize] at hi
    omega
  have htampered : Tampered Γ image' l0.activeUberblock.rootbpFull := by
    refine ⟨phys, raw', hcopy', ?_, SmallTamper.fails hslice hslice' Γ (by omega) h25 htamper hok⟩
    obtain ⟨-, -, hraw'⟩ := slice?_eq_some_iff.1 hslice'
    rw [Nat.add_sub_cancel_left] at hraw'
    rw [hraw']
    exact hnonzero
  have hverdict := (verdict_parse_eq_mismatch_iff Γ image' _ _).2 htampered
  have hcheck : checkUberblockRootbp Γ image' l0 =
      [Anomaly.new (.uberblockChecksumMismatch l0.activeUberblock.txg l0.activeSlot)] := by
    rw [checkUberblockRootbp, Uberblock.rootbpFull, hverdict]
  simp only [auditImage, hbytes', hlabel, hcheck]
  exact List.mem_append_left _ (List.mem_append_left _ List.mem_cons_self)

/-! ## A root block of one sector -/

/-- A root block that begins with a given word. -/
def rootSector (b : UInt8) : Bytes := b :: zeros 511

/-- The pointer to a root block that begins with one, at the boot skew, under fletcher4. -/
def sectorPtr : Blkptr :=
  { (default : Blkptr) with
    dvas := #v[⟨0, 1, 0, false⟩, default, default]
    compression := 2
    checksum := 7
    objectType := 11
    byteorder := .little
    logicalBirth := 7
    fill := 1
    checksumWords := #v[1, 128, 8256, 357760] }

theorem sectorPtr_stored : sectorPtr.Stored := by
  refine ⟨rfl, fun d hd => ?_, by decide, by decide, by decide, by decide, rfl, rfl, rfl⟩
  have hcases : d = ⟨0, 1, 0, false⟩ ∨ d = default := by simpa [sectorPtr] using hd
  rcases hcases with rfl | rfl <;> exact ⟨by decide, by decide, by decide⟩

/-- An image of that pointer and a root block. -/
def sectorImage (b : UInt8) : Bytes := imageOf 7 (sectorPtr.encodeVector .little) (rootSector b)

theorem rootbpFull_sectorImage :
    (vdevLabelOf 7 (sectorPtr.encodeVector .little)).activeUberblock.rootbpFull = sectorPtr :=
  Blkptr.parse_encode sectorPtr_stored .little

theorem length_rootSector (b : UInt8) : (rootSector b).length = 512 := by
  rw [rootSector, List.length_cons, length_zeros]

theorem length_sectorImage (b : UInt8) : (sectorImage b).length = 0x400000 + 512 := by
  rw [sectorImage, imageOf, List.length_append, length_frontOf, length_rootSector]

theorem firstCopy_sectorImage (b : UInt8) : firstCopy (sectorImage b) sectorPtr = some (0x400000, rootSector b) := by
  have hslice : slice? (sectorImage b) 0x400000 (0x400000 + 512) = some (rootSector b) := by
    rw [sectorImage, slice?_imageOf 7 _ _ _ le_rfl, bodyGet, if_pos (by omega), Nat.sub_self, Nat.add_sub_cancel_left]
    exact slice?_self (length_rootSector b)
  have hcopy : copyAt (sectorImage b) sectorPtr ⟨0, 1, 0, false⟩ = some (0x400000, rootSector b) :=
    copyAt_eq_some_iff.2 ⟨by decide, by decide, hslice⟩
  have hdvas : sectorPtr.dvas.toList = [⟨0, 1, 0, false⟩, default, default] := rfl
  rw [firstCopy, hdvas, List.findSome?_cons, hcopy]

theorem sectorImage_differs : DiffersOnlyIn (sectorImage 1) (sectorImage 2) (0x400000 + 4 * 0) (0x400000 + 4 * 0 + 4) := by
  have hfront := length_frontOf 7 (sectorPtr.encodeVector .little)
  refine ⟨by rw [length_sectorImage, length_sectorImage], fun i hi => ?_, fun heq => ?_⟩
  · unfold sectorImage imageOf
    by_cases hlt : i < 0x400000
    · rw [List.getElem?_append_left (by omega), List.getElem?_append_left (by omega)]
    · obtain ⟨n, hn⟩ := Nat.exists_eq_add_of_le (show 0x400000 + 1 ≤ i by omega)
      rw [List.getElem?_append_right (by omega), List.getElem?_append_right (by omega), hfront, hn, Nat.add_assoc,
        Nat.add_sub_cancel_left, Nat.add_comm, rootSector, rootSector, List.getElem?_cons_succ, List.getElem?_cons_succ]
  · have hbody : rootSector 2 = rootSector 1 := List.append_cancel_left heq
    exact absurd (List.cons.inj hbody).1 (by decide)

/-- The audit of an image whose root block was changed in its first word. -/
theorem audit_reports_changed_sector :
    Anomaly.new (.uberblockChecksumMismatch 7 0) ∈ auditImage plainCtx (sectorImage 2) := by
  refine audit_reports_small_tamper plainCtx (sectorImage 1) (sectorImage 2) _ (rootSector 1)
    (vdevLabelOf 7 (sectorPtr.encodeVector .little)) 0x400000 ?_ (slice?_label_imageOf _ _ _) (parse_labelOf _ _) ?_ ?_ ?_ ?_
  · rw [length_sectorImage]
    omega
  · rw [rootbpFull_sectorImage, firstCopy_sectorImage]
  · rw [rootbpFull_sectorImage]
    decide +kernel
  · rw [rootbpFull_sectorImage]
    exact .word4 (k := 0) (by decide) sectorImage_differs
  · rw [rootbpFull_sectorImage, sectorImage, imageOf, List.drop_left' (length_frontOf _ _)]
    exact ⟨2, by decide, by decide⟩

end ZfsForensic
