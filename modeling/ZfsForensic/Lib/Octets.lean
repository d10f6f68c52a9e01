import Mathlib.Data.Nat.Bitwise
import ZfsForensic.Lib.Radix

/-!
# Byte strings: slices and integers in either byte order

A byte string is a list of bytes. `slice?` is a checked range of one; `encode` and `decode` write and read an unsigned integer
of a given width in either byte order; `readUint` reads one at an offset, and reads zero where the range lies outside.

The lemmas say how a slice and a read pass through a concatenation, so that a string built from parts is read part by part and
never evaluated whole.
-/

namespace Octets

/-- A byte string. -/
abbrev Bytes := List UInt8

/-- A byte order. -/
inductive Endian where
  | little
  | big
deriving DecidableEq, Repr, Inhabited

/-- `n` zero bytes. -/
abbrev zeros (n : Nat) : Bytes := List.replicate n 0

theorem length_zeros (n : Nat) : (zeros n).length = n := List.length_replicate

/-! ## Slices -/

/-- The bytes `a..b`, when that range lies inside the string. -/
def slice? (data : Bytes) (a b : Nat) : Option Bytes :=
  if a ≤ b ∧ b ≤ data.length then some ((data.drop a).take (b - a)) else none

/-- A slice exists exactly when its range lies inside the string, and it is that range. -/
theorem slice?_eq_some_iff {data s : Bytes} {a b : Nat} :
    slice? data a b = some s ↔ a ≤ b ∧ b ≤ data.length ∧ s = (data.drop a).take (b - a) := by
  unfold slice?
  split
  · rename_i h
    simp only [Option.some.injEq, h.1, h.2, true_and]
    exact eq_comm
  · rename_i h
    simp only [reduceCtorEq, false_iff]
    exact fun h' => h ⟨h'.1, h'.2.1⟩

theorem slice?_of_le {data : Bytes} {a b : Nat} (hab : a ≤ b) (hb : b ≤ data.length) :
    slice? data a b = some ((data.drop a).take (b - a)) :=
  slice?_eq_some_iff.2 ⟨hab, hb, rfl⟩

theorem slice?_eq_none_of_lt {data : Bytes} {a b : Nat} (h : data.length < b) : slice? data a b = none := by
  unfold slice?
  rw [if_neg]
  omega

theorem slice?_length {data s : Bytes} {a b : Nat} (h : slice? data a b = some s) : s.length = b - a := by
  obtain ⟨hab, hb, rfl⟩ := slice?_eq_some_iff.1 h
  simp only [List.length_take, List.length_drop]
  omega

/-- A slice that ends inside the first part is a slice of the first part. -/
theorem slice?_append_left {x y : Bytes} {a b : Nat} (hb : b ≤ x.length) : slice? (x ++ y) a b = slice? x a b := by
  by_cases hab : a ≤ b
  · rw [slice?_of_le hab (by simp; omega), slice?_of_le hab hb, List.drop_append_of_le_length (by omega),
      List.take_append_of_le_length (by simp; omega)]
  · simp [slice?, hab]

/-- A slice that begins past the first part is a slice of the rest. -/
theorem slice?_append_right {x y : Bytes} {a b : Nat} (ha : x.length ≤ a) (hab : a ≤ b) :
    slice? (x ++ y) a b = slice? y (a - x.length) (b - x.length) := by
  unfold slice?
  rw [List.length_append, List.drop_append, List.drop_eq_nil_of_le ha, List.nil_append]
  have hsub : b - x.length - (a - x.length) = b - a := by omega
  rw [hsub]
  by_cases h : b ≤ x.length + y.length
  · rw [if_pos (by omega), if_pos (by omega)]
  · rw [if_neg (by omega), if_neg (by omega)]

theorem slice?_self {x : Bytes} {n : Nat} (h : x.length = n) : slice? x 0 n = some x := by
  rw [slice?_of_le (by omega) (by omega), List.drop_zero, Nat.sub_zero, List.take_of_length_le (by omega)]

/-- The last part of a concatenation is the slice behind the rest. -/
theorem slice?_suffix {x y : Bytes} {a b : Nat} (ha : x.length = a) (hb : a + y.length = b) :
    slice? (x ++ y) a b = some y := by
  rw [slice?_append_right (by omega) (by omega), ← hb, ha, Nat.sub_self, Nat.add_sub_cancel_left]
  exact slice?_self rfl

/-- A middle part of a concatenation is the slice behind the parts before it. -/
theorem slice?_middle {x y z : Bytes} {a b : Nat} (ha : x.length = a) (hb : a + y.length = b) :
    slice? (x ++ y ++ z) a b = some y := by
  rw [slice?_append_left (by rw [List.length_append]; omega)]
  exact slice?_suffix ha hb

/-- A slice of zeros is zeros. -/
theorem slice?_zeros {n a b : Nat} (hab : a ≤ b) (hb : b ≤ n) : slice? (zeros n) a b = some (zeros (b - a)) := by
  rw [slice?_of_le hab (by simpa using hb), List.drop_replicate, List.take_replicate]
  congr 2
  omega

/-- A slice of a string cut short is the slice where it ends before the cut. -/
theorem slice?_take (data : Bytes) (a b n : Nat) : slice? (data.take n) a b = if b ≤ n then slice? data a b else none := by
  by_cases hb : b ≤ n
  · rw [if_pos hb]
    have hmin : min (b - a) (n - a) = b - a := by omega
    have hrange : (a ≤ b ∧ b ≤ (data.take n).length) = (a ≤ b ∧ b ≤ data.length) := by
      rw [List.length_take, eq_iff_iff]
      omega
    unfold slice?
    simp only [hrange, List.drop_take, List.take_take, hmin]
  · rw [if_neg hb, slice?_eq_none_of_lt (by rw [List.length_take]; omega)]

/-- A slice splits at any point inside it. -/
theorem slice?_split {data s : Bytes} {a b c : Nat} (h : slice? data a c = some s) (hab : a ≤ b) (hbc : b ≤ c) :
    ∃ x y, slice? data a b = some x ∧ s = x ++ y := by
  obtain ⟨-, hc, rfl⟩ := slice?_eq_some_iff.1 h
  refine ⟨(data.drop a).take (b - a), ((data.drop a).drop (b - a)).take (c - b), slice?_of_le hab (by omega), ?_⟩
  have hsum : c - a = (b - a) + (c - b) := by omega
  rw [hsum, List.take_add]

/-- A slice inside one piece of a concatenation of equal pieces is that slice of the piece. -/
theorem slice?_flatMap {α : Type} {f : α → Bytes} {w q r k : Nat} {l : List α} {a : α} (h : ∀ a ∈ l, (f a).length = w)
    (ha : l[q]? = some a) (hk : r + k ≤ w) :
    slice? (l.flatMap f) (w * q + r) (w * q + r + k) = slice? (f a) r (r + k) := by
  obtain ⟨hq, hget⟩ := List.getElem?_eq_some_iff.1 ha
  have hlen : (f a).length = w := h a (hget ▸ List.getElem_mem hq)
  have hend : w * (q + 1) ≤ w * l.length := Nat.mul_le_mul_left _ hq
  rw [Nat.mul_succ] at hend
  rw [slice?_of_le (by omega) (by rw [Radix.length_flatMap h]; omega), slice?_of_le (by omega) (by omega),
    Nat.add_sub_cancel_left, Nat.add_sub_cancel_left, Radix.take_drop_flatMap h ha hk]

/-- Two strings of one length that agree on a range have the same slice there. -/
theorem slice?_congr {x y : Bytes} {a b : Nat} (hl : x.length = y.length)
    (h : ∀ i, a ≤ i → i < b → x[i]? = y[i]?) : slice? x a b = slice? y a b := by
  unfold slice?
  rw [hl]
  split
  · congr 1
    apply List.ext_getElem?
    intro i
    by_cases hi : i < b - a
    · simp only [List.getElem?_take_of_lt hi, List.getElem?_drop]
      exact h _ (by omega) (by omega)
    · rw [List.getElem?_take_eq_none (by omega), List.getElem?_take_eq_none (by omega)]
  · rfl

/-- A byte of a slice is the byte of the string at that offset. -/
theorem getElem?_of_slice? {data s : Bytes} {a b i : Nat} (h : slice? data a b = some s) (hi : i < b - a) :
    s[i]? = data[a + i]? := by
  obtain ⟨-, -, rfl⟩ := slice?_eq_some_iff.1 h
  rw [List.getElem?_take_of_lt hi, List.getElem?_drop]

/-! ## Integers in either byte order -/

/-- The `w` low bytes of `n`, least significant first. -/
def leBytes : Nat → Nat → Bytes
  | 0, _ => []
  | w + 1, n => UInt8.ofNat (n % 256) :: leBytes w (n / 256)

/-- The integer whose bytes, least significant first, are given. -/
def ofLeBytes : Bytes → Nat
  | [] => 0
  | b :: bs => b.toNat + 256 * ofLeBytes bs

/-- The `w` bytes of `n` in a byte order. -/
def encode : Endian → Nat → Nat → Bytes
  | .little, w, n => leBytes w n
  | .big, w, n => (leBytes w n).reverse

/-- The integer a byte string writes in a byte order. -/
def decode : Endian → Bytes → Nat
  | .little, bs => ofLeBytes bs
  | .big, bs => ofLeBytes bs.reverse

@[simp] theorem length_leBytes (w n : Nat) : (leBytes w n).length = w := by
  induction w generalizing n with
  | zero => rfl
  | succ w ih => simp [leBytes, ih]

@[simp] theorem length_encode (e : Endian) (w n : Nat) : (encode e w n).length = w := by
  cases e <;> simp [encode]

theorem ofLeBytes_leBytes (w n : Nat) : ofLeBytes (leBytes w n) = n % 256 ^ w := by
  induction w generalizing n with
  | zero => simp [leBytes, ofLeBytes, Nat.mod_one]
  | succ w ih =>
    have hb : (UInt8.ofNat (n % 256)).toNat = n % 256 := by
      rw [UInt8.toNat_ofNat']
      omega
    rw [leBytes, ofLeBytes, ih, hb, Nat.pow_succ', Nat.mod_mul]

/-- Reading back what was written gives the low bytes. -/
theorem decode_encode (e : Endian) (w n : Nat) : decode e (encode e w n) = n % 256 ^ w := by
  cases e <;> simp [encode, decode, ofLeBytes_leBytes]

theorem ofLeBytes_lt (bs : Bytes) : ofLeBytes bs < 256 ^ bs.length := by
  induction bs with
  | nil => simp [ofLeBytes]
  | cons b bs ih =>
    have hb : b.toNat < 256 := b.toNat_lt
    rw [ofLeBytes, List.length_cons, Nat.pow_succ]
    omega

theorem ofLeBytes_append (x y : Bytes) : ofLeBytes (x ++ y) = ofLeBytes x + 256 ^ x.length * ofLeBytes y := by
  induction x with
  | nil => simp [ofLeBytes]
  | cons b x ih =>
    rw [List.cons_append, ofLeBytes, ofLeBytes, ih, List.length_cons, Nat.pow_succ]
    ring

/-- The last byte is the most significant one. -/
theorem ofLeBytes_concat_div (x : Bytes) (b : UInt8) : ofLeBytes (x ++ [b]) / 256 ^ x.length = b.toNat := by
  rw [ofLeBytes_append, Nat.add_mul_div_left _ _ (Nat.pow_pos (by decide)), Nat.div_eq_of_lt (ofLeBytes_lt x), Nat.zero_add]
  simp [ofLeBytes]

theorem decode_lt (e : Endian) (bs : Bytes) : decode e bs < 256 ^ bs.length := by
  cases e
  · exact ofLeBytes_lt bs
  · simpa [decode] using ofLeBytes_lt bs.reverse

theorem ofLeBytes_inj {x y : Bytes} (hl : x.length = y.length) (h : ofLeBytes x = ofLeBytes y) : x = y := by
  induction x generalizing y with
  | nil => exact (List.eq_nil_of_length_eq_zero hl.symm).symm
  | cons b x ih =>
    cases y with
    | nil => simp at hl
    | cons c y =>
      have hb : b.toNat < 256 := b.toNat_lt
      have hc : c.toNat < 256 := c.toNat_lt
      simp only [ofLeBytes] at h
      have hbc : b = c := UInt8.toNat_inj.1 (by omega)
      rw [hbc, ih (by simpa using hl) (by omega)]

/-- Two byte strings of one length that write the same integer are the same. -/
theorem decode_inj (e : Endian) {x y : Bytes} (hl : x.length = y.length) (h : decode e x = decode e y) : x = y := by
  cases e
  · exact ofLeBytes_inj hl h
  · exact List.reverse_injective (ofLeBytes_inj (by simpa using hl) h)

theorem ofLeBytes_zeros (n : Nat) : ofLeBytes (zeros n) = 0 := by
  induction n with
  | zero => rfl
  | succ n ih =>
    rw [zeros, List.replicate_succ, ofLeBytes]
    rw [zeros] at ih
    rw [ih]
    rfl

theorem decode_zeros (e : Endian) (n : Nat) : decode e (zeros n) = 0 := by
  cases e
  · exact ofLeBytes_zeros n
  · rw [decode, zeros, List.reverse_replicate]
    exact ofLeBytes_zeros n

/-! ## Reads at an offset -/

/-- The `w`-byte integer at `off`, or zero where the range lies outside. -/
def readUint (e : Endian) (w : Nat) (data : Bytes) (off : Nat) : Nat :=
  match slice? data off (off + w) with
  | some s => decode e s
  | none => 0

theorem readUint_of_slice {e : Endian} {w off : Nat} {data s : Bytes} (h : slice? data off (off + w) = some s) :
    readUint e w data off = decode e s := by
  rw [readUint, h]

theorem readUint_lt (e : Endian) (w : Nat) (data : Bytes) (off : Nat) : readUint e w data off < 256 ^ w := by
  unfold readUint
  split
  · rename_i s h
    have hl := slice?_length h
    rw [Nat.add_sub_cancel_left] at hl
    exact hl ▸ decode_lt e s
  · exact Nat.pow_pos (by omega)

theorem readUint_append_left {e : Endian} {w off : Nat} {x y : Bytes} (h : off + w ≤ x.length) :
    readUint e w (x ++ y) off = readUint e w x off := by
  rw [readUint, readUint, slice?_append_left h]

theorem readUint_append_right {e : Endian} {w off : Nat} {x y : Bytes} (h : x.length ≤ off) :
    readUint e w (x ++ y) off = readUint e w y (off - x.length) := by
  rw [readUint, readUint, slice?_append_right h (by omega)]
  congr 2
  omega

/-- The integer written at the front of a string is read back there. -/
theorem readUint_encode (e : Endian) (w n : Nat) (rest : Bytes) :
    readUint e w (encode e w n ++ rest) 0 = n % 256 ^ w := by
  rw [readUint_append_left (by simp),
    readUint_of_slice (s := encode e w n) (slice?_eq_some_iff.2 ⟨by omega, by simp, by simp⟩), decode_encode]

theorem readUint_zeros (e : Endian) (w n off : Nat) : readUint e w (zeros n) off = 0 := by
  unfold readUint
  split
  · rename_i s h
    obtain ⟨h1, h2, rfl⟩ := slice?_eq_some_iff.1 h
    rw [List.drop_replicate, List.take_replicate]
    exact decode_zeros e _
  · rfl

/-- Where the most significant byte of an integer of `w + 1` bytes stands. -/
def topOffset : Endian → Nat → Nat → Nat
  | .little, w, off => off + w
  | .big, _, off => off

/-- The most significant byte of an integer is the last that is read in the one order, the first in the other. -/
theorem readUint_div_pow (e : Endian) {w off : Nat} {data : Bytes} (h : off + (w + 1) ≤ data.length) :
    readUint e (w + 1) data off / 256 ^ w = (data[topOffset e w off]?.getD 0).toNat := by
  have hslice := slice?_of_le (Nat.le_add_right off (w + 1)) h
  rw [readUint_of_slice hslice]
  generalize (data.drop off).take (off + (w + 1) - off) = s at hslice
  have hlen := slice?_length hslice
  rw [Nat.add_sub_cancel_left] at hlen
  cases e with
  | little =>
    obtain rfl | ⟨x, b, rfl⟩ := List.eq_nil_or_concat s
    · exact absurd hlen (by simp)
    · rw [List.concat_eq_append] at hlen hslice ⊢
      obtain rfl : x.length = w := by simpa using hlen
      have hlast := getElem?_of_slice? hslice (i := x.length) (by omega)
      rw [List.getElem?_concat_length] at hlast
      rw [decode, ofLeBytes_concat_div, topOffset, ← hlast, Option.getD_some]
  | big =>
    cases s with
    | nil => exact absurd hlen (by simp)
    | cons b x =>
      obtain rfl : x.length = w := by simpa using hlen
      have hfirst := getElem?_of_slice? hslice (i := 0) (by omega)
      rw [List.getElem?_cons_zero, Nat.add_zero] at hfirst
      have hdiv := ofLeBytes_concat_div x.reverse b
      rw [List.length_reverse] at hdiv
      rw [decode, List.reverse_cons, hdiv, topOffset, ← hfirst, Option.getD_some]

/-- Two reads of one width give the same integer exactly when they meet the same bytes. -/
theorem readUint_eq_iff {e : Endian} {w off off' : Nat} {x y : Bytes} (hx : off + w ≤ x.length) (hy : off' + w ≤ y.length) :
    readUint e w x off = readUint e w y off' ↔ ∀ r < w, x[off + r]? = y[off' + r]? := by
  have hsx := slice?_of_le (Nat.le_add_right off w) hx
  have hsy := slice?_of_le (Nat.le_add_right off' w) hy
  have hlx := slice?_length hsx
  have hly := slice?_length hsy
  rw [readUint_of_slice hsx, readUint_of_slice hsy]
  constructor
  · intro heq r hr
    rw [← getElem?_of_slice? hsx (by omega), ← getElem?_of_slice? hsy (by omega),
      decode_inj e (by omega) heq]
  · intro hbytes
    congr 1
    refine List.ext_getElem? fun r => ?_
    by_cases hr : r < w
    · rw [getElem?_of_slice? hsx (by omega), getElem?_of_slice? hsy (by omega), hbytes r hr]
    · rw [List.getElem?_eq_none (by omega), List.getElem?_eq_none (by omega)]

/-! ## Parts at an offset -/

/-- Whether a string lies inside another at an offset. -/
def Part (data : Bytes) (off : Nat) (s : Bytes) : Prop := slice? data off (off + s.length) = some s

theorem part_middle (x s y : Bytes) : Part (x ++ s ++ y) x.length s := slice?_middle rfl rfl

theorem Part.slice? {data s : Bytes} {off b : Nat} (h : Part data off s) (hb : off + s.length = b) :
    Octets.slice? data off b = some s := by
  rw [← hb]
  exact h

theorem Part.end_le {data s : Bytes} {off : Nat} (h : Part data off s) : off + s.length ≤ data.length :=
  (slice?_eq_some_iff.1 h).2.1

/-- The first part of a part. -/
theorem Part.left {data s t : Bytes} {off : Nat} (h : Part data off (s ++ t)) : Part data off s := by
  obtain ⟨-, hend, hs⟩ := slice?_eq_some_iff.1 h
  rw [List.length_append] at hend hs
  refine slice?_eq_some_iff.2 ⟨Nat.le_add_right _ _, by omega, ?_⟩
  rw [Nat.add_sub_cancel_left] at hs ⊢
  have htake := congrArg (List.take s.length) hs
  rwa [List.take_left, List.take_take, Nat.min_eq_left (by omega)] at htake

/-- The second part of a part. -/
theorem Part.right {data s t : Bytes} {off : Nat} (h : Part data off (s ++ t)) : Part data (off + s.length) t := by
  obtain ⟨-, hend, hs⟩ := slice?_eq_some_iff.1 h
  rw [List.length_append] at hend hs
  refine slice?_eq_some_iff.2 ⟨Nat.le_add_right _ _, by omega, ?_⟩
  rw [Nat.add_sub_cancel_left] at hs ⊢
  have hdrop := congrArg (List.drop s.length) hs
  rwa [List.drop_left, List.drop_take, List.drop_drop, Nat.add_sub_cancel_left] at hdrop

/-- An integer written at an offset is read there. -/
theorem Part.readUint {e : Endian} {w n off : Nat} {data : Bytes} (h : Part data off (encode e w n)) (hn : n < 256 ^ w) :
    Octets.readUint e w data off = n := by
  rw [readUint_of_slice (h.slice? (by rw [length_encode])), decode_encode, Nat.mod_eq_of_lt hn]

/-- An integer of a string cut short is the integer where it ends before the cut, and zero elsewhere. -/
theorem readUint_take (e : Endian) (w : Nat) (data : Bytes) (off n : Nat) :
    readUint e w (data.take n) off = if off + w ≤ n then readUint e w data off else 0 := by
  rw [readUint, slice?_take]
  by_cases hn : off + w ≤ n
  · rw [if_pos hn, if_pos hn]
    rfl
  · rw [if_neg hn, if_neg hn]

/-- A part before the cut stays. -/
theorem Part.take {data s : Bytes} {off n : Nat} (h : Part data off s) (hn : off + s.length ≤ n) : Part (data.take n) off s := by
  rw [Part, slice?_take, if_pos hn]
  exact h

/-! ## Packed fields of a word -/

/-- The low `w` bits of a word. -/
theorem toNat_and_mask (x m : UInt64) {w : Nat} (hm : m.toNat = 2 ^ w - 1) : (x &&& m).toNat = x.toNat % 2 ^ w := by
  rw [UInt64.toNat_and, hm, Nat.and_two_pow_sub_one_eq_mod]

/-- The `w` bits of a word from bit `k` on. -/
theorem toNat_shift_and_mask (x k m : UInt64) {w : Nat} (hk : k.toNat < 64) (hm : m.toNat = 2 ^ w - 1) :
    ((x >>> k) &&& m).toNat = x.toNat / 2 ^ k.toNat % 2 ^ w := by
  rw [toNat_and_mask _ _ hm, UInt64.toNat_shiftRight, Nat.mod_eq_of_lt hk, Nat.shiftRight_eq_div_pow]

/-- One bit of a word, as a truth value. -/
theorem bit_eq_one_iff (x k : UInt64) (hk : k.toNat < 64) :
    ((x >>> k) &&& 1 == 1) = decide (x.toNat / 2 ^ k.toNat % 2 = 1) := by
  have h := toNat_shift_and_mask x k 1 (w := 1) hk rfl
  rw [Nat.pow_one] at h
  rw [Bool.eq_iff_iff, beq_iff_eq, decide_eq_true_iff, ← h, ← UInt64.toNat_inj]
  rfl

/-- The top bit of a byte is clear below 128. -/
theorem and_high_eq_zero_iff (b : UInt8) : b &&& 0x80 = 0 ↔ b.toNat < 128 := by
  have hlt := b.toNat_lt
  have hand : (b &&& 0x80).toNat = (b.toNat.testBit 7).toNat * 2 ^ 7 := by
    rw [UInt8.toNat_and]
    exact Nat.and_two_pow b.toNat 7
  rw [← UInt8.toNat_inj, hand, Nat.testBit_eq_decide_div_mod_eq]
  simp only [UInt8.toNat_zero, Nat.mul_eq_zero, Bool.toNat_eq_zero, decide_eq_false_iff_not]
  omega

/-! ## Strings of equal words -/

/-- The concatenation of `w`-byte words in a byte order. -/
def encodeWords (e : Endian) (w : Nat) (ns : List Nat) : Bytes := ns.flatMap (encode e w)

@[simp] theorem length_encodeWords (e : Endian) (w : Nat) (ns : List Nat) :
    (encodeWords e w ns).length = w * ns.length := by
  induction ns with
  | nil => simp [encodeWords]
  | cons n ns ih =>
    rw [encodeWords] at ih
    rw [encodeWords, List.flatMap_cons, List.length_append, ih, length_encode, List.length_cons, Nat.mul_succ,
      Nat.add_comm]

/-- The `k`-th word of a string of words lies at its offset. -/
theorem slice?_encodeWords (e : Endian) (w : Nat) (ns : List Nat) (rest : Bytes) {k n : Nat} (h : ns[k]? = some n) :
    slice? (encodeWords e w ns ++ rest) (w * k) (w * k + w) = some (encode e w n) := by
  have hk : k < ns.length := (List.getElem?_eq_some_iff.1 h).1
  have hend : w * (k + 1) ≤ w * ns.length := Nat.mul_le_mul_left _ hk
  rw [Nat.mul_succ] at hend
  rw [slice?_append_left (by rw [length_encodeWords]; exact hend)]
  have hpiece := slice?_flatMap (f := encode e w) (r := 0) (k := w) (fun n _ => length_encode e w n) h (by omega)
  rw [Nat.add_zero, Nat.zero_add] at hpiece
  rw [encodeWords, hpiece]
  exact slice?_self (length_encode e w n)

/-- The `k`-th word of a string of words is read back at its offset. -/
theorem readUint_encodeWords (e : Endian) (w : Nat) (ns : List Nat) (rest : Bytes) {k n : Nat} (h : ns[k]? = some n) :
    readUint e w (encodeWords e w ns ++ rest) (w * k) = n % 256 ^ w := by
  rw [readUint_of_slice (slice?_encodeWords e w ns rest h), decode_encode]

end Octets
