import Mathlib.Algebra.BigOperators.Intervals
import Mathlib.Data.UInt
import Mathlib.Tactic

/-!
# Running sums

A Fletcher checksum keeps the sum of the words it has read, the sum of those sums, and so on. Over any additive commutative group
the first two have a closed form, and the closed form says what a change of one word, and an exchange of two, does to them.
-/

namespace Fletcher

open Finset

section Sums

variable {A : Type*} [AddCommGroup A] (w v : ℕ → A)

/-- The sum of the first `n` words and the sum of its partial sums: `a += w; b += a`. -/
def sums : ℕ → A × A
  | 0 => (0, 0)
  | n + 1 => ((sums n).1 + w n, (sums n).2 + ((sums n).1 + w n))

theorem sums_fst (n : ℕ) : (sums w n).1 = ∑ m ∈ range n, w m := by
  induction n with
  | zero => rfl
  | succ n ih => rw [sums, ih, sum_range_succ]

/-- The word at `m` enters the second sum once for itself and once for every word after it. -/
theorem sums_snd (n : ℕ) : (sums w n).2 = ∑ m ∈ range n, (n - m) • w m := by
  induction n with
  | zero => rfl
  | succ n ih =>
    have hstep : ∀ m ∈ range n, (n + 1 - m) • w m = (n - m) • w m + w m := by
      intro m hm
      rw [mem_range] at hm
      rw [Nat.sub_add_comm hm.le, succ_nsmul]
    rw [sums, ih, sums_fst, sum_range_succ _ n, sum_congr rfl hstep, sum_add_distrib, Nat.add_sub_cancel_left, one_nsmul,
      add_assoc]

variable {w v}

/-- A change of one word changes the sum by as much. -/
theorem sums_fst_sub_of_change {n i : ℕ} (hi : i < n) (hother : ∀ m, m < n → m ≠ i → v m = w m) :
    (sums v n).1 - (sums w n).1 = v i - w i := by
  rw [sums_fst, sums_fst, ← sum_sub_distrib]
  refine sum_eq_single i (fun m hm hne => ?_) (fun hnot => absurd (mem_range.2 hi) hnot)
  rw [hother m (mem_range.1 hm) hne, sub_self]

/-- An exchange of two words changes the second sum by their difference, as often as they are apart. -/
theorem sums_snd_sub_of_exchange {n i j : ℕ} (hij : i < j) (hj : j < n) (hi' : v i = w j) (hj' : v j = w i)
    (hother : ∀ m, m < n → m ≠ i → m ≠ j → v m = w m) : (sums v n).2 - (sums w n).2 = (j - i) • (w j - w i) := by
  have hterm : ∀ m, (n - m) • v m - (n - m) • w m = (n - m) • (v m - w m) := fun m => (nsmul_sub _ _ _).symm
  have hsplit : n - i = (j - i) + (n - j) := by omega
  rw [sums_snd, sums_snd, ← sum_sub_distrib, sum_congr rfl (fun m _ => hterm m),
    sum_eq_add i j hij.ne (fun m hm hne => by rw [hother m (mem_range.1 hm) hne.1 hne.2, sub_self, nsmul_zero])
      (fun hnot => absurd (mem_range.2 (hij.trans hj)) hnot) (fun hnot => absurd (mem_range.2 hj) hnot),
    hi', hj', hsplit, add_nsmul, add_assoc, ← nsmul_add]
  have hcancel : w j - w i + (w i - w j) = 0 := by abel
  rw [hcancel, nsmul_zero, add_zero]

end Sums

/-! ## Words modulo `2^64` -/

/-- A multiple of a word, modulo `2^64`. -/
theorem toNat_nsmul (k : ℕ) (x : UInt64) : (k • x).toNat = k * x.toNat % 2 ^ 64 := by
  induction k with
  | zero => rw [zero_nsmul, Nat.zero_mul, Nat.zero_mod, UInt64.toNat_zero]
  | succ k ih => rw [succ_nsmul, UInt64.toNat_add, ih, Nat.succ_mul, Nat.mod_add_mod]

/-- A small multiple of the difference of two different half-words is not zero modulo `2^64`. -/
theorem nsmul_sub_ne_zero {k : ℕ} {x y : UInt64} (hk : 0 < k) (hk' : k ≤ 2 ^ 32) (hx : x.toNat < 2 ^ 32)
    (hy : y.toNat < 2 ^ 32) (hne : x ≠ y) : k • (x - y) ≠ 0 := by
  intro h
  rw [nsmul_sub, sub_eq_zero] at h
  have hbound : ∀ z : UInt64, z.toNat < 2 ^ 32 → k * z.toNat < 2 ^ 64 := fun z hz =>
    calc k * z.toNat < 2 ^ 32 * 2 ^ 32 := Nat.mul_lt_mul_of_le_of_lt hk' hz (by omega)
      _ = 2 ^ 64 := by omega
  have heq := congrArg UInt64.toNat h
  rw [toNat_nsmul, toNat_nsmul, Nat.mod_eq_of_lt (hbound x hx), Nat.mod_eq_of_lt (hbound y hy)] at heq
  exact hne (UInt64.toNat_inj.1 (Nat.eq_of_mul_eq_mul_left hk heq))

end Fletcher
