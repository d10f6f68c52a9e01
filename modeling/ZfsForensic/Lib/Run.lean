import Mathlib.Tactic

/-!
# Checked arithmetic, on both builds at once

A fixed-width operation that leaves its range does two things: a release build masks or wraps and goes on, a debug build stops.
`Run α` keeps both: `value` is what the release build computes, `panics` says that the debug build has stopped on the way. Where
`panics` is `false` the two builds agree. Saturating operations never fail and are plain functions.
-/

namespace Checked

/-- A computation on both builds: the value of a release build, and whether a debug build stops before it. -/
structure Run (α : Type) where
  value : α
  panics : Bool
deriving Repr, DecidableEq

namespace Run

variable {α β : Type}

instance : Monad Run where
  pure a := ⟨a, false⟩
  bind x f := ⟨(f x.value).value, x.panics || (f x.value).panics⟩

@[simp] theorem value_pure (a : α) : (pure a : Run α).value = a := rfl

@[simp] theorem panics_pure (a : α) : (pure a : Run α).panics = false := rfl

@[simp] theorem value_bind (x : Run α) (f : α → Run β) : (x >>= f).value = (f x.value).value := rfl

/-- A sequence stops where its first part stops, or where the rest does on the first part's value. -/
@[simp] theorem panics_bind (x : Run α) (f : α → Run β) :
    (x >>= f).panics = (x.panics || (f x.value).panics) := rfl

/-- A sequence runs through where its first part does and the rest does on the first part's value. -/
theorem panics_bind_eq_false {x : Run α} {f : α → Run β} (hx : x.panics = false)
    (hf : ∀ a, x.value = a → (f a).panics = false) : (x >>= f).panics = false := by
  rw [panics_bind, hx, hf _ rfl]
  rfl

theorem ext {x y : Run α} (hv : x.value = y.value) (hp : x.panics = y.panics) : x = y := by
  cases x
  cases y
  simp_all

instance : LawfulMonad Run := LawfulMonad.mk' Run
  (by intro α x; exact ext rfl (by simp [Functor.map]))
  (by intro α β x f; exact ext rfl (by simp))
  (by intro α β γ x f g; exact ext rfl (by simp [Bool.or_assoc]))

/-- The value of a fold is the fold of the values. -/
theorem value_foldlM (f : β → α → Run β) (l : List α) (b : β) :
    (l.foldlM f b).value = l.foldl (fun b a => (f b a).value) b := by
  induction l generalizing b with
  | nil => rfl
  | cons a l ih => rw [List.foldlM_cons, value_bind, ih, List.foldl_cons]

/-- A fold whose every step runs through on every accumulator runs through. -/
theorem panics_foldlM (f : β → α → Run β) (l : List α) (h : ∀ b, ∀ a ∈ l, (f b a).panics = false) (b : β) :
    (l.foldlM f b).panics = false := by
  induction l generalizing b with
  | nil => rfl
  | cons a l ih =>
    rw [List.foldlM_cons, panics_bind, h b a List.mem_cons_self]
    exact ih (fun b x hx => h b x (List.mem_cons_of_mem _ hx)) _

/-! ## The checked operations -/

/-- `a - b` on bytes: wraps, checked for a result below zero. -/
def subU8 (a b : UInt8) : Run UInt8 := ⟨a - b, decide (a < b)⟩

/-- `a * b` on 32-bit words: wraps, checked for a result of more than 32 bits. -/
def mulU32 (a b : UInt32) : Run UInt32 := ⟨a * b, decide (2 ^ 32 ≤ a.toNat * b.toNat)⟩

/-- `a - b` on 64-bit words: wraps, checked for a result below zero. -/
def subU64 (a b : UInt64) : Run UInt64 := ⟨a - b, decide (a < b)⟩

/-- `x >> n` on 64-bit words: the shift amount is masked to six bits, checked for an amount of 64 or more. -/
def shrU64 (x : UInt64) (n : UInt32) : Run UInt64 := ⟨x >>> n.toUInt64, decide (64 ≤ n.toNat)⟩

/-- `a + b` on sizes of a 64-bit target: wraps, checked for a result of more than 64 bits. -/
def addUsize (a b : Nat) : Run Nat := ⟨(a + b) % 2 ^ 64, decide (2 ^ 64 ≤ a + b)⟩

/-- `a * b` on sizes of a 64-bit target: wraps, checked for a result of more than 64 bits. -/
def mulUsize (a b : Nat) : Run Nat := ⟨a * b % 2 ^ 64, decide (2 ^ 64 ≤ a * b)⟩

theorem addUsize_eq {a b : Nat} (h : a + b < 2 ^ 64) : addUsize a b = pure (a + b) :=
  ext (Nat.mod_eq_of_lt h) (by simpa [addUsize] using h)

theorem mulUsize_eq {a b : Nat} (h : a * b < 2 ^ 64) : mulUsize a b = pure (a * b) :=
  ext (Nat.mod_eq_of_lt h) (by simpa [mulUsize] using h)

/-- A product that fits 32 bits is computed exactly, and passes its check. -/
theorem mulU32_eq {a b : UInt32} (h : a.toNat * b.toNat < 2 ^ 32) :
    (mulU32 a b).panics = false ∧ (mulU32 a b).value.toNat = a.toNat * b.toNat := by
  constructor
  · simpa [mulU32] using h
  · simpa [mulU32] using Nat.mod_eq_of_lt h

/-- A shift by less than the width is the division by the power of two, and passes its check. -/
theorem shrU64_eq {x : UInt64} {n : UInt32} (h : n.toNat < 64) :
    (shrU64 x n).panics = false ∧ (shrU64 x n).value.toNat = x.toNat / 2 ^ n.toNat := by
  constructor
  · simpa [shrU64] using h
  · simp [shrU64, Nat.shiftRight_eq_div_pow, Nat.mod_eq_of_lt h]

end Run

/-! ## Saturating operations -/

/-- `a.saturating_add(b)` on sizes of a 64-bit target. -/
def satAdd (a b : Nat) : Nat := min (a + b) (2 ^ 64 - 1)

/-- `a.saturating_mul(b)` on sizes of a 64-bit target. -/
def satMul (a b : Nat) : Nat := min (a * b) (2 ^ 64 - 1)

/-- `a.checked_add(b)`. -/
def checkedAdd (a b : Nat) : Option Nat := if a + b < 2 ^ 64 then some (a + b) else none

/-- `a.saturating_add(b)` on 64-bit words. -/
def satAddU64 (a b : UInt64) : UInt64 := if a.toNat + b.toNat < 2 ^ 64 then a + b else 0xffffffffffffffff

theorem satAdd_eq {a b : Nat} (h : a + b < 2 ^ 64) : satAdd a b = a + b := by
  unfold satAdd
  omega

theorem satMul_eq {a b : Nat} (h : a * b < 2 ^ 64) : satMul a b = a * b := by
  unfold satMul
  omega

/-- A saturating sum of words is the sum cut at the largest word. -/
theorem toNat_satAddU64 (a b : UInt64) : (satAddU64 a b).toNat = min (a.toNat + b.toNat) (2 ^ 64 - 1) := by
  unfold satAddU64
  split
  · rename_i h
    rw [UInt64.toNat_add, Nat.mod_eq_of_lt h]
    omega
  · rename_i h
    have : (0xffffffffffffffff : UInt64).toNat = 2 ^ 64 - 1 := rfl
    omega

/-! ## Counting zeros -/

/-- The zero bits below the lowest one bit of a word of `w` bits, or `w` for zero. -/
def trailingZeros : Nat → Nat → Nat
  | 0, _ => 0
  | w + 1, n => if n % 2 = 1 then 0 else trailingZeros w (n / 2) + 1

/-- The lowest one bit of a power of two is its exponent. -/
theorem trailingZeros_two_pow {w k : Nat} (h : k < w) : trailingZeros w (2 ^ k) = k := by
  induction k generalizing w with
  | zero =>
    obtain ⟨w, rfl⟩ := Nat.exists_eq_succ_of_ne_zero (Nat.pos_iff_ne_zero.1 h)
    rfl
  | succ k ih =>
    obtain ⟨w, rfl⟩ := Nat.exists_eq_succ_of_ne_zero (Nat.pos_iff_ne_zero.1 (Nat.zero_lt_of_lt h))
    have heven : 2 ^ (k + 1) % 2 = 0 := by
      rw [Nat.pow_succ]
      omega
    have hhalf : 2 ^ (k + 1) / 2 = 2 ^ k := by
      rw [Nat.pow_succ]
      omega
    rw [trailingZeros, if_neg (by omega), hhalf, ih (by omega)]

end Checked
