import Mathlib.Tactic

/-!
# Records placed at multiples

Records follow one another, each from the next multiple of an alignment on. Without the padding in between, a record would begin at the
sum of the lengths in front of it, which is never behind its place, and is its place exactly where all of these lengths are multiples.
-/

namespace Align

/-- The first multiple of `a` from `n` on. -/
def roundUp (a n : Nat) : Nat := (n + (a - 1)) / a * a

/-- Where the next record begins, behind records of these lengths. -/
def place (a : Nat) (start : Nat) : List Nat → Nat
  | [] => start
  | len :: lens => place a (roundUp a (start + len)) lens

section

variable {a : Nat} (ha : 0 < a)
include ha

theorem le_roundUp (n : Nat) : n ≤ roundUp a n := by
  have hmod := Nat.mod_lt (n + (a - 1)) ha
  have hsplit := Nat.div_add_mod (n + (a - 1)) a
  rw [roundUp, Nat.mul_comm]
  omega

omit ha in
theorem dvd_roundUp (n : Nat) : a ∣ roundUp a n := Dvd.intro_left _ rfl

/-- Only a multiple is its own place. -/
theorem roundUp_eq_self_iff (n : Nat) : roundUp a n = n ↔ a ∣ n := by
  constructor
  · intro h
    rw [← h]
    exact dvd_roundUp n
  · rintro ⟨k, rfl⟩
    have hdiv : (a * k + (a - 1)) / a = k := by
      rw [Nat.mul_add_div ha, Nat.div_eq_of_lt (by omega), Nat.add_zero]
    rw [roundUp, hdiv, Nat.mul_comm]

/-- The padding never puts a record in front of the sum of the lengths. -/
theorem le_place (start : Nat) (lens : List Nat) : start + lens.sum ≤ place a start lens := by
  induction lens generalizing start with
  | nil => exact le_rfl
  | cons len lens ih =>
    have hround := le_roundUp ha (start + len)
    have hrest := ih (roundUp a (start + len))
    rw [place, List.sum_cons]
    omega

/-- A record's place is the sum of the lengths exactly where each of them is a multiple. -/
theorem place_eq_iff {start : Nat} (hstart : a ∣ start) (lens : List Nat) :
    place a start lens = start + lens.sum ↔ ∀ len ∈ lens, a ∣ len := by
  induction lens generalizing start with
  | nil => simp [place]
  | cons len lens ih =>
    have hround := le_roundUp ha (start + len)
    have hrest := le_place ha (roundUp a (start + len)) lens
    have hself : roundUp a (start + len) = start + len ↔ a ∣ len := by
      rw [roundUp_eq_self_iff ha, Nat.dvd_add_right hstart]
    have hnext := ih (dvd_roundUp (a := a) (start + len))
    rw [place, List.sum_cons, List.forall_mem_cons, ← hself, ← hnext]
    constructor
    · intro h
      exact ⟨by omega, by omega⟩
    · rintro ⟨h, hplace⟩
      omega

end

theorem place_append (a start : Nat) (lens lens' : List Nat) :
    place a start (lens ++ lens') = place a (place a start lens) lens' := by
  induction lens generalizing start with
  | nil => rfl
  | cons len lens ih => exact ih _

/-- A record ends in front of the place of every record behind it. -/
theorem end_le_place {a : Nat} (ha : 0 < a) (start : Nat) (lens : List Nat) (len : Nat) (lens' : List Nat) :
    place a start lens + len ≤ place a start (lens ++ len :: lens') := by
  have hround := le_roundUp ha (place a start lens + len)
  have hrest := le_place ha (roundUp a (place a start lens + len)) lens'
  rw [place_append, place]
  omega

end Align
