import Mathlib.Tactic

/-!
# Copies out of a sliding window

A dictionary coder writes an element as it is, or a run of elements that repeats what was written some distance back. The run may be
longer than the distance: it is written one element at a time, so that it repeats its own output. What is written only grows, so that
a coder that stops at a length has written a prefix of what it would have written without the stop.
-/

namespace Window

/-- The first elements of a prefix are those of the whole. -/
theorem take_of_prefix {α : Type} {a b : List α} {n : Nat} (h : a <+: b) (hn : n ≤ a.length) : b.take n = a.take n := by
  obtain ⟨rest, rfl⟩ := h
  exact List.take_append_of_le_length hn

variable {α : Type} [Inhabited α]

/-- Repeat `n` elements from `dist` back, one at a time. -/
def repeatBack (dist : Nat) : Nat → List α → List α
  | 0, out => out
  | n + 1, out => repeatBack dist n (out ++ [out.getD (out.length - dist) default])

/-- What was written stays. -/
theorem prefix_repeatBack (dist n : Nat) (out : List α) : out <+: repeatBack dist n out := by
  induction n generalizing out with
  | zero => exact List.prefix_rfl
  | succ n ih => exact (List.prefix_append _ _).trans (ih _)

end Window
