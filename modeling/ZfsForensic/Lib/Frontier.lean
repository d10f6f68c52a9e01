import Mathlib.Tactic

/-!
# Frontiers with a cap

A graph is expanded level by level into lists of at most `cap` nodes, one push at a time. A node of a level is as many links from
the roots as the level is deep, also where the links form cycles: what is counted is links, not nodes.
-/

namespace Frontier

variable {α : Type}

/-- `b` is reached from `a` by exactly so many links. -/
inductive Links (link : α → α → Prop) : ℕ → α → α → Prop
  | refl (a : α) : Links link 0 a a
  | snoc {n : ℕ} {a b c : α} (hab : Links link n a b) (hbc : link b c) : Links link (n + 1) a c

/-- The nodes so many links below a list of roots. -/
def Below (link : α → α → Prop) (roots : List α) (n : ℕ) (b : α) : Prop := ∃ a ∈ roots, Links link n a b

/-- A list within the cap whose nodes all have a property. -/
structure Kept (cap : ℕ) (P : α → Prop) (nodes : List α) : Prop where
  length_le : nodes.length ≤ cap
  all : ∀ a ∈ nodes, P a

namespace Below

variable {link : α → α → Prop} {roots : List α}

theorem of_mem {a : α} (ha : a ∈ roots) : Below link roots 0 a := ⟨a, ha, .refl a⟩

/-- A node linked from one of a level is of the next. -/
theorem next {n : ℕ} {a b : α} (ha : Below link roots n a) (hab : link a b) : Below link roots (n + 1) b := by
  obtain ⟨root, hroot, hlinks⟩ := ha
  exact ⟨root, hroot, hlinks.snoc hab⟩

end Below

namespace Kept

variable {cap : ℕ} {P : α → Prop} {nodes : List α}

theorem nil (cap : ℕ) (P : α → Prop) : Kept cap P [] :=
  ⟨Nat.zero_le _, fun _ ha => absurd ha List.not_mem_nil⟩

/-- A push below the cap. -/
theorem push (h : Kept cap P nodes) (hroom : nodes.length < cap) {a : α} (ha : P a) : Kept cap P (nodes ++ [a]) := by
  refine ⟨?_, fun b hb => ?_⟩
  · rw [List.length_append, List.length_singleton]
    omega
  · rcases List.mem_append.1 hb with hb | hb
    · exact h.all b hb
    · rw [List.mem_singleton.1 hb]
      exact ha

/-- What is left of a list, cut or filtered. -/
theorem of_sublist (h : Kept cap P nodes) {rest : List α} (hsub : rest.Sublist nodes) : Kept cap P rest :=
  ⟨hsub.length_le.trans h.length_le, fun a ha => h.all a (hsub.subset ha)⟩

end Kept

end Frontier
