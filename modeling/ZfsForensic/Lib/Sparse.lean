import ZfsForensic.Lib.Radix

/-!
# Trees with absent branches

In a tree of one fan-out a node may be absent: it stands for a whole subtree of absent nodes and has no children of its own.
Padded with copies of its absent nodes the tree is full, so that its leaves are indexed by digits; expanded level by level
without them it has the same leaves of every kind that is not absent.
-/

namespace Sparse

open Radix

variable {α : Type} (absent : α → Bool) (children : α → List α) (w : Nat)

/-- The children of a node, where an absent one has `w` copies of itself. -/
def padded (a : α) : List α := if absent a then List.replicate w a else children a

/-- The nodes of a list that are present. -/
def present (nodes : List α) : List α := nodes.filter fun a => !absent a

/-- The present nodes so many levels below a list of roots, left to right. -/
def level (roots : List α) : Nat → List α
  | 0 => present absent roots
  | k + 1 => present absent ((level roots k).flatMap children)

variable {absent children w}

theorem padded_of_absent {a : α} (h : absent a = true) : padded absent children w a = List.replicate w a := if_pos h

theorem padded_of_present {a : α} (h : absent a = false) : padded absent children w a = children a :=
  if_neg (by rw [h]; decide)

theorem present_cons_of_absent {a : α} (h : absent a = true) (nodes : List α) :
    present absent (a :: nodes) = present absent nodes := List.filter_cons_of_neg (by rw [h]; decide)

theorem present_cons_of_present {a : α} (h : absent a = false) (nodes : List α) :
    present absent (a :: nodes) = a :: present absent nodes := List.filter_cons_of_pos (by rw [h]; rfl)

theorem present_append (nodes nodes' : List α) :
    present absent (nodes ++ nodes') = present absent nodes ++ present absent nodes' := List.filter_append _ _

theorem mem_present {nodes : List α} {a : α} : a ∈ present absent nodes ↔ a ∈ nodes ∧ absent a = false := by
  rw [present, List.mem_filter, Bool.not_eq_true']

theorem absent_of_mem_level {roots : List α} {k : Nat} {a : α} (h : a ∈ level absent children roots k) : absent a = false := by
  cases k with
  | zero => exact (mem_present.1 h).2
  | succ k => exact (mem_present.1 h).2

/-- A child of a present node is absent or stands one level below it. -/
theorem mem_level_succ {roots : List α} {k : Nat} {a b : α} (ha : a ∈ level absent children roots k) (hb : b ∈ children a)
    (hpresent : absent b = false) : b ∈ level absent children roots (k + 1) :=
  mem_present.2 ⟨List.mem_flatMap.2 ⟨a, ha, hb⟩, hpresent⟩

/-! ## The padded tree -/

theorem full_of_absent {a : α} (h : absent a = true) (lvl : Nat) : Full (padded absent children w) w lvl a := by
  induction lvl with
  | zero => trivial
  | succ lvl ih =>
    rw [Full, padded_of_absent h]
    refine ⟨List.length_replicate, fun b hb => ?_⟩
    rw [List.eq_of_mem_replicate hb]
    exact ih

/-- Below an absent node every leaf is that node. -/
theorem eq_of_mem_leaves_of_absent {a b : α} (h : absent a = true) {lvl : Nat}
    (hb : b ∈ leaves (padded absent children w) lvl a) : b = a := by
  induction lvl with
  | zero => exact List.mem_singleton.1 hb
  | succ lvl ih =>
    rw [leaves, padded_of_absent h, List.mem_flatMap] at hb
    obtain ⟨c, hc, hb⟩ := hb
    rw [List.eq_of_mem_replicate hc] at hb
    exact ih hb

/-- So does every descent from it end there. -/
theorem follow_of_absent (hw : 0 < w) {a : α} (h : absent a = true) (lvl n : Nat) :
    follow (padded absent children w) w lvl n a = some a := by
  induction lvl with
  | zero => rfl
  | succ lvl ih =>
    rw [follow, padded_of_absent h, List.getElem?_replicate_of_lt (Nat.mod_lt _ hw), Option.bind_some, ih]

/-- Where every present node above the leaves has its full count of children, the padded tree is full. -/
theorem full_of_level {roots : List α} {top : Nat}
    (hchildren : ∀ k < top, ∀ a ∈ level absent children roots k, (children a).length = w) {lvl k : Nat} (htop : k + lvl = top)
    {a : α} (ha : absent a = true ∨ a ∈ level absent children roots k) : Full (padded absent children w) w lvl a := by
  induction lvl generalizing k a with
  | zero => trivial
  | succ lvl ih =>
    rcases ha with habsent | ha
    · exact full_of_absent habsent _
    · rw [Full, padded_of_present (absent_of_mem_level ha)]
      refine ⟨hchildren k (by omega) a ha, fun b hb => ih (k := k + 1) (by omega) ?_⟩
      cases hab : absent b with
      | true => exact Or.inl rfl
      | false => exact Or.inr (mem_level_succ ha hb hab)

/-! ## Leaves, level by level -/

section Leaves

variable {p : α → Bool} (hp : ∀ a, absent a = true → p a = false)

include hp

/-- The leaves under absent nodes are of no kind. -/
theorem filter_flatMap_leaves (nodes : List α) (lvl : Nat) :
    (nodes.flatMap (leaves (padded absent children w) lvl)).filter p =
      ((present absent nodes).flatMap (leaves (padded absent children w) lvl)).filter p := by
  induction nodes with
  | nil => rfl
  | cons a nodes ih =>
    rw [List.flatMap_cons, List.filter_append, ih]
    cases ha : absent a with
    | true =>
      have hnone : (leaves (padded absent children w) lvl a).filter p = [] := by
        refine List.filter_eq_nil_iff.2 fun b hb => ?_
        rw [eq_of_mem_leaves_of_absent ha hb, hp a ha]
        decide
      rw [hnone, present_cons_of_absent ha, List.nil_append]
    | false => rw [present_cons_of_present ha, List.flatMap_cons, List.filter_append]

/-- The leaves below one level are the nodes so many levels further down. -/
theorem filter_leaves_level (roots : List α) (lvl k : Nat) :
    ((level absent children roots k).flatMap (leaves (padded absent children w) lvl)).filter p =
      (level absent children roots (k + lvl)).filter p := by
  induction lvl generalizing k with
  | zero =>
    rw [Nat.add_zero]
    congr 1
    exact List.flatMap_singleton' _
  | succ lvl ih =>
    have hbelow : (level absent children roots k).flatMap (leaves (padded absent children w) (lvl + 1)) =
        ((level absent children roots k).flatMap children).flatMap (leaves (padded absent children w) lvl) := by
      rw [List.flatMap_assoc]
      refine List.flatMap_congr fun a ha => ?_
      rw [leaves, padded_of_present (absent_of_mem_level ha)]
    have hnext : k + (lvl + 1) = k + 1 + lvl := by omega
    rw [hbelow, filter_flatMap_leaves hp, hnext, ← ih (k + 1)]
    rfl

/-- The leaves of a padded tree of one kind are the nodes of its last level of that kind. -/
theorem filter_forest (roots : List α) (lvl : Nat) :
    (roots.flatMap (leaves (padded absent children w) lvl)).filter p = (level absent children roots lvl).filter p := by
  rw [filter_flatMap_leaves hp, ← Nat.zero_add lvl, ← filter_leaves_level hp roots lvl 0, Nat.zero_add]
  rfl

end Leaves

end Sparse
