import Mathlib.Data.List.MinMax

/-!
# The first of the best

`List.argmax` is the first element with the greatest key. A scan keeps one element and replaces it only by one with a greater
key; scans over the parts of a list, each with its own best, find the best of the whole. The lemmas say so, and read the
position of the best off a list.
-/

namespace Newest

open List

variable {α β γ : Type*} [LinearOrder β]

/-- The best so far after one more element: an equal key does not replace the earlier one. -/
def better (f : α → β) (best : Option α) (a : α) : α :=
  match best with
  | none => a
  | some c => if f a ≤ f c then c else a

theorem better_of_le {f : α → β} {a c : α} (h : f a ≤ f c) : better f (some c) a = c := if_pos h

theorem better_of_not_le {f : α → β} {a c : α} (h : ¬ f a ≤ f c) : better f (some c) a = a := if_neg h

@[simp] theorem argmax_toList (f : α → β) (best : Option α) : argmax f best.toList = best := by
  cases best <;> rfl

theorem argmax_snoc (f : α → β) (l : List α) (a : α) : argmax f (l ++ [a]) = some (better f (argmax f l) a) := by
  rw [argmax_concat]
  cases argmax f l with
  | none => rfl
  | some c =>
    by_cases h : f a ≤ f c
    · rw [better_of_le h]
      exact if_neg (not_lt.2 h)
    · rw [better_of_not_le h]
      exact if_pos (not_le.1 h)

/-- The first part of a list counts with its best alone. -/
theorem argmax_append_left (f : α → β) (l l' : List α) : argmax f (l ++ l') = argmax f ((argmax f l).toList ++ l') := by
  induction l' using List.reverseRecOn with
  | nil => rw [List.append_nil, List.append_nil, argmax_toList]
  | append_singleton l' a ih => rw [← List.append_assoc, ← List.append_assoc, argmax_snoc, argmax_snoc, ih]

/-- So does the second. -/
theorem argmax_append_right (f : α → β) (best : Option α) (l : List α) :
    argmax f (best.toList ++ l) = argmax f (best.toList ++ (argmax f l).toList) := by
  cases best with
  | none => rw [Option.toList_none, List.nil_append, List.nil_append, argmax_toList]
  | some c =>
    rw [Option.toList_some, List.singleton_append, List.singleton_append, argmax_cons, argmax_cons, argmax_toList]

/-- A scan takes the best of its next part into its best. -/
theorem argmax_part (f : α → β) (best : Option α) (l l' : List α) :
    argmax f (best.toList ++ (l ++ l')) = argmax f ((argmax f (best.toList ++ (argmax f l).toList)).toList ++ l') := by
  rw [← List.append_assoc, argmax_append_left, argmax_append_right f best l]

/-- A scan takes its next element into its best. -/
theorem argmax_step (f : α → β) (best : Option α) (a : α) (l : List α) :
    argmax f (best.toList ++ a :: l) = argmax f ((some (better f best a)).toList ++ l) := by
  rw [List.append_cons, argmax_append_left, argmax_snoc, argmax_toList]

theorem argmax_map (f : γ → β) (g : α → γ) (l : List α) : argmax f (l.map g) = (argmax (f ∘ g) l).map g := by
  induction l using List.reverseRecOn with
  | nil => rfl
  | append_singleton l a ih =>
    rw [List.map_append, List.map_singleton, argmax_snoc, argmax_snoc, ih, Option.map_some]
    cases argmax (f ∘ g) l with
    | none => rfl
    | some c =>
      dsimp only [better, Option.map_some, Function.comp_apply]
      split <;> rfl

/-- The best of a list stands behind smaller keys only, and before keys that are not greater. -/
theorem exists_split_of_argmax {f : α → β} {l : List α} {a : α} (h : argmax f l = some a) :
    ∃ pre post, l = pre ++ a :: post ∧ (∀ b ∈ pre, f b < f a) ∧ ∀ b ∈ post, f b ≤ f a := by
  induction l using List.reverseRecOn generalizing a with
  | nil => cases h
  | append_singleton l b ih =>
    rw [argmax_snoc, Option.some.injEq] at h
    cases hbest : argmax f l with
    | none =>
      rw [hbest] at h
      obtain rfl : l = [] := argmax_eq_none.1 hbest
      refine ⟨[], [], ?_, by simp, by simp⟩
      rw [← h]
      rfl
    | some c =>
      rw [hbest] at h
      dsimp only [better] at h
      split at h
      · rename_i hle
        subst h
        obtain ⟨pre, post, hl, hpre, hpost⟩ := ih hbest
        refine ⟨pre, post ++ [b], by rw [hl, List.append_assoc, List.cons_append], hpre, ?_⟩
        intro d hd
        rcases List.mem_append.1 hd with hd | hd
        · exact hpost d hd
        · rwa [List.mem_singleton.1 hd]
      · rename_i hlt
        subst h
        refine ⟨l, [], rfl, ?_, by simp⟩
        intro d hd
        exact (le_of_mem_argmax hd hbest).trans_lt (not_le.1 hlt)

/-! ## A coarser scan -/

/-- An element with lesser keys before it and none greater behind it is the best. -/
theorem argmax_of_split {f : α → β} {pre post : List α} {a : α} (hpre : ∀ b ∈ pre, f b < f a) (hpost : ∀ b ∈ post, f b ≤ f a) :
    argmax f (pre ++ a :: post) = some a := by
  have hfront : better f (argmax f pre) a = a := by
    cases hbest : argmax f pre with
    | none => rfl
    | some c => exact better_of_not_le (not_le.2 (hpre c (argmax_mem (Option.mem_def.2 hbest))))
  induction post using List.reverseRecOn with
  | nil => rw [argmax_snoc, hfront]
  | append_singleton post b ih =>
    have hrest := ih fun b' hb' => hpost b' (List.mem_append_left _ hb')
    have hb := hpost b (List.mem_append_right _ (List.mem_singleton.2 rfl))
    rw [← List.cons_append, ← List.append_assoc, argmax_snoc, hrest, better_of_le hb]

/-- What follows a list without a greater key than its best leaves the best as it is. -/
theorem argmax_append_of_le {f : α → β} {l l' : List α} {a : α} (h : argmax f l = some a) (hle : ∀ b ∈ l', f b ≤ f a) :
    argmax f (l ++ l') = some a := by
  obtain ⟨pre, post, rfl, hpre, hpost⟩ := exists_split_of_argmax h
  rw [List.append_assoc, List.cons_append]
  refine argmax_of_split hpre fun b hb => ?_
  rcases List.mem_append.1 hb with hb | hb
  · exact hpost b hb
  · exact hle b hb

/-- Of parts that have one and the same best, or lesser keys only, that best is the best of all, as long as one part has it. -/
theorem argmax_flatMap {f : α → β} {a : α} {part : γ → List α} {cs : List γ}
    (h : ∀ c ∈ cs, argmax f (part c) = some a ∨ ∀ b ∈ part c, f b < f a) (hone : ∃ c ∈ cs, argmax f (part c) = some a) :
    argmax f (cs.flatMap part) = some a := by
  induction cs with
  | nil =>
    obtain ⟨c, hc, -⟩ := hone
    exact absurd hc (by simp)
  | cons c cs ih =>
    have hrest : ∀ d ∈ cs, argmax f (part d) = some a ∨ ∀ b ∈ part d, f b < f a := fun d hd => h d (mem_cons_of_mem c hd)
    rw [flatMap_cons]
    by_cases hbest : argmax f (part c) = some a
    · refine argmax_append_of_le hbest fun b hb => ?_
      obtain ⟨d, hd, hb⟩ := mem_flatMap.1 hb
      rcases hrest d hd with hsame | hless
      · exact le_of_mem_argmax hb (Option.mem_def.2 hsame)
      · exact (hless b hb).le
    · have hless := (h c mem_cons_self).resolve_left hbest
      obtain ⟨d, hd, hsame⟩ := hone
      have hmem : d ∈ cs := by
        rcases mem_cons.1 hd with rfl | hd
        · exact absurd hsame hbest
        · exact hd
      obtain ⟨pre, post, hsplit, hpre, hpost⟩ := exists_split_of_argmax (ih hrest ⟨d, hmem, hsame⟩)
      rw [hsplit, ← append_assoc]
      refine argmax_of_split (fun b hb => ?_) hpost
      rcases mem_append.1 hb with hb | hb
      · exact hless b hb
      · exact hpre b hb

/-- Where a function has values at the multiples of `k` only, the first `n * k` numbers give those of the first `n` multiples. -/
theorem filterMap_range_mul  {f : Nat → Option α} {k : Nat} (hk : 0 < k) (hf : ∀ i, ¬ k ∣ i → f i = none) (n : Nat) :
    (List.range' 0 (n * k)).filterMap f = (List.range' 0 n).filterMap fun i => f (i * k) := by
  induction n with
  | zero => rw [Nat.zero_mul]; rfl
  | succ n ih =>
    have hrest : (List.range' (n * k + 1) (k - 1)).filterMap f = [] := by
      refine List.filterMap_eq_nil_iff.2 fun i hi => hf i ?_
      obtain ⟨hlo, hhi⟩ := List.mem_range'_1.1 hi
      rintro ⟨q, rfl⟩
      have hlow : n < q := by
        by_contra hle
        have := Nat.mul_le_mul_left k (Nat.le_of_not_lt hle)
        rw [Nat.mul_comm k n] at this
        omega
      have hhigh := Nat.mul_le_mul_left k hlow
      rw [Nat.mul_succ, Nat.mul_comm k n] at hhigh
      omega
    have hblock : List.range' (n * k) k = n * k :: List.range' (n * k + 1) (k - 1) := by
      have hsucc : k = k - 1 + 1 := (Nat.sub_add_cancel hk).symm
      exact (congrArg (List.range' (n * k)) hsucc).trans List.range'_succ
    rw [Nat.succ_mul, ← List.range'_append_1, List.filterMap_append, ih, Nat.zero_add, hblock, List.filterMap_cons, hrest,
      List.range'_1_concat, List.filterMap_append, Nat.zero_add, List.filterMap_cons, List.filterMap_nil]

end Newest
