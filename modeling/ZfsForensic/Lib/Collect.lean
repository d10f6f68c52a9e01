import Mathlib.Tactic

/-!
# First come, first kept

A list of candidates is gone through in order. A candidate whose key is barred, or is the key of a result already kept, is passed
over; another is made into a result, if it can be. What is kept has one result for each key: that of the first candidate of the
key that could be made.
-/

namespace Collect

section Collect

variable {C R K : Type} (barred : K → Bool) (key : C → K) (keyOf : R → K) (make : C → Option R)

/-- The result `r` is that of the candidate `c`, the first of its key that can be made, and the key is not barred. -/
def First (cs : List C) (c : C) (r : R) : Prop :=
  ∃ before after, cs = before ++ c :: after ∧ barred (key c) = false ∧ make c = some r ∧
    ∀ c' ∈ before, key c' = key c → make c' = none

/-- What is kept of the candidates: one result for each key, the first. -/
structure Collected (cs : List C) (out : List R) : Prop where
  nodup : (out.map keyOf).Nodup
  mem_iff : ∀ r, r ∈ out ↔ ∃ c, First barred key make cs c r

variable {barred key keyOf make}

/-- The first candidates of a list with one more at its end. -/
theorem first_append_singleton {cs : List C} {c : C} {r : R} :
    (∃ c', First barred key make (cs ++ [c]) c' r) ↔ (∃ c', First barred key make cs c' r) ∨
      (barred (key c) = false ∧ make c = some r ∧ ∀ c' ∈ cs, key c' = key c → make c' = none) := by
  constructor
  · rintro ⟨c', before, after, hcs, hbar, hmake, hfirst⟩
    rcases List.eq_nil_or_concat after with rfl | ⟨after', d, rfl⟩
    · obtain ⟨rfl, hc⟩ := List.append_inj' hcs rfl
      rw [(List.cons.inj hc).1]
      exact Or.inr ⟨hbar, hmake, hfirst⟩
    · rw [List.concat_eq_append, ← List.cons_append, ← List.append_assoc] at hcs
      exact Or.inl ⟨c', before, after', (List.append_inj' hcs rfl).1, hbar, hmake, hfirst⟩
  · rintro (⟨c', before, after, rfl, h⟩ | ⟨hbar, hmake, hfirst⟩)
    · exact ⟨c', before, after ++ [c], by rw [List.append_assoc, List.cons_append], h⟩
    · exact ⟨c, cs, [], rfl, hbar, hmake, hfirst⟩

/-- The first candidates of a mapped list are the images of those of the list. -/
theorem first_map {C' : Type} {f : C' → C} {cs : List C'} {r : R} :
    (∃ c, First barred key make (cs.map f) c r) ↔
      ∃ c, First barred (fun c => key (f c)) (fun c => make (f c)) cs c r := by
  constructor
  · rintro ⟨_, before, after, hcs, hbar, hmake, hfirst⟩
    obtain ⟨front, back, rfl, rfl, hback⟩ := List.map_eq_append_iff.1 hcs
    obtain ⟨c, back', rfl, rfl, -⟩ := List.map_eq_cons_iff.1 hback
    exact ⟨c, front, back', rfl, hbar, hmake, fun c' hc' hk => hfirst _ (List.mem_map_of_mem hc') hk⟩
  · rintro ⟨c, front, back, rfl, hbar, hmake, hfirst⟩
    refine ⟨f c, front.map f, back.map f, by rw [List.map_append, List.map_cons], hbar, hmake, fun c' hc' hk => ?_⟩
    obtain ⟨d, hd, rfl⟩ := List.mem_map.1 hc'
    exact hfirst d hd hk

variable [DecidableEq K]

variable (barred key keyOf make) in
/-- One candidate. -/
def step (out : List R) (c : C) : List R :=
  if barred (key c) = true ∨ key c ∈ out.map keyOf then out else out ++ (make c).toList

/-- A key that is not barred and has a candidate that can be made has a first one. -/
theorem exists_first {cs : List C} {k : K} (hbar : barred k = false) (h : ∃ c ∈ cs, key c = k ∧ (make c).isSome = true) :
    ∃ c r, First barred key make cs c r ∧ key c = k := by
  obtain ⟨c, hc, hk, hmake⟩ := h
  cases hfind : cs.find? (fun c => decide (key c = k) && (make c).isSome) with
  | none =>
    have hnone := List.find?_eq_none.1 hfind c hc
    simp [hk, hmake] at hnone
  | some c' =>
    obtain ⟨hp, before, after, hcs, hbefore⟩ := List.find?_eq_some_iff_append.1 hfind
    rw [Bool.and_eq_true, decide_eq_true_iff] at hp
    obtain ⟨r, hr⟩ := Option.isSome_iff_exists.1 hp.2
    refine ⟨c', r, ⟨before, after, hcs, hp.1 ▸ hbar, hr, fun d hd hkey => ?_⟩, hp.1⟩
    have hd' := hbefore d hd
    rw [hp.1] at hkey
    simpa [hkey] using hd'

variable (hkey : ∀ c r, make c = some r → keyOf r = key c)
include hkey

/-- The keys of what is kept. -/
theorem Collected.mem_keys_iff {cs : List C} {out : List R} (h : Collected barred key keyOf make cs out) (k : K) :
    k ∈ out.map keyOf ↔ barred k = false ∧ ∃ c ∈ cs, key c = k ∧ (make c).isSome = true := by
  rw [List.mem_map]
  constructor
  · rintro ⟨r, hr, rfl⟩
    obtain ⟨c, before, after, rfl, hbar, hmake, -⟩ := (h.mem_iff r).1 hr
    rw [hkey c r hmake]
    exact ⟨hbar, c, List.mem_append_right _ List.mem_cons_self, rfl, by rw [hmake]; rfl⟩
  · rintro ⟨hbar, hc⟩
    obtain ⟨c, r, hfirst, rfl⟩ := exists_first hbar hc
    have hmake := hfirst
    obtain ⟨-, -, -, -, hmake, -⟩ := hmake
    exact ⟨r, (h.mem_iff r).2 ⟨c, hfirst⟩, hkey c r hmake⟩

/-- One more candidate keeps the description. -/
theorem Collected.step {cs : List C} {out : List R} (h : Collected barred key keyOf make cs out) (c : C) :
    Collected barred key keyOf make (cs ++ [c]) (step barred key keyOf make out c) := by
  unfold Collect.step
  by_cases hpass : barred (key c) = true ∨ key c ∈ out.map keyOf
  · rw [if_pos hpass]
    refine ⟨h.nodup, fun r => ?_⟩
    rw [first_append_singleton, h.mem_iff, or_iff_left]
    rintro ⟨hbar, -, hnone⟩
    rcases hpass with hbar' | hmem
    · exact absurd hbar' (by rw [hbar]; decide)
    · obtain ⟨-, c', hc', hk, hsome⟩ := (h.mem_keys_iff hkey _).1 hmem
      rw [hnone c' hc' hk] at hsome
      exact absurd hsome (by simp)
  · rw [if_neg hpass]
    rw [not_or, Bool.not_eq_true] at hpass
    obtain ⟨hbar, hmem⟩ := hpass
    cases hmake : make c with
    | none =>
      rw [Option.toList_none, List.append_nil]
      refine ⟨h.nodup, fun r => ?_⟩
      rw [first_append_singleton, h.mem_iff, or_iff_left]
      rintro ⟨-, hsome, -⟩
      exact absurd (hmake.symm.trans hsome) (by simp)
    | some r₀ =>
      rw [Option.toList_some]
      refine ⟨?_, fun r => ?_⟩
      · rw [List.map_append, List.map_singleton, hkey c r₀ hmake]
        exact List.nodup_append.2 ⟨h.nodup, List.nodup_singleton _, fun a ha b hb hab =>
          hmem (by rwa [← List.mem_singleton.1 hb, ← hab])⟩
      · rw [first_append_singleton, ← h.mem_iff, List.mem_append, List.mem_singleton, hmake, Option.some.injEq]
        refine or_congr_right ⟨fun hr => ⟨hbar, hr.symm, fun c' hc' hk => ?_⟩, fun hr => hr.2.1.symm⟩
        -- were an earlier candidate of the key made, the key would be kept already
        by_contra hsome
        exact hmem ((h.mem_keys_iff hkey _).2 ⟨hbar, c', hc', hk, Option.isSome_iff_ne_none.2 hsome⟩)

/-- What a whole run keeps. -/
theorem collected_foldl (cs : List C) :
    Collected barred key keyOf make cs (cs.foldl (Collect.step barred key keyOf make) []) := by
  induction cs using List.reverseRecOn with
  | nil => exact ⟨List.nodup_nil, fun r => ⟨fun h => absurd h (by simp), by rintro ⟨c, before, after, h, -⟩; simp at h⟩⟩
  | append_singleton cs c ih =>
    rw [List.foldl_append]
    exact ih.step hkey c

/-! ## As a list -/

omit hkey in
variable (keyOf) in
/-- The first result of each key. -/
def firsts : List R → List R
  | [] => []
  | r :: rs => r :: (firsts rs).filter fun r' => decide (keyOf r' ≠ keyOf r)

omit hkey in
theorem mem_keys_firsts_iff (rs : List R) (k : K) : k ∈ (firsts keyOf rs).map keyOf ↔ k ∈ rs.map keyOf := by
  induction rs with
  | nil => exact Iff.rfl
  | cons r rs ih =>
    simp only [List.mem_map] at ih
    simp only [firsts, List.map_cons, List.mem_cons, List.mem_map, List.mem_filter, decide_eq_true_iff]
    constructor
    · rintro (rfl | ⟨r', ⟨hr', -⟩, rfl⟩)
      · exact Or.inl rfl
      · exact Or.inr (ih.1 ⟨r', hr', rfl⟩)
    · rintro (rfl | h)
      · exact Or.inl rfl
      · by_cases hk : k = keyOf r
        · exact Or.inl hk
        · obtain ⟨r', hr', rfl⟩ := ih.2 h
          exact Or.inr ⟨r', ⟨hr', hk⟩, rfl⟩

omit hkey in
/-- Every key is kept once. -/
theorem nodup_keys_firsts (rs : List R) : ((firsts keyOf rs).map keyOf).Nodup := by
  induction rs with
  | nil => exact List.nodup_nil
  | cons r rs ih =>
    rw [firsts, List.map_cons, List.nodup_cons]
    refine ⟨fun h => ?_, ih.sublist (List.filter_sublist.map keyOf)⟩
    obtain ⟨r', hr', hk⟩ := List.mem_map.1 h
    exact absurd hk (by simpa using (List.mem_filter.1 hr').2)

omit hkey in
/-- What is kept is what a search for its key comes to first. -/
theorem mem_firsts_iff (rs : List R) (r : R) :
    r ∈ firsts keyOf rs ↔ rs.find? (fun r' => decide (keyOf r' = keyOf r)) = some r := by
  induction rs with
  | nil => simp [firsts]
  | cons a rs ih =>
    rw [firsts, List.mem_cons, List.mem_filter, ih, List.find?_cons]
    by_cases ha : keyOf a = keyOf r
    · simp [ha, eq_comm]
    · have hne : r ≠ a := fun h => ha (by rw [h])
      simp [ha, hne, Ne.symm ha]

omit hkey in
/-- A search for a key among the results that are not barred. -/
theorem find?_filter_barred (rs : List R) (k : K) :
    (rs.filter fun r => !barred (keyOf r)).find? (fun r => decide (keyOf r = k)) =
      if barred k = true then none else rs.find? (fun r => decide (keyOf r = k)) := by
  rw [List.find?_filter]
  cases hbar : barred k with
  | true =>
    rw [if_pos rfl, List.find?_eq_none]
    intro r _ h
    obtain ⟨hopen, rfl⟩ : barred (keyOf r) = false ∧ keyOf r = k := by simpa using h
    rw [hbar] at hopen
    exact absurd hopen (by decide)
  | false =>
    rw [if_neg Bool.false_ne_true]
    refine List.find?_congr fun r _ => ?_
    by_cases hk : keyOf r = k
    · simp [hk, hbar]
    · simp [hk]

omit hkey in
/-- One more result is kept when its key is new. -/
theorem firsts_append_singleton (rs : List R) (r : R) :
    firsts keyOf (rs ++ [r]) = firsts keyOf rs ++ if keyOf r ∈ rs.map keyOf then [] else [r] := by
  induction rs with
  | nil => rfl
  | cons a rs ih =>
    rw [List.cons_append, firsts, ih, List.filter_append, firsts, List.map_cons, List.cons_append]
    by_cases hold : keyOf r ∈ rs.map keyOf
    · rw [if_pos hold, if_pos (List.mem_cons_of_mem _ hold), List.filter_nil]
    · rw [if_neg hold]
      by_cases ha : keyOf r = keyOf a
      · rw [ha, if_pos List.mem_cons_self]
        simp [ha]
      · have hnew : keyOf r ∉ keyOf a :: rs.map keyOf := by
          rw [List.mem_cons]
          exact not_or.2 ⟨ha, hold⟩
        rw [if_neg hnew]
        simp [ha]

/-- A whole run keeps the first of each key among the results that can be made and are not barred. -/
theorem foldl_step_eq_firsts (cs : List C) :
    cs.foldl (Collect.step barred key keyOf make) [] = firsts keyOf ((cs.filterMap make).filter fun r => !barred (keyOf r)) := by
  induction cs using List.reverseRecOn with
  | nil => rfl
  | append_singleton cs c ih =>
    rw [List.foldl_append, ih, List.foldl_cons, List.foldl_nil, List.filterMap_append, List.filter_append, Collect.step]
    cases hmake : make c with
    | none => simp [hmake]
    | some r =>
      have hk := hkey c r hmake
      have hone : [c].filterMap make = [r] := by rw [List.filterMap_cons, hmake, List.filterMap_nil]
      rw [hone, ← hk]
      cases hbar : barred (keyOf r) with
      | true =>
        have hnil : [r].filter (fun r => !barred (keyOf r)) = [] := by simp [hbar]
        rw [if_pos (Or.inl rfl), hnil, List.append_nil]
      | false =>
        have hsame : [r].filter (fun r => !barred (keyOf r)) = [r] := by simp [hbar]
        rw [hsame, firsts_append_singleton]
        by_cases hold : keyOf r ∈ ((cs.filterMap make).filter fun r => !barred (keyOf r)).map keyOf
        · rw [if_pos (Or.inr ((mem_keys_firsts_iff _ _).2 hold)), if_pos hold, List.append_nil]
        · rw [if_neg (not_or.2 ⟨Bool.false_ne_true, fun h => hold ((mem_keys_firsts_iff _ _).1 h)⟩), if_neg hold, Option.toList_some]

end Collect

/-- A candidate of a concatenation stands in one of its parts, behind the parts before it. -/
theorem flatMap_eq_append_cons {A C : Type} {f : A → List C} {as : List A} {before after : List C} {c : C}
    (h : as.flatMap f = before ++ c :: after) :
    ∃ front a back before' after', as = front ++ a :: back ∧ f a = before' ++ c :: after' ∧
      before = front.flatMap f ++ before' := by
  induction as generalizing before with
  | nil => exact absurd h (by simp)
  | cons a as ih =>
    rw [List.flatMap_cons] at h
    rcases List.append_eq_append_iff.1 h with ⟨rest, hbefore, hrest⟩ | ⟨rest, hfa, hrest⟩
    · obtain ⟨front, a', back, before', after', has, hfa, hb⟩ := ih hrest
      exact ⟨a :: front, a', back, before', after', by rw [has, List.cons_append], hfa,
        by rw [hbefore, hb, List.flatMap_cons, List.append_assoc]⟩
    · cases rest with
      | nil =>
        have hnext : as.flatMap f = [] ++ c :: after := hrest.symm
        rw [List.append_nil] at hfa
        obtain ⟨front, a', back, before', after', has, hfa', hb⟩ := ih hnext
        refine ⟨a :: front, a', back, before', after', by rw [has, List.cons_append], hfa', ?_⟩
        rw [List.flatMap_cons, List.append_assoc, ← hb, List.append_nil, hfa]
      | cons d rest =>
        obtain ⟨rfl, -⟩ := List.cons.inj hrest
        exact ⟨[], a, as, before, rest, rfl, hfa, by rw [List.flatMap_nil, List.nil_append]⟩

end Collect
