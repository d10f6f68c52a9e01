import Mathlib.Tactic

/-!
# Chains of links

A linked list kept in a store: `resolve` finds the record of a key, `next` the key a record links to, and one key stands for the
end. `walk` follows such a list with a bound on its steps and a list of the keys it has seen, so it ends on every store, also on
one whose links form a cycle. Within its bound it visits a chain whole, each record once.
-/

namespace Chain

variable {K V : Type} (resolve : K → Option V) (next : V → K)

/-- The records met from a key on, with their keys, and the key at which they leave off. -/
inductive Path : K → List (K × V) → K → Prop
  | nil (k : K) : Path k [] k
  | cons {k e : K} {v : V} {rest : List (K × V)} (h : resolve k = some v) (hrest : Path (next v) rest e) :
      Path k ((k, v) :: rest) e

/-- The chain from a key: its keys differ from each other and from the end, and it leaves off at the end, at a key it has met, or
at one without a record. -/
structure IsChain (stop k : K) (vs : List (K × V)) : Prop where
  ne_stop : ∀ p ∈ vs, p.1 ≠ stop
  nodup : (vs.map Prod.fst).Nodup
  ends : ∃ e, Path resolve next k vs e ∧ (e = stop ∨ e ∈ vs.map Prod.fst ∨ resolve e = none)

variable {resolve next} in
/-- Records that are numbered, each linked to the next, make a path. -/
theorem path_of_numbered (key : ℕ → K) (record : ℕ → V) {n : ℕ}
    (h : ∀ i < n, resolve (key i) = some (record i) ∧ next (record i) = key (i + 1)) :
    Path resolve next (key 0) ((List.range n).map fun i => (key i, record i)) (key n) := by
  have hfrom : ∀ m i, i + m = n → Path resolve next (key i) ((List.range' i m).map fun i => (key i, record i)) (key n) := by
    intro m
    induction m with
    | zero =>
      intro i hi
      rw [Nat.add_zero] at hi
      rw [hi]
      exact Path.nil _
    | succ m ih =>
      intro i hi
      obtain ⟨hrecord, hnext⟩ := h i (by omega)
      refine Path.cons hrecord ?_
      rw [hnext]
      exact ih (i + 1) (by omega)
  rw [List.range_eq_range']
  exact hfrom n 0 (Nat.zero_add n)

variable [DecidableEq K] (stop : K)

/-- The walk along a chain, of at most so many steps. -/
def walk : ℕ → K → List K → List (K × V)
  | 0, _, _ => []
  | n + 1, k, seen =>
    if k = stop ∨ k ∈ seen then []
    else
      match resolve k with
      | none => []
      | some v => (k, v) :: walk n (next v) (seen ++ [k])

variable {resolve next stop}

/-- A walk that has seen none of a path's keys visits the path, when the path leaves off where a walk does. -/
theorem walk_eq_of_path {k e : K} {vs : List (K × V)} (hpath : Path resolve next k vs e) {n : ℕ} (hn : vs.length ≤ n)
    {seen : List K} (hstop : ∀ p ∈ vs, p.1 ≠ stop) (hnodup : (seen ++ vs.map Prod.fst).Nodup)
    (hend : e = stop ∨ e ∈ seen ++ vs.map Prod.fst ∨ resolve e = none) : walk resolve next stop n k seen = vs := by
  induction hpath generalizing n seen with
  | nil k =>
    cases n with
    | zero => rfl
    | succ n =>
      rw [List.map_nil, List.append_nil] at hend
      unfold walk
      split
      · rfl
      · rename_i hgo
        rw [not_or] at hgo
        rw [(hend.resolve_left hgo.1).resolve_left hgo.2]
  | @cons k e v rest hk _ ih =>
    obtain ⟨n, rfl⟩ : ∃ m, n = m + 1 := Nat.exists_eq_succ_of_ne_zero (by rw [List.length_cons] at hn; omega)
    have hseen : k ∉ seen := fun hmem =>
      (List.nodup_append.1 hnodup).2.2 k hmem k (by rw [List.map_cons]; exact List.mem_cons_self) rfl
    have hmove : seen ++ ((k, v) :: rest).map Prod.fst = (seen ++ [k]) ++ rest.map Prod.fst := by
      rw [List.map_cons, List.append_assoc, List.singleton_append]
    rw [walk, if_neg (not_or.2 ⟨hstop _ List.mem_cons_self, hseen⟩), hk]
    dsimp only
    rw [ih (Nat.le_of_succ_le_succ hn) (fun p hp => hstop p (List.mem_cons_of_mem _ hp)) (hmove ▸ hnodup) (hmove ▸ hend)]

/-- A chain within the bound is visited whole. -/
theorem walk_eq_of_isChain {k : K} {vs : List (K × V)} (h : IsChain resolve next stop k vs) {n : ℕ} (hn : vs.length ≤ n) :
    walk resolve next stop n k [] = vs := by
  obtain ⟨hstop, hnodup, e, hpath, hend⟩ := h
  exact walk_eq_of_path hpath hn hstop (by rwa [List.nil_append]) (by rwa [List.nil_append])

end Chain
