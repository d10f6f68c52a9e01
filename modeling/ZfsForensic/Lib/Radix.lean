import Mathlib.Tactic

/-!
# Trees of one fan-out, and concatenations of one width

A concatenation of pieces of one width is indexed by quotient and remainder. A tree in which every node above the leaves has the
same number of children is indexed by the digits of a number: its `n`-th leaf, left to right, is found by descending along the
digits of `n`, most significant first. The leaves are also listed with their addresses, the child indices on the way, which are
pairwise distinct.
-/

namespace Radix

variable {α β : Type}

/-! ## Concatenations of one width -/

theorem length_flatMap {f : α → List β} {w : Nat} {l : List α} (h : ∀ a ∈ l, (f a).length = w) :
    (l.flatMap f).length = w * l.length := by
  induction l with
  | nil => rfl
  | cons a l ih =>
    rw [List.flatMap_cons, List.length_append, h a List.mem_cons_self, ih (fun b hb => h b (List.mem_cons_of_mem _ hb)),
      List.length_cons, Nat.mul_succ, Nat.add_comm]

/-- Dropping whole pieces drops their indices. -/
theorem drop_flatMap {f : α → List β} {w : Nat} {l : List α} (h : ∀ a ∈ l, (f a).length = w) (q : Nat) :
    (l.flatMap f).drop (w * q) = (l.drop q).flatMap f := by
  induction q generalizing l with
  | zero => rfl
  | succ q ih =>
    cases l with
    | nil => simp
    | cons a l =>
      have hsplit : w * (q + 1) = (f a).length + w * q := by
        rw [h a List.mem_cons_self, Nat.mul_succ, Nat.add_comm]
      rw [List.flatMap_cons, hsplit, ← List.drop_drop, List.drop_left, List.drop_succ_cons]
      exact ih (fun b hb => h b (List.mem_cons_of_mem _ hb))

/-- A range inside one piece is that range of the piece. -/
theorem take_drop_flatMap {f : α → List β} {w q r k : Nat} {l : List α} {a : α} (h : ∀ a ∈ l, (f a).length = w)
    (ha : l[q]? = some a) (hk : r + k ≤ w) : ((l.flatMap f).drop (w * q + r)).take k = ((f a).drop r).take k := by
  obtain ⟨hq, rfl⟩ := List.getElem?_eq_some_iff.1 ha
  have hlen : (f l[q]).length = w := h _ (List.getElem_mem hq)
  rw [← List.drop_drop, drop_flatMap h, List.drop_eq_getElem_cons hq, List.flatMap_cons,
    List.drop_append_of_le_length (by omega), List.take_append_of_le_length (by rw [List.length_drop]; omega)]

/-- An element of the concatenation, by quotient and remainder. -/
theorem getElem?_flatMap {f : α → List β} {w : Nat} {l : List α} (h : ∀ a ∈ l, (f a).length = w) (hw : 0 < w) (n : Nat) :
    (l.flatMap f)[n]? = (l[n / w]?).bind (fun a => (f a)[n % w]?) := by
  have hmod := Nat.mod_lt n hw
  have hn : w * (n / w) + n % w = n := Nat.div_add_mod n w
  cases ha : l[n / w]? with
  | none =>
    have hle : l.length ≤ n / w := List.getElem?_eq_none_iff.1 ha
    have hout : (l.flatMap f).length ≤ n := by
      rw [length_flatMap h]
      calc w * l.length ≤ w * (n / w) := Nat.mul_le_mul_left _ hle
        _ ≤ n := Nat.mul_div_le n w
    rw [List.getElem?_eq_none hout]
    rfl
  | some a =>
    have hrange := take_drop_flatMap (k := 1) h ha (by omega : n % w + 1 ≤ w)
    have hhead := congrArg (fun x => x[0]?) hrange
    simpa [List.getElem?_take_of_lt, List.getElem?_drop, hn] using hhead

/-- The same where a last piece may be shorter. -/
theorem getElem?_flatMap_snoc {f : α → List β} {w : Nat} {l : List α} {last : α} (h : ∀ a ∈ l, (f a).length = w)
    (hlast : (f last).length ≤ w) (hw : 0 < w) (n : Nat) :
    ((l ++ [last]).flatMap f)[n]? = ((l ++ [last])[n / w]?).bind (fun a => (f a)[n % w]?) := by
  have hlen := length_flatMap h
  have hdiv := Nat.div_add_mod n w
  have hmod := Nat.mod_lt n hw
  rw [List.flatMap_append, List.flatMap_singleton]
  by_cases hfront : n / w < l.length
  · have hin : n < (l.flatMap f).length := by
      rw [hlen]
      calc n < w * (n / w) + w := by omega
        _ = w * (n / w + 1) := (Nat.mul_succ w (n / w)).symm
        _ ≤ w * l.length := Nat.mul_le_mul_left w hfront
    rw [List.getElem?_append_left hin, List.getElem?_append_left hfront, getElem?_flatMap h hw]
  · have hout : w * l.length ≤ w * (n / w) := Nat.mul_le_mul_left w (Nat.not_lt.1 hfront)
    rw [List.getElem?_append_right (by rw [hlen]; omega), List.getElem?_append_right (Nat.not_lt.1 hfront), hlen]
    by_cases hend : n / w = l.length
    · have hrest : n - w * l.length = n % w := by
        rw [← hend]
        omega
      rw [hend, hrest, Nat.sub_self]
      rfl
    · have hnext : w * (l.length + 1) ≤ w * (n / w) := Nat.mul_le_mul_left w (by omega)
      rw [Nat.mul_succ] at hnext
      rw [List.getElem?_eq_none (by omega), List.getElem?_eq_none (l := [last]) (by rw [List.length_singleton]; omega)]
      rfl

/-! ## Groups of one width -/

/-- A list cut into groups of `w`, the last one shorter where they do not come out even. -/
def groups (w : Nat) (l : List α) : List (List α) :=
  (List.range ((l.length + w - 1) / w)).map fun q => (l.drop (w * q)).take w

@[simp] theorem length_groups (w : Nat) (l : List α) : (groups w l).length = (l.length + w - 1) / w := by
  rw [groups, List.length_map, List.length_range]

theorem getElem?_groups {w : Nat} (hw : 0 < w) {l : List α} {q : Nat} (hq : w * q < l.length) :
    (groups w l)[q]? = some ((l.drop (w * q)).take w) := by
  have hcount : q < (l.length + w - 1) / w := by
    rw [Nat.lt_div_iff_mul_lt hw, Nat.mul_comm]
    omega
  rw [groups, List.getElem?_map, List.getElem?_range hcount, Option.map_some]

/-- An element stands in the group of its quotient, at its remainder. -/
theorem exists_group {w : Nat} (hw : 0 < w) {l : List α} {i : Nat} {a : α} (ha : l[i]? = some a) :
    ∃ g, (groups w l)[i / w]? = some g ∧ g[i % w]? = some a := by
  obtain ⟨hi, -⟩ := List.getElem?_eq_some_iff.1 ha
  have hn : w * (i / w) + i % w = i := Nat.div_add_mod i w
  refine ⟨_, getElem?_groups hw (by omega), ?_⟩
  rw [List.getElem?_take_of_lt (Nat.mod_lt i hw), List.getElem?_drop, hn, ha]

theorem length_le_of_mem_groups {w : Nat} {l g : List α} (h : g ∈ groups w l) : g.length ≤ w := by
  obtain ⟨q, -, rfl⟩ := List.mem_map.1 h
  rw [List.length_take]
  exact Nat.min_le_left _ _

theorem mem_of_mem_groups {w : Nat} {l g : List α} {a : α} (h : g ∈ groups w l) (ha : a ∈ g) : a ∈ l := by
  obtain ⟨q, -, rfl⟩ := List.mem_map.1 h
  exact List.mem_of_mem_drop (List.mem_of_mem_take ha)

/-- As many as `w ^ (n + 1)` elements make at most `w ^ n` groups, and some make one. -/
theorem length_groups_range {w : Nat} (hw : 0 < w) {l : List α} {n : Nat} (hpos : 0 < l.length) (hle : l.length ≤ w ^ (n + 1)) :
    0 < (groups w l).length ∧ (groups w l).length ≤ w ^ n := by
  rw [length_groups]
  refine ⟨(Nat.div_pos_iff.2 ⟨hw, by omega⟩), Nat.le_of_lt_succ ((Nat.div_lt_iff_lt_mul hw).2 ?_)⟩
  rw [Nat.pow_succ] at hle
  rw [Nat.succ_mul]
  omega

/-- A length that comes out even makes groups that are all full. -/
theorem length_of_mem_groups {w : Nat} {l : List α} {n : Nat} (hl : l.length = w * n) {g : List α} (h : g ∈ groups w l) :
    g.length = w := by
  obtain ⟨q, hq, rfl⟩ := List.mem_map.1 h
  rw [List.mem_range] at hq
  cases w with
  | zero => simp
  | succ w =>
    have hcount : (l.length + (w + 1) - 1) / (w + 1) = n := by
      rw [hl, Nat.add_sub_assoc (by omega), Nat.mul_add_div (by omega), Nat.div_eq_of_lt (by omega), Nat.add_zero]
    rw [hcount] at hq
    have hle : (w + 1) * (q + 1) ≤ (w + 1) * n := Nat.mul_le_mul_left _ hq
    rw [List.length_take, List.length_drop, hl]
    rw [Nat.mul_succ] at hle
    omega

/-- The groups together are the list. -/
theorem flatten_groups {w : Nat} (hw : 0 < w) (l : List α) : (groups w l).flatten = l := by
  suffices hgen : ∀ n, ((List.range n).map fun q => (l.drop (w * q)).take w).flatten = l.take (w * n) by
    rw [groups, hgen]
    refine List.take_of_length_le ?_
    have hdiv := Nat.div_add_mod (l.length + w - 1) w
    have hmod := Nat.mod_lt (l.length + w - 1) hw
    omega
  intro n
  induction n with
  | zero => simp
  | succ n ih =>
    rw [List.range_succ, List.map_append, List.flatten_append, ih, Nat.mul_succ, List.take_add]
    simp

/-! ## Trees -/

section Tree

variable (children : α → List α) (w : Nat)

/-- The leaves under a node `level` levels above them, left to right. -/
def leaves : Nat → α → List α
  | 0, a => [a]
  | level + 1, a => (children a).flatMap (leaves level)

/-- The leaves under a node, each with its address: the child indices on the way, behind those of the node. -/
def leafSlots : Nat → List Nat → α → List (List Nat × α)
  | 0, addr, a => [(addr, a)]
  | level + 1, addr, a => (children a).zipIdx.flatMap (fun b => leafSlots level (addr ++ [b.2]) b.1)

/-- The leaves under a list of roots, each with its address: the index of the root, and the child indices from there. -/
def forestSlots (level : Nat) (roots : List α) : List (List Nat × α) :=
  roots.zipIdx.flatMap (fun b => leafSlots children level [b.2] b.1)

/-- The descent from a node along the digits of a number. -/
def follow : Nat → Nat → α → Option α
  | 0, _, a => some a
  | level + 1, n, a => ((children a)[n / w ^ level % w]?).bind (follow level n)

/-- Whether every node above the leaves has `w` children. -/
def Full : Nat → α → Prop
  | 0, _ => True
  | level + 1, a => (children a).length = w ∧ ∀ b ∈ children a, Full level b

variable {children w}

theorem length_leaves {level : Nat} {a : α} (h : Full children w level a) : (leaves children level a).length = w ^ level := by
  induction level generalizing a with
  | zero => rfl
  | succ level ih =>
    rw [leaves, length_flatMap (fun b hb => ih (h.2 b hb)), h.1, Nat.pow_succ]

/-- The descent reads no digit above its level. -/
theorem follow_mod (level n : Nat) (a : α) : follow children w level (n % w ^ level) a = follow children w level n a := by
  suffices hgen : ∀ k, level ≤ k → follow children w level (n % w ^ k) a = follow children w level n a from hgen level le_rfl
  intro k hk
  induction level generalizing a with
  | zero => rfl
  | succ level ih =>
    have hdigit : n % w ^ k / w ^ level % w = n / w ^ level % w := by
      obtain ⟨j, rfl⟩ := Nat.exists_eq_add_of_le hk
      rw [Nat.add_assoc, Nat.pow_add, Nat.mod_mul_right_div_self, Nat.add_comm, Nat.pow_succ,
        Nat.mod_mul_left_mod]
    rw [follow, follow, hdigit]
    congr 1
    funext b
    exact ih b (by omega)

/-- The `n`-th leaf under a node is the one the digits of `n` lead to. -/
theorem getElem?_leaves (hw : 0 < w) {level n : Nat} {a : α} (h : Full children w level a) (hn : n < w ^ level) :
    (leaves children level a)[n]? = follow children w level n a := by
  induction level generalizing a n with
  | zero =>
    have h0 : n = 0 := by simpa using hn
    rw [h0]
    rfl
  | succ level ih =>
    have hpos : 0 < w ^ level := Nat.pow_pos hw
    have hdigit : n / w ^ level < w := Nat.div_lt_of_lt_mul (by rwa [Nat.pow_succ] at hn)
    rw [leaves, getElem?_flatMap (fun b hb => length_leaves (h.2 b hb)) hpos, follow, Nat.mod_eq_of_lt hdigit]
    cases hb : (children a)[n / w ^ level]? with
    | none => rfl
    | some b =>
      have hmem : b ∈ children a := List.mem_of_getElem? hb
      rw [Option.bind_some, Option.bind_some, ih (h.2 b hmem) (Nat.mod_lt _ hpos), follow_mod]

/-- Over a list of roots, the quotient selects the root. -/
theorem getElem?_forest (hw : 0 < w) {level : Nat} {roots : List α} (h : ∀ a ∈ roots, Full children w level a) (n : Nat) :
    (roots.flatMap (leaves children level))[n]? = (roots[n / w ^ level]?).bind (follow children w level n) := by
  have hpos : 0 < w ^ level := Nat.pow_pos hw
  rw [getElem?_flatMap (fun a ha => length_leaves (h a ha)) hpos]
  cases ha : roots[n / w ^ level]? with
  | none => rfl
  | some a =>
    have hmem : a ∈ roots := List.mem_of_getElem? ha
    rw [Option.bind_some, Option.bind_some, getElem?_leaves hw (h a hmem) (Nat.mod_lt _ hpos), follow_mod]

/-! ## Addresses -/

/-- Without their addresses the slots are the leaves. -/
theorem map_snd_leafSlots (level : Nat) (addr : List Nat) (a : α) :
    (leafSlots children level addr a).map Prod.snd = leaves children level a := by
  induction level generalizing addr a with
  | zero => rfl
  | succ level ih =>
    rw [leafSlots, leaves, List.map_flatMap]
    simp only [ih]
    rw [← List.flatMap_map (f := Prod.fst), List.zipIdx_map_fst]

/-- An address extends that of the node it is listed under. -/
theorem prefix_of_mem_leafSlots {level : Nat} {addr : List Nat} {a : α} {s : List Nat × α}
    (h : s ∈ leafSlots children level addr a) : addr <+: s.1 := by
  induction level generalizing addr a with
  | zero =>
    rw [leafSlots, List.mem_singleton] at h
    rw [h]
  | succ level ih =>
    rw [leafSlots, List.mem_flatMap] at h
    obtain ⟨b, -, hb⟩ := h
    exact (List.prefix_append addr [b.2]).trans (ih hb)

/-- The slots under nodes of distinct indices have distinct addresses. -/
theorem nodup_slots_of_zipIdx (level : Nat) (addr : List Nat) (nodes : List α)
    (h : ∀ addr a, ((leafSlots children level addr a).map Prod.fst).Nodup) :
    ((nodes.zipIdx.flatMap (fun b => leafSlots children level (addr ++ [b.2]) b.1)).map Prod.fst).Nodup := by
  rw [List.map_flatMap, List.nodup_flatMap]
  refine ⟨fun b _ => h _ _, ?_⟩
  have hidx : nodes.zipIdx.Pairwise (fun b c => b.2 ≠ c.2) := by
    have hnodup : (nodes.zipIdx.map Prod.snd).Nodup := by
      rw [List.zipIdx_map_snd]
      exact List.nodup_range'
    exact List.pairwise_map.1 hnodup
  refine hidx.imp fun {b c} hbc => ?_
  rw [Function.onFun, List.disjoint_left]
  intro x hx hy
  obtain ⟨s, hs, rfl⟩ := List.mem_map.1 hx
  obtain ⟨t, ht, hts⟩ := List.mem_map.1 hy
  have h1 := prefix_of_mem_leafSlots hs
  have h2 := prefix_of_mem_leafSlots ht
  rw [hts] at h2
  have heq : addr ++ [b.2] = addr ++ [c.2] :=
    (List.prefix_of_prefix_length_le h1 h2 (by simp)).eq_of_length (by simp)
  exact hbc (by simpa using heq)

/-- No address is listed twice under a node. -/
theorem nodup_leafSlots (level : Nat) (addr : List Nat) (a : α) :
    ((leafSlots children level addr a).map Prod.fst).Nodup := by
  induction level generalizing addr a with
  | zero => simp [leafSlots]
  | succ level ih => exact nodup_slots_of_zipIdx level addr (children a) ih

/-- No address is listed twice under a list of roots. -/
theorem nodup_forestSlots (level : Nat) (roots : List α) :
    ((forestSlots children level roots).map Prod.fst).Nodup :=
  nodup_slots_of_zipIdx level [] roots (nodup_leafSlots level)

/-- Without their addresses the slots of a list of roots are its leaves. -/
theorem map_snd_forestSlots (level : Nat) (roots : List α) :
    (forestSlots children level roots).map Prod.snd = roots.flatMap (leaves children level) := by
  rw [forestSlots, List.map_flatMap]
  simp only [map_snd_leafSlots]
  rw [← List.flatMap_map (f := Prod.fst), List.zipIdx_map_fst]

end Tree

end Radix
