import ZfsForensic.Theorems.NvlistRoundTrip

/-!
# How many pairs a packed nvlist holds

A nested list begins inside the pair that holds it, and the walk goes on behind the encoded size of that pair, wherever the nested list
ended. A pair that declares less than its list takes has the bytes behind it decoded twice, once as the list and once as the pairs that
follow; each such pair doubles what follows it. Where no pair is decoded twice, there are no more pairs than bytes.
-/

namespace ZfsForensic

open Octets Checked

mutual

/-- The pairs below a value. -/
def NvValue.pairs : NvValue → Nat
  | .nvList l => NvList.total l
  | _ => 0

/-- The pairs of a list, at every depth. -/
def NvList.total : List (Bytes × NvValue) → Nat
  | [] => 0
  | e :: rest => e.2.pairs + 1 + NvList.total rest

end

theorem NvList.total_append (l l' : NvList) : NvList.total (l ++ l') = NvList.total l + NvList.total l' := by
  induction l with
  | nil => simp [NvList.total]
  | cons e l ih =>
    rw [List.cons_append, NvList.total, NvList.total, ih]
    omega

/-- The types whose pairs are kept. -/
def keptTypes : List Nat := [8, 9, 10, 19, 26]

/-- The offsets at which the walk decodes the pairs it keeps, from `cur` on. `nested` gives those of a nested list. -/
def startsFrom (data : Bytes) (nested : Nat → List Nat) : Nat → Nat → List Nat
  | 0, _ => []
  | n + 1, cur =>
    if beU32 data cur = 0 then []
    else
      match readXdrString data (satAdd cur 8) "nvpair name" maxNameLen with
      | .error _ => []
      | .ok (_, afterName) =>
        let next := satAdd cur (beU32 data cur).toNat
        let dataType := (beU32 data afterName).toNat
        if dataType ∈ keptTypes then
          cur :: ((if dataType = 19 then nested (satAdd afterName 8) else []) ++
            if data.length ≤ next then [] else startsFrom data nested n next)
        else startsFrom data nested n next

/-- The offsets of the pairs of the list at an offset, and of the lists in it. -/
def startsAt (data : Bytes) : Nat → Nat → List Nat
  | 0, _ => []
  | left + 1, off => startsFrom data (startsAt data left) maxPairs (off + 8)

/-- The offsets at which the parser decodes pairs of a packed list. -/
def pairStarts (data : Bytes) : List Nat := startsAt data (maxDepth + 1) 4

/-- What a parsed value is, by the type of its pair. -/
theorem parseValue_cases {data : Bytes} {nested : Nat → Except ZfsError (NvList × Nat)} {afterName : Nat} {value : Option NvValue}
    (h : parseValue data nested afterName = .ok value) :
    (value = none ∧ (beU32 data afterName).toNat ∉ keptTypes) ∨
      (∃ l next, (beU32 data afterName).toNat = 19 ∧ nested (satAdd afterName 8) = .ok (l, next) ∧ value = some (.nvList l)) ∨
      ∃ v, (beU32 data afterName).toNat ∈ keptTypes ∧ (beU32 data afterName).toNat ≠ 19 ∧ value = some v ∧ v.pairs = 0 := by
  unfold parseValue at h
  dsimp only at h
  generalize (beU32 data afterName).toNat = dataType at h ⊢
  by_cases h8 : dataType = 8
  · rw [if_pos h8, Except.ok.injEq] at h
    exact Or.inr (Or.inr ⟨_, by simp [keptTypes, h8], by omega, h.symm, rfl⟩)
  rw [if_neg h8] at h
  by_cases h9 : dataType = 9
  · rw [if_pos h9] at h
    obtain ⟨s, -, hs⟩ := exists_of_map_eq_ok h
    exact Or.inr (Or.inr ⟨_, by simp [keptTypes, h9], by omega, hs.symm, rfl⟩)
  rw [if_neg h9] at h
  by_cases h19 : dataType = 19
  · rw [if_pos h19] at h
    obtain ⟨⟨l, next⟩, hl, hs⟩ := exists_of_map_eq_ok h
    exact Or.inr (Or.inl ⟨l, next, h19, hl, hs.symm⟩)
  rw [if_neg h19] at h
  by_cases hbytes : dataType = 10 ∨ dataType = 26
  · rw [if_pos hbytes] at h
    split at h
    · exact absurd h (by simp)
    · rw [Except.ok.injEq] at h
      refine Or.inr (Or.inr ⟨_, ?_, h19, h.symm, rfl⟩)
      rcases hbytes with hb | hb <;> simp [keptTypes, hb]
  · rw [if_neg hbytes, Except.ok.injEq] at h
    rw [not_or] at hbytes
    exact Or.inl ⟨h.symm, by simp [keptTypes, h8, h9, h19, hbytes.1, hbytes.2]⟩

/-- A word out of range reads as zero. -/
theorem lt_length_of_beU32_ne_zero {data : Bytes} {off : Nat} (h : beU32 data off ≠ 0) : off < data.length := by
  by_contra hge
  refine h ?_
  rw [beU32, readUint, slice?_eq_none_of_lt (by omega)]
  rfl

/-- Every offset is inside the data. -/
theorem startsFrom_lt {data : Bytes} {nested : Nat → List Nat} (hnested : ∀ off, ∀ s ∈ nested off, s < data.length) (n cur : Nat) :
    ∀ s ∈ startsFrom data nested n cur, s < data.length := by
  induction n generalizing cur with
  | zero => exact fun s hs => absurd hs (by simp [startsFrom])
  | succ n ih =>
    rw [startsFrom]
    by_cases hzero : beU32 data cur = 0
    · rw [if_pos hzero]
      exact fun s hs => absurd hs (by simp)
    · rw [if_neg hzero]
      cases readXdrString data (satAdd cur 8) "nvpair name" maxNameLen with
      | error e => exact fun s hs => absurd hs (by simp)
      | ok r =>
        dsimp only
        split
        · intro s hs
          rcases List.mem_cons.1 hs with rfl | hs
          · exact lt_length_of_beU32_ne_zero hzero
          · rcases List.mem_append.1 hs with hs | hs
            · split at hs
              · exact hnested _ s hs
              · exact absurd hs (by simp)
            · split at hs
              · exact absurd hs (by simp)
              · exact ih _ s hs
        · exact ih _

theorem startsAt_lt (data : Bytes) (left off : Nat) : ∀ s ∈ startsAt data left off, s < data.length := by
  induction left generalizing off with
  | zero => exact fun s hs => absurd hs (by simp [startsAt])
  | succ left ih => exact startsFrom_lt ih maxPairs (off + 8)

/-- The walk decodes one pair at each of its offsets. -/
theorem total_parsePairs {data : Bytes} {nested : Nat → Except ZfsError (NvList × Nat)} {starts : Nat → List Nat}
    (hnested : ∀ off l next, nested off = .ok (l, next) → NvList.total l = (starts off).length) {n cur : Nat} {list res : NvList}
    {next : Nat} (h : parsePairs data nested n cur list = .ok (res, next)) :
    NvList.total res = NvList.total list + (startsFrom data starts n cur).length := by
  induction n generalizing cur list with
  | zero => exact absurd h (by simp [parsePairs])
  | succ n ih =>
    rw [parsePairs] at h
    rw [startsFrom]
    dsimp only at h
    by_cases hzero : beU32 data cur = 0
    · simp only [if_pos hzero, Except.ok.injEq, Prod.mk.injEq] at h
      rw [if_pos hzero, ← h.1, List.length_nil, Nat.add_zero]
    · rw [if_neg hzero] at h ⊢
      split at h
      · exact absurd h (by simp)
      · cases hname : readXdrString data (satAdd cur 8) "nvpair name" maxNameLen with
        | error e =>
          simp only [hname] at h
          exact absurd h (by simp)
        | ok r =>
          obtain ⟨name, afterName⟩ := r
          simp only [hname] at h ⊢
          cases hvalue : parseValue data nested afterName with
          | error e =>
            simp only [hvalue] at h
            exact absurd h (by simp)
          | ok value =>
            simp only [hvalue] at h
            rcases parseValue_cases hvalue with ⟨rfl, htype⟩ | ⟨l, lnext, htype, hl, rfl⟩ | ⟨v, htype, h19, rfl, hv⟩
            · rw [if_neg htype]
              exact ih h
            · have hkept : (beU32 data afterName).toNat ∈ keptTypes := by simp [keptTypes, htype]
              have hstep : NvList.total (list ++ [(name, .nvList l)]) = NvList.total list + (starts (satAdd afterName 8)).length + 1 := by
                rw [NvList.total_append, NvList.total, NvList.total, NvValue.pairs, hnested _ l lnext hl]
                omega
              rw [if_pos hkept, if_pos htype, List.length_cons, List.length_append]
              dsimp only at h
              split at h
              · rename_i hend
                rw [Except.ok.injEq, Prod.mk.injEq] at h
                rw [if_pos hend, ← h.1, hstep, List.length_nil]
                omega
              · rename_i hend
                rw [if_neg hend, ih h, hstep]
                omega
            · have hstep : NvList.total (list ++ [(name, v)]) = NvList.total list + 1 := by
                rw [NvList.total_append, NvList.total, NvList.total, hv]
              rw [if_pos htype, if_neg h19, List.length_cons, List.nil_append]
              dsimp only at h
              split at h
              · rename_i hend
                rw [Except.ok.injEq, Prod.mk.injEq] at h
                rw [if_pos hend, ← h.1, hstep, List.length_nil]
              · rename_i hend
                rw [if_neg hend, ih h, hstep]
                omega

theorem total_parseBody {data : Bytes} (left : Nat) {off next : Nat} {l : NvList} (h : parseBody data left off = .ok (l, next)) :
    NvList.total l = (startsAt data left off).length := by
  induction left generalizing off next l with
  | zero => exact absurd h (by simp [parseBody])
  | succ left ih =>
    rw [parseBody] at h
    split at h
    · exact absurd h (by simp)
    · rw [total_parsePairs (fun off l next => ih) h, NvList.total, Nat.zero_add]
      rfl

/-- Distinct offsets inside the data are no more than its bytes. -/
theorem length_le_of_nodup {l : List Nat} {n : Nat} (hnodup : l.Nodup) (hlt : ∀ a ∈ l, a < n) : l.length ≤ n := by
  rw [← List.toFinset_card_of_nodup hnodup, ← Finset.card_range n]
  refine Finset.card_le_card fun a ha => ?_
  exact Finset.mem_range.2 (hlt a (List.mem_toFinset.1 ha))

/-- A parsed list whose pairs are decoded at distinct offsets has at most as many pairs, at every depth, as the data has bytes. -/
theorem total_le_length {data : Bytes} {l : NvList} (h : nvlistParse data = .ok l) (hstarts : (pairStarts data).Nodup) :
    NvList.total l ≤ data.length := by
  unfold nvlistParse at h
  dsimp only at h
  split at h
  · exact absurd h (by simp)
  · split at h
    · exact absurd h (by simp)
    · cases hbody : parseBody data (maxDepth + 1) 4 with
      | error e =>
        rw [hbody] at h
        exact absurd h (by simp [Except.map])
      | ok r =>
        rw [hbody] at h
        simp only [Except.map, Except.ok.injEq] at h
        rw [← h, total_parseBody (maxDepth + 1) hbody]
        exact length_le_of_nodup hstarts (startsAt_lt data (maxDepth + 1) 4)

/-- A packed configuration of three pairs, one of them in a nested list, has them at distinct offsets. -/
theorem total_le_length_sampleConfig :
    ∃ l, nvlistParse (sampleConfig.pack 1 0 0 0 1) = .ok l ∧ NvList.total l = 3 ∧ (pairStarts (sampleConfig.pack 1 0 0 0 1)).Nodup ∧
      NvList.total l ≤ (sampleConfig.pack 1 0 0 0 1).length := by
  have hfacts : (nvlistParse (sampleConfig.pack 1 0 0 0 1)).toOption.map NvList.total = some 3 ∧
      (pairStarts (sampleConfig.pack 1 0 0 0 1)).Nodup := by
    decide +kernel
  obtain ⟨hparse, hnodup⟩ := hfacts
  obtain ⟨l, hl, htotal⟩ := Option.map_eq_some_iff.1 hparse
  exact ⟨l, toOption_eq_ok hl, htotal, hnodup, total_le_length (toOption_eq_ok hl) hnodup⟩

/-- A nested list of 28 bytes in a pair of 28 bytes: version and flags of the list, and the pairs behind the pair. -/
def overlappingPair : Bytes := [0, 0, 0, 28, 0, 0, 0, 28, 0, 0, 0, 0, 0, 0, 0, 19, 0, 0, 0, 1, 0, 0, 0, 0, 0, 0, 0, 0]

/-- A packed list of `n` such pairs. -/
def overlappingPairs (n : Nat) : Bytes := [1, 0, 0, 0] ++ zeros 8 ++ (List.replicate n overlappingPair).flatten

/-- Eight pairs in 236 bytes are decoded as 255. -/
theorem overlappingPairs_amplify :
    (overlappingPairs 8).length = 236 ∧ ∃ l, nvlistParse (overlappingPairs 8) = .ok l ∧ NvList.total l = 255 ∧ ¬ NvList.total l ≤ (overlappingPairs 8).length := by
  have hfacts : (overlappingPairs 8).length = 236 ∧ (nvlistParse (overlappingPairs 8)).toOption.map NvList.total = some 255 := by decide +kernel
  obtain ⟨hlen, hparse⟩ := hfacts
  obtain ⟨l, hl, htotal⟩ := Option.map_eq_some_iff.1 hparse
  refine ⟨hlen, l, toOption_eq_ok hl, htotal, ?_⟩
  rw [hlen, htotal]
  omega

end ZfsForensic
