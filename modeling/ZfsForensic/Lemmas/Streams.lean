import ZfsForensic.Compress
import ZfsForensic.Lib.Window
import Mathlib.Data.Nat.Bitwise

/-!
# What a stream produces

`zleOutput` and `lzjbOutput` run a stream to its end, or to its first malformed item, with no length to stop at. The decoders stop at
the declared length, inside a run if need be: a decoder yields the first `lsize` bytes of what its stream produces, and fails where the
stream produces fewer.
-/

namespace ZfsForensic

open Octets

/-- The result of a decoder whose stream produces `full`, stopped at `lsize` bytes. -/
structure Reaches (codec : String) (lsize : Nat) (full : Bytes) (r : Except ZfsError Bytes) : Prop where
  ok : lsize ≤ full.length → r = .ok (full.take lsize)
  err : full.length < lsize → ∃ reason, r = .error (.decompress codec reason)

/-- A decoder that has its length stops, whatever the stream goes on to produce. -/
theorem Reaches.of_full {codec : String} {lsize : Nat} {out full : Bytes} (hpre : out <+: full) (hle : lsize ≤ out.length) :
    Reaches codec lsize full (.ok (out.take lsize)) where
  ok := by
    intro _
    rw [Window.take_of_prefix hpre hle]
  err := by
    intro hlt
    have := hpre.length_le
    omega

/-- A stream that ends before the length fails. -/
theorem Reaches.of_error {codec reason : String} {lsize : Nat} {full : Bytes} (hlt : full.length < lsize) :
    Reaches codec lsize full (.error (.decompress codec reason)) where
  ok := by
    intro hle
    omega
  err := fun _ => ⟨reason, rfl⟩

/-! ## zle -/

/-- All a zle stream produces. -/
def zleOutput : Bytes → Bytes
  | [] => []
  | ctrl :: rest =>
    if ctrl &&& 0x80 = 0 then
      if ctrl.toNat + 1 ≤ rest.length then rest.take (ctrl.toNat + 1) ++ zleOutput (rest.drop (ctrl.toNat + 1)) else []
    else zeros ((ctrl - 0x80).toNat + 1 + 63) ++ zleOutput rest
termination_by src => src.length

/-- Cutting after each run is cutting at the end. -/
theorem take_append_take {α : Type} {out bytes : List α} {n : Nat} (h : out.length ≤ n) :
    out ++ bytes.take (n - out.length) = (out ++ bytes).take n := by
  rw [List.take_append, List.take_of_length_le h]

theorem reaches_zleLoop {src : Bytes} {lsize fuel si : Nat} {out : Bytes} (hsi : si ≤ src.length) (hfuel : src.length < si + fuel) :
    Reaches "zle" lsize (out ++ zleOutput (src.drop si)) (zleLoop src lsize fuel si (out.take lsize)) := by
  induction fuel generalizing si out with
  | zero => omega
  | succ fuel ih =>
    rw [zleLoop, List.length_take]
    by_cases hfull : lsize ≤ out.length
    · rw [if_pos (by omega)]
      exact Reaches.of_full (List.prefix_append _ _) hfull
    · have hmin : min lsize out.length = out.length := by omega
      rw [if_neg (by omega), List.take_of_length_le (by omega), hmin]
      cases hctrl : src[si]? with
      | none =>
        rw [List.drop_eq_nil_of_le (List.getElem?_eq_none_iff.1 hctrl), zleOutput, List.append_nil]
        exact Reaches.of_error (by omega)
      | some ctrl =>
        obtain ⟨hlt, hget⟩ := List.getElem?_eq_some_iff.1 hctrl
        rw [List.drop_eq_getElem_cons hlt, hget, zleOutput]
        dsimp only
        by_cases hbit : ctrl &&& 0x80 = 0
        · rw [if_pos hbit, if_pos hbit, List.length_drop, List.drop_drop]
          by_cases hrun : ctrl.toNat + 1 ≤ src.length - (si + 1)
          · have hslice : slice? src (si + 1) (si + 1 + (ctrl.toNat + 1)) = some ((src.drop (si + 1)).take (ctrl.toNat + 1)) := by
              rw [slice?_of_le (by omega) (by omega), Nat.add_sub_cancel_left]
            rw [if_pos hrun, hslice, ← List.append_assoc]
            dsimp only
            rw [take_append_take (by omega)]
            exact ih (by omega) (by omega)
          · rw [if_neg hrun, slice?_eq_none_of_lt (by omega), List.append_nil]
            exact Reaches.of_error (by omega)
        · have hzeros (n : Nat) : zeros (min ((ctrl - 0x80).toNat + 1 + 63) n) = (zeros ((ctrl - 0x80).toNat + 1 + 63)).take n := by
            rw [List.take_replicate, Nat.min_comm]
          rw [if_neg hbit, if_neg hbit, ← List.append_assoc, hzeros, take_append_take (by omega)]
          exact ih (by omega) (by omega)

/-- ZLE yields the first `lsize` bytes of its stream, or fails. -/
theorem reaches_decompressZle (src : Bytes) (lsize : Nat) : Reaches "zle" lsize (zleOutput src) (decompressZle src lsize) := by
  have h : Reaches "zle" lsize ([] ++ zleOutput (src.drop 0)) (zleLoop src lsize (src.length + 1) 0 (([] : Bytes).take lsize)) :=
    reaches_zleLoop (Nat.zero_le _) (by omega)
  rwa [List.nil_append, List.drop_zero, List.take_nil] at h

/-! ## lzjb -/

/-- One item on the bytes that are left: the bytes after it and the output with it, unless it is malformed. -/
def lzjbNext (isMatch : Bool) (out : Bytes) : Bytes → Option (Bytes × Bytes)
  | [] => none
  | b0 :: rest =>
    if isMatch then
      match rest with
      | [] => none
      | b1 :: rest =>
        let offset := ((b0.toNat <<< 8) ||| b1.toNat) &&& 0x3ff
        if 1 ≤ offset ∧ offset ≤ out.length then some (rest, Window.repeatBack offset ((b0.toNat >>> 2) + 3) out) else none
    else some (rest, out ++ [b0])

/-- What an item takes and adds. -/
theorem lzjbNext_eq_some {isMatch : Bool} {out src rest out' : Bytes} (h : lzjbNext isMatch out src = some (rest, out')) :
    rest.length < src.length ∧ out <+: out' := by
  cases src with
  | nil => exact absurd h (by simp [lzjbNext])
  | cons b0 src =>
    cases isMatch with
    | false =>
      simp only [lzjbNext, Bool.false_eq_true, if_false, Option.some.injEq, Prod.mk.injEq] at h
      obtain ⟨rfl, rfl⟩ := h
      exact ⟨Nat.lt_succ_self _, List.prefix_append _ _⟩
    | true =>
      cases src with
      | nil => exact absurd h (by simp [lzjbNext])
      | cons b1 src =>
        simp only [lzjbNext, if_true] at h
        split at h
        · simp only [Option.some.injEq, Prod.mk.injEq] at h
          obtain ⟨rfl, rfl⟩ := h
          refine ⟨?_, Window.prefix_repeatBack _ _ _⟩
          simp only [List.length_cons]
          omega
        · exact absurd h (by simp)

/-- All an lzjb stream produces behind `out`, with `j` items of the copymap gone. -/
def lzjbOutput (copymap : UInt8) (j : Nat) (out src : Bytes) : Bytes :=
  if j = 8 then
    match src with
    | [] => out
    | map :: rest => lzjbOutput map 0 out rest
  else
    match h : lzjbNext (copymap.toNat.testBit j) out src with
    | none => out
    | some (rest, out') => lzjbOutput copymap (j + 1) out' rest
termination_by src.length
decreasing_by
  · exact Nat.lt_succ_self _
  · exact (lzjbNext_eq_some h).1

theorem lzjbOutput_nil (copymap : UInt8) (out : Bytes) : lzjbOutput copymap 8 out [] = out := by
  rw [lzjbOutput.eq_def, if_pos rfl]

/-- Behind the eighth item the next copymap is loaded. -/
theorem lzjbOutput_load (copymap map : UInt8) (out rest : Bytes) :
    lzjbOutput copymap 8 out (map :: rest) = lzjbOutput map 0 out rest := by
  rw [lzjbOutput.eq_def, if_pos rfl]

/-- A stream ends at a malformed item. -/
theorem lzjbOutput_of_none {copymap : UInt8} {j : Nat} {out src : Bytes} (hj : j ≠ 8)
    (h : lzjbNext (copymap.toNat.testBit j) out src = none) : lzjbOutput copymap j out src = out := by
  rw [lzjbOutput.eq_def, if_neg hj]
  split
  · rfl
  · rename_i hsome
    exact absurd (h.symm.trans hsome) (by simp)

/-- A stream goes on behind a well-formed item. -/
theorem lzjbOutput_of_some {copymap : UInt8} {j : Nat} {out src rest out' : Bytes} (hj : j ≠ 8)
    (h : lzjbNext (copymap.toNat.testBit j) out src = some (rest, out')) :
    lzjbOutput copymap j out src = lzjbOutput copymap (j + 1) out' rest := by
  rw [lzjbOutput.eq_def, if_neg hj]
  split
  · rename_i hnone
    exact absurd (h.symm.trans hnone) (by simp)
  · rename_i hsome
    have heq := h.symm.trans hsome
    simp only [Option.some.injEq, Prod.mk.injEq] at heq
    rw [heq.1, heq.2]

/-- A stream keeps what was produced before it. -/
theorem prefix_lzjbOutput (copymap : UInt8) (j : Nat) (out src : Bytes) : out <+: lzjbOutput copymap j out src := by
  induction copymap, j, out, src using lzjbOutput.induct with
  | case1 copymap out =>
    rw [lzjbOutput_nil]
  | case2 copymap out map rest ih =>
    rw [lzjbOutput_load]
    exact ih
  | case3 copymap j out src hj hnext =>
    rw [lzjbOutput_of_none hj hnext]
  | case4 copymap j out src hj rest out' hnext ih =>
    rw [lzjbOutput_of_some hj hnext]
    exact (lzjbNext_eq_some hnext).2.trans ih

/-- A byte-wise copy yields the repeated bytes, stopped at the length. -/
theorem lzjbCopy_eq {lsize mlen dist : Nat} {out : Bytes} (hpos : 1 ≤ dist) (hle : dist ≤ out.length) (hlen : out.length ≤ lsize) :
    lzjbCopy lsize mlen (out.length - dist) out = .ok ((Window.repeatBack dist mlen out).take lsize) := by
  induction mlen generalizing out with
  | zero =>
    rw [lzjbCopy, Window.repeatBack, List.take_of_length_le hlen]
  | succ mlen ih =>
    rw [lzjbCopy]
    by_cases hfull : lsize ≤ out.length
    · rw [if_pos hfull, Window.take_of_prefix (Window.prefix_repeatBack _ _ _) hfull, List.take_of_length_le hlen]
    · have hget : out[out.length - dist]? = some (out.getD (out.length - dist) default) := by
        rw [List.getD_eq_getElem?_getD, List.getElem?_eq_getElem (by omega), Option.getD_some]
      have hnext : out.length - dist + 1 = (out ++ [out.getD (out.length - dist) default]).length - dist := by
        rw [List.length_append, List.length_singleton]
        omega
      rw [if_neg hfull, hget, Window.repeatBack]
      dsimp only
      rw [hnext]
      refine ih ?_ ?_ <;>
      · rw [List.length_append, List.length_singleton]
        omega

/-- A match at distance zero has nothing to copy. -/
theorem lzjbCopy_zero {lsize mlen : Nat} {out : Bytes} (hlen : out.length < lsize) :
    lzjbCopy lsize (mlen + 1) (out.length - 0) out = .error (.decompress "lzjb" "back-reference reads past written output") := by
  rw [lzjbCopy, if_neg (by omega), Nat.sub_zero, List.getElem?_eq_none (Nat.le_refl _)]

/-- The bytes from an index on begin with the byte there. -/
theorem drop_of_getElem? {src : Bytes} {si : Nat} {b : UInt8} (h : src[si]? = some b) :
    src.drop si = b :: src.drop (si + 1) ∧ si < src.length := by
  obtain ⟨hlt, hget⟩ := List.getElem?_eq_some_iff.1 h
  exact ⟨by rw [List.drop_eq_getElem_cons hlt, hget], hlt⟩

/-- An item of the loop against the next item of the stream: it fails where that is malformed, and else gives its output, stopped at the
length. -/
theorem lzjbItem_eq {src : Bytes} {lsize si : Nat} (isMatch : Bool) {out : Bytes} (hlen : out.length < lsize) :
    (lzjbNext isMatch out (src.drop si) = none ∧
      ∃ reason, lzjbItem src lsize isMatch si out = .error (.decompress "lzjb" reason)) ∨
    ∃ si' out', lzjbNext isMatch out (src.drop si) = some (src.drop si', out') ∧
      lzjbItem src lsize isMatch si out = .ok (si', out'.take lsize) ∧ si < si' ∧ si' ≤ src.length := by
  cases hb0 : src[si]? with
  | none =>
    left
    rw [List.drop_eq_nil_of_le (List.getElem?_eq_none_iff.1 hb0)]
    refine ⟨rfl, ?_⟩
    cases isMatch with
    | false => exact ⟨"truncated literal byte", by simp only [lzjbItem, hb0, Bool.false_eq_true, if_false]⟩
    | true => exact ⟨"truncated match control byte 0", by simp only [lzjbItem, hb0, if_true]⟩
  | some b0 =>
    obtain ⟨hdrop, hlt⟩ := drop_of_getElem? hb0
    rw [hdrop]
    cases isMatch with
    | false =>
      right
      refine ⟨si + 1, out ++ [b0], by simp [lzjbNext], ?_, Nat.lt_succ_self _, hlt⟩
      rw [List.take_of_length_le (by rw [List.length_append, List.length_singleton]; omega)]
      simp only [lzjbItem, hb0, Bool.false_eq_true, if_false]
    | true =>
      cases hb1 : src[si + 1]? with
      | none =>
        left
        rw [List.drop_eq_nil_of_le (List.getElem?_eq_none_iff.1 hb1)]
        exact ⟨rfl, "truncated match control byte 1", by simp only [lzjbItem, hb0, hb1, if_true]⟩
      | some b1 =>
        obtain ⟨hdrop1, hlt1⟩ := drop_of_getElem? hb1
        rw [hdrop1]
        simp only [lzjbItem, lzjbNext, hb0, hb1, if_true]
        generalize hdist : ((b0.toNat <<< 8) ||| b1.toNat) &&& 0x3ff = dist
        by_cases hbefore : out.length < dist
        · left
          rw [if_neg (by omega), if_pos hbefore]
          exact ⟨rfl, _, rfl⟩
        · rw [if_neg hbefore]
          by_cases hzero : dist = 0
          · left
            rw [if_neg (by omega), hzero, lzjbCopy_zero hlen]
            exact ⟨rfl, _, rfl⟩
          · right
            rw [if_pos (by omega), lzjbCopy_eq (by omega) (by omega) (Nat.le_of_lt hlen)]
            exact ⟨si + 2, _, rfl, rfl, by omega, hlt1⟩

/-- The mask of an item tests its bit of the copymap. -/
theorem and_mask_ne_zero (map : UInt8) (j : Nat) : (map.toNat &&& 1 <<< j != 0) = map.toNat.testBit j := by
  rw [Nat.shiftLeft_eq, Nat.one_mul, Nat.and_two_pow]
  cases map.toNat.testBit j <;> simp

/-- An item of the loop against the stream: where it fails the stream has ended, and else the stream goes on behind it. -/
theorem lzjbItem_output (src : Bytes) {lsize : Nat} (si : Nat) (map : UInt8) {j : Nat} {out : Bytes} (hj : j < 8) (hlen : out.length < lsize) :
    (lzjbOutput map j out (src.drop si) = out ∧
      ∃ reason, lzjbItem src lsize (map.toNat &&& 1 <<< j != 0) si out = .error (.decompress "lzjb" reason)) ∨
    ∃ si' out', lzjbOutput map j out (src.drop si) = lzjbOutput map (j + 1) out' (src.drop si') ∧
      lzjbItem src lsize (map.toNat &&& 1 <<< j != 0) si out = .ok (si', out'.take lsize) ∧ si < si' ∧ si' ≤ src.length := by
  rw [and_mask_ne_zero]
  rcases lzjbItem_eq (map.toNat.testBit j) hlen with ⟨hnext, herr⟩ | ⟨si', out', hnext, hok, hlt, hle⟩
  · exact Or.inl ⟨lzjbOutput_of_none (by omega) hnext, herr⟩
  · exact Or.inr ⟨si', out', lzjbOutput_of_some (by omega) hnext, hok, hlt, hle⟩

theorem reaches_lzjbLoop {src : Bytes} {lsize fuel si : Nat} {map : UInt8} {j : Nat} {out : Bytes} (hsi : si ≤ src.length)
    (hfuel : src.length < si + fuel) (hj : j < 8) :
    Reaches "lzjb" lsize (lzjbOutput map (j + 1) out (src.drop si)) (lzjbLoop src lsize fuel si map (1 <<< j) (out.take lsize)) := by
  induction fuel generalizing si map j out with
  | zero => omega
  | succ fuel ih =>
    rw [lzjbLoop, List.length_take]
    by_cases hfull : lsize ≤ out.length
    · rw [if_pos (by omega)]
      exact Reaches.of_full (prefix_lzjbOutput _ _ _ _) hfull
    · rw [if_neg (by omega), List.take_of_length_le (by omega), ← Nat.shiftLeft_add]
      by_cases hload : j = 7
      · subst hload
        rw [if_pos rfl]
        cases hmap : src[si]? with
        | none =>
          rw [List.drop_eq_nil_of_le (List.getElem?_eq_none_iff.1 hmap), lzjbOutput_nil]
          exact Reaches.of_error (by omega)
        | some map' =>
          obtain ⟨hdrop, -⟩ := drop_of_getElem? hmap
          rw [hdrop, lzjbOutput_load]
          -- the first item behind a copymap is in the same turn
          rcases lzjbItem_output src (si + 1) map' (Nat.zero_lt_succ 7) (Nat.lt_of_not_le hfull)
            with ⟨hend, reason, herr⟩ | ⟨si', out', hnext, hok, hlt, hle⟩
          · rw [hend]
            simp only [Nat.shiftLeft_zero] at herr
            simp only [herr]
            exact Reaches.of_error (by omega)
          · rw [hnext]
            simp only [Nat.shiftLeft_zero] at hok
            simp only [hok]
            exact ih hle (by omega) (Nat.zero_lt_succ 7)
      · have hmask : ¬(1 <<< (j + 1) = 1 <<< 8) := by
          rw [Nat.shiftLeft_eq, Nat.shiftLeft_eq, Nat.one_mul, Nat.one_mul]
          intro heq
          exact hload (by simpa using Nat.pow_right_injective (Nat.le_refl 2) heq)
        rw [if_neg hmask]
        rcases lzjbItem_output src si map (show j + 1 < 8 by omega) (Nat.lt_of_not_le hfull)
          with ⟨hend, reason, herr⟩ | ⟨si', out', hnext, hok, hlt, hle⟩
        · rw [hend]
          simp only [herr]
          exact Reaches.of_error (by omega)
        · rw [hnext]
          simp only [hok]
          exact ih hle (by omega) (by omega)

/-- All an lzjb stream produces: it begins with a copymap. -/
def lzjbStream (src : Bytes) : Bytes := lzjbOutput 0 8 [] src

/-- LZJB yields the first `lsize` bytes of its stream, or fails. -/
theorem reaches_decompressLzjb (src : Bytes) (lsize : Nat) : Reaches "lzjb" lsize (lzjbStream src) (decompressLzjb src lsize) := by
  have h : Reaches "lzjb" lsize (lzjbOutput 0 8 [] (src.drop 0))
      (lzjbLoop src lsize (src.length + 1) 0 0 (1 <<< 7) (([] : Bytes).take lsize)) :=
    reaches_lzjbLoop (Nat.zero_le _) (by omega) (Nat.lt_succ_self 7)
  rwa [List.drop_zero, List.take_nil] at h

end ZfsForensic
