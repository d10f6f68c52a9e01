import ZfsForensic.Lemmas.Streams
import ZfsForensic.Lemmas.Image

/-!
# zle: the decoder against the level-64 encoder

The encoder of zle at level 64 writes a control byte below 64 before a literal run and one from 64 on for a run of zeros. The decoder
divides the control bytes at 128. A literal run is below both; a run of zeros is either taken for a literal run, or one zero short.
-/

namespace ZfsForensic

open Octets

/-- A run of the level-64 encoder. -/
inductive ZleRun where
  | literal (bytes : Bytes) (length_le : 1 ≤ bytes.length ∧ bytes.length ≤ 64)
  | zero (k : Nat) (le : 1 ≤ k ∧ k ≤ 192)

namespace ZleRun

/-- The bytes of a run: its control byte, and the bytes of a literal run behind it. -/
def encode : ZleRun → Bytes
  | literal bytes _ => UInt8.ofNat (bytes.length - 1) :: bytes
  | zero k _ => [UInt8.ofNat (k - 1 + 64)]

/-- The bytes a run stands for. -/
def expand : ZleRun → Bytes
  | literal bytes _ => bytes
  | zero k _ => zeros k

def IsLiteral : ZleRun → Prop
  | literal _ _ => True
  | zero _ _ => False

/-- The stream of a sequence of runs. -/
def serialise (runs : List ZleRun) : Bytes := runs.flatMap encode

/-- What a sequence of runs stands for. -/
def expansion (runs : List ZleRun) : Bytes := runs.flatMap expand

/-- Decoding undoes the encoding of the runs, with the padding `t` behind it. -/
def Undone (Γ : Ctx) (runs : List ZleRun) (t : Bytes) : Prop :=
  decompress Γ .zle (serialise runs ++ t) (expansion runs).length = .ok (expansion runs)

/-- A literal run is read as it was written. -/
theorem zleOutput_literal {bytes : Bytes} (h : 1 ≤ bytes.length ∧ bytes.length ≤ 64) (rest : Bytes) :
    zleOutput ((literal bytes h).encode ++ rest) = bytes ++ zleOutput rest := by
  have hctrl : (UInt8.ofNat (bytes.length - 1)).toNat = bytes.length - 1 := by
    rw [UInt8.toNat_ofNat', Nat.mod_eq_of_lt (by omega)]
  have hsucc : bytes.length - 1 + 1 = bytes.length := by omega
  rw [encode, List.cons_append, zleOutput, if_pos ((and_high_eq_zero_iff _).2 (by rw [hctrl]; omega)), hctrl, hsucc,
    if_pos (by rw [List.length_append]; omega), List.take_left, List.drop_left]

/-- Literal runs are read as they were written. -/
theorem zleOutput_literals {runs : List ZleRun} (h : ∀ r ∈ runs, r.IsLiteral) (rest : Bytes) :
    zleOutput (serialise runs ++ rest) = expansion runs ++ zleOutput rest := by
  induction runs with
  | nil => rfl
  | cons r runs ih =>
    rw [List.forall_mem_cons] at h
    cases r with
    | literal bytes hlen =>
      have hserialise : serialise (literal bytes hlen :: runs) ++ rest = (literal bytes hlen).encode ++ (serialise runs ++ rest) := by
        rw [serialise, List.flatMap_cons, List.append_assoc]
        rfl
      rw [hserialise, zleOutput_literal, ih h.2, ← List.append_assoc]
      rfl
    | zero k hk => exact absurd h.1 id

/-- The control byte of a run of zeros at the end of a stream produces fewer zeros. -/
theorem length_zleOutput_zero {k : Nat} (h : 1 ≤ k ∧ k ≤ 192) : (zleOutput (zero k h).encode).length < k := by
  have hctrl : (UInt8.ofNat (k - 1 + 64)).toNat = k - 1 + 64 := by
    rw [UInt8.toNat_ofNat', Nat.mod_eq_of_lt (by omega)]
  rw [encode, zleOutput]
  by_cases hlow : UInt8.ofNat (k - 1 + 64) &&& 0x80 = 0
  · rw [if_pos hlow, if_neg (by simp)]
    exact h.1
  · rw [if_neg hlow, zleOutput, List.append_nil, length_zeros]
    rw [and_high_eq_zero_iff, hctrl] at hlow
    have hsub : (UInt8.ofNat (k - 1 + 64) - 0x80).toNat = k - 1 + 64 - 128 := by
      rw [UInt8.toNat_sub_of_le _ _ (by rw [UInt8.le_iff_toNat_le, hctrl]; exact Nat.le_of_not_lt hlow), hctrl]
      rfl
    rw [hsub]
    omega

theorem undone_of_literals (Γ : Ctx) {runs : List ZleRun} (h : ∀ r ∈ runs, r.IsLiteral) (t : Bytes) : Undone Γ runs t := by
  have hreach := reaches_decompressZle (serialise runs ++ t) (expansion runs).length
  rw [zleOutput_literals h] at hreach
  rw [Undone, decompress, hreach.ok (by rw [List.length_append]; omega), List.take_left]

theorem not_undone_of_zero (Γ : Ctx) {runs : List ZleRun} (h : ∀ r ∈ runs, r.IsLiteral) {k : Nat} (hk : 1 ≤ k ∧ k ≤ 192) :
    ¬ Undone Γ (runs ++ [zero k hk]) [] := by
  have hlt := length_zleOutput_zero hk
  have hserialise : serialise (runs ++ [zero k hk]) ++ [] = serialise runs ++ (zero k hk).encode := by
    rw [serialise, List.flatMap_append, List.append_nil, List.flatMap_singleton]
    rfl
  have hexpansion : (expansion (runs ++ [zero k hk])).length = (expansion runs).length + k := by
    rw [expansion, List.flatMap_append, List.length_append, List.flatMap_singleton, expand, length_zeros]
    rfl
  intro hundone
  obtain ⟨reason, herr⟩ := (reaches_decompressZle (serialise runs ++ (zero k hk).encode) ((expansion runs).length + k)).err
    (by rw [zleOutput_literals h, List.length_append]; omega)
  rw [Undone, hserialise, hexpansion, decompress, herr] at hundone
  exact absurd hundone (by simp)

/-- The initial segments of a sequence of runs are all undone, with any padding, exactly where every run is literal. -/
theorem undone_prefixes_iff (Γ : Ctx) (runs : List ZleRun) :
    (∀ p, p <+: runs → ∀ t, Undone Γ p t) ↔ ∀ r ∈ runs, r.IsLiteral := by
  constructor
  · intro h
    induction runs using List.reverseRecOn with
    | nil => exact fun r hr => absurd hr (by simp)
    | append_singleton runs r ih =>
      have hrest := ih fun p hp => h p (hp.trans (List.prefix_append _ _))
      intro s hs
      rcases List.mem_append.1 hs with hs | hs
      · exact hrest s hs
      · rw [List.mem_singleton.1 hs]
        cases r with
        | literal bytes hlen => trivial
        | zero k hk => exact absurd (h _ List.prefix_rfl []) (not_undone_of_zero Γ hrest hk)
  · intro h p hp t
    exact undone_of_literals Γ (fun r hr => h r (hp.subset hr)) t

/-- A zero, then literal runs of one byte, a seven and 63 zeros: the misread literal run happens to give the same bytes. -/
def realigned : List ZleRun :=
  zero 1 (by decide) :: literal [7] (by decide) :: List.replicate 63 (literal [0] (by decide))

-- so the condition cannot be that of the whole sequence alone
example : Undone plainCtx realigned [] := by
  unfold Undone
  decide +kernel

/-- One zero byte is written as the control byte `0x40`, which the decoder takes for a literal run of 65 bytes. -/
theorem one_zero_not_undone :
    serialise [zero 1 (by decide)] = [0x40] ∧ expansion [zero 1 (by decide)] = [0] ∧
      decompress plainCtx .zle [0x40] 1 = .error (.decompress "zle" "literal run exceeds input") ∧
      ¬ Undone plainCtx [zero 1 (by decide)] [] := by
  refine ⟨by decide, by decide, by decide, ?_⟩
  intro h
  exact absurd h (by unfold Undone; decide)

end ZleRun

end ZfsForensic
