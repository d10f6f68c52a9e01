import ZfsForensic.Lemmas.Streams

/-!
# Decompression is exact or it fails

The crate's own codecs stop at the declared length or fail. The codecs it frames hand the block to a third-party decoder, and what that
decodes is taken for the block: lz4 returns it as it is, gzip and zstd fill it up with zeros.
-/

namespace ZfsForensic

open Octets Checked

/-- What the third-party decoder of a codec decodes of a block, when its framing is whole and the decoder accepts it. -/
def thirdPartyOutput (Γ : Ctx) (kind : CompressType) (src : Bytes) (lsize : Nat) : Option Bytes :=
  match kind with
  | .lz4 =>
    if src.length < 4 then none else (slice? src 4 (satAdd 4 (beU32 src 0).toNat)).bind fun block => Γ.lz4Decompress block lsize
  | .gzip _ | .on => Γ.zlibRead src lsize
  | .zstd => (slice? src 8 src.length).bind fun frame => if Γ.zstdNew frame then Γ.zstdRead frame lsize else none
  | _ => none

theorem thirdPartyOutput_lz4 (Γ : Ctx) (src : Bytes) (lsize : Nat) :
    thirdPartyOutput Γ .lz4 src lsize =
      if src.length < 4 then none
      else (slice? src 4 (satAdd 4 (beU32 src 0).toNat)).bind fun block => Γ.lz4Decompress block lsize := rfl

theorem thirdPartyOutput_zstd (Γ : Ctx) (src : Bytes) (lsize : Nat) :
    thirdPartyOutput Γ .zstd src lsize =
      (slice? src 8 src.length).bind fun frame => if Γ.zstdNew frame then Γ.zstdRead frame lsize else none := rfl

/-- What the stream of a compressed block produces, for the crate's own codecs with no length to stop at. -/
def streamOutput (Γ : Ctx) (kind : CompressType) (src : Bytes) (lsize : Nat) : Option Bytes :=
  match kind with
  | .lzjb => some (lzjbStream src)
  | .zle => some (zleOutput src)
  | kind => thirdPartyOutput Γ kind src lsize

/-- A decompressed block has its declared length, and a stream that produces less fails. -/
structure ExactOrFails (Γ : Ctx) (kind : CompressType) (src : Bytes) (lsize : Nat) : Prop where
  exact_length : ∀ out, decompress Γ kind src lsize = .ok out → out.length = lsize
  short_fails : ∀ out, streamOutput Γ kind src lsize = some out → out.length < lsize →
    ∃ codec reason, decompress Γ kind src lsize = .error (.decompress codec reason)

/-- What the third-party decoder decodes is the block, for lz4 as it is and for the others at the declared length. -/
theorem decompress_of_thirdPartyOutput {Γ : Ctx} {kind : CompressType} {src : Bytes} {lsize : Nat} {out : Bytes}
    (h : thirdPartyOutput Γ kind src lsize = some out) :
    decompress Γ kind src lsize = .ok (if kind = .lz4 then out else resize out lsize) := by
  have hgzip : Γ.zlibRead src lsize = some out → decompressGzip Γ src lsize = .ok (resize out lsize) := by
    intro hread
    simp only [decompressGzip, hread]
  cases kind with
  | lz4 =>
    rw [thirdPartyOutput_lz4] at h
    by_cases hshort : src.length < 4
    · rw [if_pos hshort] at h
      exact absurd h (by simp)
    · rw [if_neg hshort] at h
      obtain ⟨block, hblock, hout⟩ := Option.bind_eq_some_iff.1 h
      simp only [decompress, decompressLz4, if_neg hshort, hblock, hout, if_true]
  | on => exact hgzip h
  | gzip v => exact hgzip h
  | zstd =>
    rw [thirdPartyOutput_zstd] at h
    obtain ⟨frame, hframe, hout⟩ := Option.bind_eq_some_iff.1 h
    by_cases hnew : Γ.zstdNew frame
    · rw [if_pos hnew] at hout
      simp [decompress, decompressZstd, hframe, hnew, hout]
    · rw [if_neg hnew] at hout
      exact absurd hout (by simp)
  | inherit => cases h
  | off => cases h
  | lzjb => cases h
  | empty => cases h
  | zle => cases h
  | other v => cases h

/-- An lz4 block is what the third-party decoder decodes. -/
theorem thirdPartyOutput_of_decompress_lz4 {Γ : Ctx} {src : Bytes} {lsize : Nat} {out : Bytes}
    (h : decompress Γ .lz4 src lsize = .ok out) : thirdPartyOutput Γ .lz4 src lsize = some out := by
  simp only [decompress, decompressLz4] at h
  rw [thirdPartyOutput_lz4]
  by_cases hshort : src.length < 4
  · rw [if_pos hshort] at h
    exact absurd h (by simp)
  · rw [if_neg hshort] at h ⊢
    cases hblock : slice? src 4 (satAdd 4 (beU32 src 0).toNat) with
    | none =>
      simp only [hblock] at h
      exact absurd h (by simp)
    | some block =>
      simp only [hblock] at h
      cases hout : Γ.lz4Decompress block lsize with
      | none =>
        simp only [hout] at h
        exact absurd h (by simp)
      | some out' =>
        simp only [hout, Except.ok.injEq] at h
        rw [h] at hout
        exact hout

/-- A codec is exact or fails exactly where its third-party decoder, if it has one, decodes the whole length. -/
theorem exactOrFails_iff {Γ : Ctx} (hΓ : Γ.Bounded) (kind : CompressType) (src : Bytes) (lsize : Nat) :
    ExactOrFails Γ kind src lsize ↔ ∀ out, thirdPartyOutput Γ kind src lsize = some out → lsize ≤ out.length := by
  constructor
  · intro h out hout
    by_contra hlt
    have hok := decompress_of_thirdPartyOutput hout
    have hstream : streamOutput Γ kind src lsize = some out := by
      cases kind <;> first | exact hout | cases hout
    obtain ⟨codec, reason, herr⟩ := h.short_fails out hstream (Nat.lt_of_not_le hlt)
    exact absurd (hok.symm.trans herr) (by simp)
  · intro h
    refine ⟨fun out hok => ?_, fun out hstream hlt => ?_⟩
    · by_cases hkind : kind = .lz4
      · subst hkind
        have hout := thirdPartyOutput_of_decompress_lz4 hok
        exact Nat.le_antisymm (length_decompress_le hΓ hok) (h out hout)
      · exact length_decompress hok hkind
    · by_cases hlzjb : kind = .lzjb
      · subst hlzjb
        rw [streamOutput, Option.some.injEq] at hstream
        obtain ⟨reason, herr⟩ := (reaches_decompressLzjb src lsize).err (by rw [hstream]; exact hlt)
        exact ⟨"lzjb", reason, herr⟩
      · by_cases hzle : kind = .zle
        · subst hzle
          rw [streamOutput, Option.some.injEq] at hstream
          obtain ⟨reason, herr⟩ := (reaches_decompressZle src lsize).err (by rw [hstream]; exact hlt)
          exact ⟨"zle", reason, herr⟩
        · have hout : thirdPartyOutput Γ kind src lsize = some out := by
            cases kind <;> first | exact hstream | exact absurd rfl hlzjb | exact absurd rfl hzle
          exact absurd (h out hout) (by omega)

/-- Decoders that know two streams: an lz4 block of one literal, and a zlib stream of nothing. -/
def shortCtx : Ctx :=
  { lz4Decompress := fun block n => if block = [0x10, 0x41] ∧ 1 ≤ n then some [0x41] else none
    zlibRead := fun src _ => if src = [0x78, 0x9c, 0x03, 0, 0, 0, 0, 0x01] then some [] else none
    zstdNew := fun _ => false
    zstdRead := fun _ _ => none
    sha256Digest := fun _ => Vector.replicate 32 0 }

theorem shortCtx_bounded : shortCtx.Bounded := by
  intro block n out h
  simp only [shortCtx] at h
  split at h
  · rename_i hblock
    rw [Option.some.injEq] at h
    rw [← h]
    exact hblock.2
  · exact absurd h (by simp)

/-- An lz4 block one byte long passes for one of eight bytes, and an empty zlib stream for eight zeros. -/
theorem short_streams_pass :
    decompress shortCtx .lz4 [0, 0, 0, 2, 0x10, 0x41] 8 = .ok [0x41] ∧
      ¬ ExactOrFails shortCtx .lz4 [0, 0, 0, 2, 0x10, 0x41] 8 ∧
      decompress shortCtx (.gzip 6) [0x78, 0x9c, 0x03, 0, 0, 0, 0, 0x01] 8 = .ok (zeros 8) ∧
      ¬ ExactOrFails shortCtx (.gzip 6) [0x78, 0x9c, 0x03, 0, 0, 0, 0, 0x01] 8 := by
  have hlz4 : decompress shortCtx .lz4 [0, 0, 0, 2, 0x10, 0x41] 8 = .ok [0x41] := by decide
  have hgzip : decompress shortCtx (.gzip 6) [0x78, 0x9c, 0x03, 0, 0, 0, 0, 0x01] 8 = .ok (zeros 8) := by decide
  refine ⟨hlz4, fun h => ?_, hgzip, fun h => ?_⟩
  · exact absurd (h.exact_length _ hlz4) (by decide)
  · obtain ⟨codec, reason, herr⟩ := h.short_fails [] (by decide) (by decide)
    exact absurd (hgzip.symm.trans herr) (by simp)

/-- The same lz4 block is exact for a block of one byte, which is what it decodes to. -/
theorem exactOrFails_oneByte :
    decompress shortCtx .lz4 [0, 0, 0, 2, 0x10, 0x41] 1 = .ok [0x41] ∧ ExactOrFails shortCtx .lz4 [0, 0, 0, 2, 0x10, 0x41] 1 := by
  have hall : thirdPartyOutput shortCtx .lz4 [0, 0, 0, 2, 0x10, 0x41] 1 = some [0x41] := by decide
  refine ⟨by decide, (exactOrFails_iff shortCtx_bounded .lz4 [0, 0, 0, 2, 0x10, 0x41] 1).2 fun out hout => ?_⟩
  rw [hall, Option.some.injEq] at hout
  rw [← hout, List.length_singleton]

end ZfsForensic
