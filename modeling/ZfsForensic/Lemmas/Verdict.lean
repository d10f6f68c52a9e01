import ZfsForensic.Audit

/-!
# What a checksum verdict says

`firstCopy` is the first copy of a block pointer that lies in the image. On a decoded pointer the verdict is a mismatch exactly
when that copy is not all zero and its checksum fails; an inline or a never written block has no copy, and no decoded size passes
the cap.
-/

namespace ZfsForensic

open Octets Checked

/-- The on-disk bytes of one copy, and where they begin, when they lie in the image. -/
def copyAt (image : Bytes) (bp : Blkptr) (dva : Dva) : Option (Nat × Bytes) :=
  if dva.isEmpty then none
  else
    (slice? image dva.physicalByteOffset.toNat (satAdd dva.physicalByteOffset.toNat bp.psizeBytes)).map
      (fun raw => (dva.physicalByteOffset.toNat, raw))

/-- The first copy of a pointer that lies in the image. -/
def firstCopy (image : Bytes) (bp : Blkptr) : Option (Nat × Bytes) := bp.dvas.toList.findSome? (copyAt image bp)

/-- Whether the bytes of a copy fail the checksum of their pointer. -/
def Blkptr.Fails (Γ : Ctx) (bp : Blkptr) (raw : Bytes) : Prop :=
  verify Γ (ChecksumType.fromRaw bp.checksum) bp.byteorder raw bp.checksumWords = some false

/-- A pointer whose first copy in the image is not all zero and fails its checksum. -/
def Tampered (Γ : Ctx) (image : Bytes) (bp : Blkptr) : Prop :=
  ∃ phys raw, firstCopy image bp = some (phys, raw) ∧ (∃ b ∈ raw, b ≠ 0) ∧ bp.Fails Γ raw

/-! ## Copies -/

theorem copyAt_eq_some_iff {image : Bytes} {bp : Blkptr} {dva : Dva} {phys : Nat} {raw : Bytes} :
    copyAt image bp dva = some (phys, raw) ↔ dva.isEmpty = false ∧ dva.physicalByteOffset.toNat = phys ∧
      slice? image phys (satAdd phys bp.psizeBytes) = some raw := by
  unfold copyAt
  by_cases h : dva.isEmpty = true
  · rw [if_pos h, h]
    simp
  · rw [if_neg h, Option.map_eq_some_iff]
    rw [Bool.not_eq_true] at h
    constructor
    · rintro ⟨raw', hslice, heq⟩
      simp only [Prod.mk.injEq] at heq
      obtain ⟨rfl, rfl⟩ := heq
      exact ⟨h, rfl, hslice⟩
    · rintro ⟨-, rfl, hslice⟩
      exact ⟨raw, hslice, rfl⟩

/-- A copy of an image is one of every image of the same length, at the same place. -/
theorem copyAt_resize {image image' : Bytes} (hlen : image'.length = image.length) (bp : Blkptr) (dva : Dva) :
    (copyAt image bp dva = none → copyAt image' bp dva = none) ∧
      ∀ phys raw, copyAt image bp dva = some (phys, raw) → ∃ raw', copyAt image' bp dva = some (phys, raw') := by
  unfold copyAt slice?
  rw [hlen]
  split
  · exact ⟨fun _ => rfl, fun _ _ h => absurd h (by simp)⟩
  · split
    · refine ⟨fun h => absurd h (by simp), fun phys raw h => ?_⟩
      simp only [Option.map_some, Option.some.injEq, Prod.mk.injEq] at h
      exact ⟨_, by rw [Option.map_some, h.1]⟩
    · exact ⟨fun _ => rfl, fun _ _ h => absurd h (by simp)⟩

/-- The first copy begins past the front labels, and holds the bytes of the image there. -/
theorem slice?_of_firstCopy {image : Bytes} {bp : Blkptr} {phys : Nat} {raw : Bytes}
    (h : firstCopy image bp = some (phys, raw)) :
    0x400000 ≤ phys ∧ slice? image phys (satAdd phys bp.psizeBytes) = some raw := by
  obtain ⟨dva, -, hcopy⟩ := List.exists_of_findSome?_eq_some h
  obtain ⟨-, hphys, hslice⟩ := copyAt_eq_some_iff.1 hcopy
  exact ⟨hphys ▸ dva.bootSkew_le_physicalByteOffset, hslice⟩

/-- Two images of one length have their first copy of a pointer at one place. -/
theorem firstCopy_resize {image image' : Bytes} (hlen : image'.length = image.length) {bp : Blkptr} {phys : Nat}
    {raw : Bytes} (h : firstCopy image bp = some (phys, raw)) : ∃ raw', firstCopy image' bp = some (phys, raw') := by
  unfold firstCopy at h ⊢
  generalize bp.dvas.toList = dvas at h ⊢
  induction dvas with
  | nil => exact absurd h (by rw [List.findSome?_nil]; simp)
  | cons dva dvas ih =>
    obtain ⟨hnone, hsome⟩ := copyAt_resize hlen bp dva
    rw [List.findSome?_cons] at h ⊢
    cases hcopy : copyAt image bp dva with
    | none =>
      rw [hcopy] at h
      rw [hnone hcopy]
      exact ih h
    | some c =>
      rw [hcopy, Option.some.injEq] at h
      obtain ⟨raw', hraw'⟩ := hsome phys raw (h ▸ hcopy)
      rw [hraw']
      exact ⟨raw', rfl⟩

theorem firstCopy_eq_none_of_isEmpty (image : Bytes) {bp : Blkptr} (h : ∀ dva ∈ bp.dvas.toList, dva.isEmpty = true) :
    firstCopy image bp = none := by
  rw [firstCopy, List.findSome?_eq_none_iff]
  intro dva hdva
  rw [copyAt, if_pos (h dva hdva)]

/-! ## Verdicts -/

/-- The loop over the copies judges the first that lies in the image. -/
theorem verdictDvas_eq (Γ : Ctx) (image : Bytes) (bp : Blkptr) (dvas : List Dva) :
    verdictDvas Γ (slice? image) bp dvas =
      match dvas.findSome? (copyAt image bp) with
      | none => .unreadable
      | some (_, raw) => verdictRaw Γ bp raw := by
  induction dvas with
  | nil => rfl
  | cons dva dvas ih =>
    rw [verdictDvas, List.findSome?_cons, copyAt]
    by_cases hempty : dva.isEmpty = true
    · rw [if_pos hempty, if_pos hempty]
      exact ih
    · rw [if_neg hempty, if_neg hempty]
      dsimp only
      cases slice? image dva.physicalByteOffset.toNat (satAdd dva.physicalByteOffset.toNat bp.psizeBytes) with
      | none => exact ih
      | some raw => rfl

/-- The bytes of a copy are a mismatch when they are not all zero and fail. -/
theorem verdictRaw_eq_mismatch_iff (Γ : Ctx) (bp : Blkptr) (raw : Bytes) :
    verdictRaw Γ bp raw = .mismatch ↔ (∃ b ∈ raw, b ≠ 0) ∧ bp.Fails Γ raw := by
  unfold verdictRaw Blkptr.Fails
  by_cases hzero : raw.all (fun b => b == 0) = true
  · rw [if_pos hzero]
    simp only [reduceCtorEq, false_iff]
    rintro ⟨⟨b, hb, hne⟩, -⟩
    exact hne (by simpa using List.all_eq_true.1 hzero b hb)
  · rw [if_neg hzero]
    have hsome : ∃ b ∈ raw, b ≠ 0 := by simpa using hzero
    constructor
    · intro h
      refine ⟨hsome, ?_⟩
      split at h
      · exact absurd h (by simp)
      · assumption
      · exact absurd h (by simp)
    · rintro ⟨-, hfails⟩
      rw [hfails]

/-- A decoded size is within the cap. -/
theorem Blkptr.parse_lsizeBytes_le (bytes : Bytes) (e : Endian) (h : (Blkptr.parse bytes e).embedded = false) :
    0 < (Blkptr.parse bytes e).lsizeBytes ∧ (Blkptr.parse bytes e).lsizeBytes ≤ maxBlockSize := by
  have hlt := (Blkptr.parse_sizes_lt bytes e).1
  rw [Blkptr.lsizeBytes_of_not_embedded h, maxBlockSize]
  omega

/-- A decoded pointer to an inline or a never written block has no copy. -/
theorem Blkptr.parse_isEmpty (bytes : Bytes) (e : Endian)
    (h : ((Blkptr.parse bytes e).embedded || (Blkptr.parse bytes e).isHole) = true) :
    ∀ dva ∈ (Blkptr.parse bytes e).dvas.toList, dva.isEmpty = true := by
  rw [Bool.or_eq_true] at h
  rcases h with hemb | hhole
  · have hdvas : (Blkptr.parse bytes e).dvas = #v[default, default, default] := by
      simp only [Blkptr.parse] at hemb ⊢
      rw [if_pos hemb]
    rw [hdvas]
    decide
  · rw [Blkptr.isHole, Bool.and_eq_true] at hhole
    exact List.all_eq_true.1 hhole.2

/-- A function the verdict skips is verified by none. -/
theorem verify_of_isUnchecked (Γ : Ctx) {kind : ChecksumType} (h : isUnchecked kind = true) (e : Endian) (raw : Bytes)
    (words : Vector UInt64 4) : verify Γ kind e raw words = none := by
  cases kind <;> first | rfl | exact absurd h (by decide)

/-- The verdict on a decoded pointer is a mismatch exactly when its first copy in the image is not all zero and fails. -/
theorem verdict_parse_eq_mismatch_iff (Γ : Ctx) (image : Bytes) (bytes : Bytes) (e : Endian) :
    blkptrChecksumVerdict Γ image (Blkptr.parse bytes e) = .mismatch ↔ Tampered Γ image (Blkptr.parse bytes e) := by
  have hempty := Blkptr.parse_isEmpty bytes e
  have hsize := Blkptr.parse_lsizeBytes_le bytes e
  generalize Blkptr.parse bytes e = bp at hempty hsize ⊢
  unfold Tampered Blkptr.Fails blkptrChecksumVerdict
  by_cases hinline : (bp.embedded || bp.isHole) = true
  · rw [if_pos hinline, firstCopy_eq_none_of_isEmpty image (hempty hinline)]
    simp
  · rw [if_neg hinline]
    rw [Bool.not_eq_true, Bool.or_eq_false_iff] at hinline
    obtain ⟨hpos, hle⟩ := hsize hinline.1
    dsimp only
    rw [if_neg (by omega)]
    by_cases hskip : isUnchecked (ChecksumType.fromRaw bp.checksum) = true
    · simp [hskip, verify_of_isUnchecked Γ hskip]
    · rw [if_neg hskip, verdictDvas_eq, ← firstCopy]
      cases firstCopy image bp with
      | none => simp
      | some c =>
        obtain ⟨phys, raw⟩ := c
        have hraw := verdictRaw_eq_mismatch_iff Γ bp raw
        unfold Blkptr.Fails at hraw
        rw [hraw]
        constructor
        · intro h
          exact ⟨phys, raw, rfl, h⟩
        · rintro ⟨_, _, hcopy, h⟩
          simp only [Option.some.injEq, Prod.mk.injEq] at hcopy
          obtain ⟨rfl, rfl⟩ := hcopy
          exact h

end ZfsForensic
