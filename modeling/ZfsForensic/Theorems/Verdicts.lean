import ZfsForensic.Theorems.Ditto

/-!
# The auditor and the reader judge a block alike

The auditor's verdict looks at the first copy that lies in the image. Where that is the copy a block read served, and it is not all
zero, the verdict is the one the read reports; where no copy lies in the image, the read fails and the verdict is neither good nor bad.
-/

namespace ZfsForensic

open Octets Checked

/-- The position among the copies of a pointer of the first that lies in the image. -/
def firstCopyIndex (image : Bytes) (bp : Blkptr) : Option Nat :=
  bp.dvas.toList.findIdx? fun dva => (copyAt image bp dva).isSome

/-- The element at the position of the first match is where the search of the list ends. -/
theorem findSome?_of_findIdx? {α β : Type} {f : α → Option β} {before after : List α} {a : α} {b : β} (hfound : f a = some b)
    (hidx : (before ++ a :: after).findIdx? (fun x => (f x).isSome) = some before.length) :
    (before ++ a :: after).findSome? f = some b := by
  obtain ⟨hlt, -, hearlier⟩ := List.findIdx?_eq_some_iff_getElem.1 hidx
  have hbefore : before.findSome? f = none := by
    rw [List.findSome?_eq_none_iff]
    intro x hx
    obtain ⟨j, hj, rfl⟩ := List.mem_iff_getElem.1 hx
    have hnot := hearlier j hj
    rw [List.getElem_append_left hj, Option.isSome_iff_ne_none, not_not] at hnot
    exact hnot
  rw [List.findSome?_append, hbefore, Option.none_or, List.findSome?_cons, hfound]

section Block

variable (Γ : Ctx) (image : Bytes) (bp : Blkptr)

/-- A block read of a written block goes through its copies. -/
theorem readBlock_eq_readDvas (hembedded : bp.embedded = false) (hhole : bp.isHole = false) (hlsize : bp.lsizeBytes ≤ maxBlockSize) :
    readBlock Γ image bp = readDvas Γ (slice? image) image.length bp 0 bp.dvas.toList
      (.truncated "block (no DVA readable)" bp.psizeBytes image.length) := by
  have hpos := Blkptr.lsizeBytes_pos hembedded
  unfold readBlock readBlockWith
  dsimp only
  rw [if_neg (by omega), if_neg (by simp [hembedded]), if_neg (by simp [hhole])]

/-- A read that is served by the first copy in the image reports that copy's checksum. -/
theorem checksumValid_of_first_copy (hembedded : bp.embedded = false) (hhole : bp.isHole = false)
    (hlsize : bp.lsizeBytes ≤ maxBlockSize) {b : Block} (hread : readBlock Γ image bp = .ok b)
    (hserved : firstCopyIndex image bp = some b.dvaUsed.toNat) :
    ∃ phys raw, firstCopy image bp = some (phys, raw) ∧ b.checksumValid = bp.checksumOf Γ raw := by
  rw [readBlock_eq_readDvas Γ image bp hembedded hhole hlsize] at hread
  by_cases hserves : ∃ dva ∈ bp.dvas.toList, copyData Γ image bp dva ≠ none
  · obtain ⟨before, dva, after, phys, raw, data, hdvas, -, hcopy, -, hok⟩ := readDvas_of_serves Γ image bp hserves 0
      (.truncated "block (no DVA readable)" bp.psizeBytes image.length)
    rw [hok, Except.ok.injEq] at hread
    have hthree : before.length + (after.length + 1) = 3 := by
      rw [← List.length_cons (a := dva), ← List.length_append, ← hdvas, Vector.length_toList]
    have hindex : b.dvaUsed.toNat = before.length := by
      rw [← hread, Nat.zero_add, UInt8.toNat_ofNat']
      omega
    rw [hindex, firstCopyIndex, hdvas] at hserved
    refine ⟨phys, raw, ?_, by rw [← hread]⟩
    rw [firstCopy, hdvas]
    exact findSome?_of_findIdx? hcopy hserved
  · have hnone : ∀ dva ∈ bp.dvas.toList, copyData Γ image bp dva = none := by
      intro dva hmem
      by_contra hsome
      exact hserves ⟨dva, hmem, hsome⟩
    obtain ⟨e, he⟩ := readDvas_of_none Γ image bp hnone 0 (.truncated "block (no DVA readable)" bp.psizeBytes image.length)
    rw [he] at hread
    cases hread

/-- The verdict on a written block is that on its first copy in the image, unless the function is one that is skipped. -/
theorem verdict_eq_firstCopy (hembedded : bp.embedded = false) (hhole : bp.isHole = false)
    (hlsize : bp.lsizeBytes ≤ maxBlockSize) :
    blkptrChecksumVerdict Γ image bp =
      if isUnchecked (ChecksumType.fromRaw bp.checksum) then .unverified
      else
        match firstCopy image bp with
        | none => .unreadable
        | some (_, raw) => verdictRaw Γ bp raw := by
  have hpos := Blkptr.lsizeBytes_pos hembedded
  unfold blkptrChecksumVerdict
  dsimp only
  rw [hembedded, hhole, if_neg (by simp), if_neg (by omega), verdictDvas_eq]
  rfl

/-- The verdict a checksum stands for. -/
def verdictOf : Option Bool → ChecksumVerdict
  | some true => .ok
  | some false => .mismatch
  | none => .unverified

/-- The verdict on a copy that is not all zero is what its checksum stands for, also where the function is one that is skipped. -/
theorem verdict_eq_verdictOf (hembedded : bp.embedded = false) (hhole : bp.isHole = false)
    (hlsize : bp.lsizeBytes ≤ maxBlockSize) {phys : Nat} {raw : Bytes} (hfirst : firstCopy image bp = some (phys, raw))
    (hdata : ∃ x ∈ raw, x ≠ 0) : blkptrChecksumVerdict Γ image bp = verdictOf (bp.checksumOf Γ raw) := by
  rw [verdict_eq_firstCopy Γ image bp hembedded hhole hlsize]
  by_cases hskip : isUnchecked (ChecksumType.fromRaw bp.checksum) = true
  · rw [if_pos hskip, Blkptr.checksumOf, verify_of_isUnchecked Γ hskip]
    rfl
  · have hnonzero : ¬ raw.all (fun x => x == 0) = true := by simpa using hdata
    rw [if_neg hskip, hfirst]
    dsimp only
    rw [verdictRaw, if_neg hnonzero, Blkptr.checksumOf]
    rfl

end Block

/-- The auditor and the reader judge a block alike: where a read is served by the first copy in the image and that copy is not all
zero, the verdict is good, bad or open exactly when the read says so; where no copy lies in the image, the read fails and the verdict
is neither good nor bad. -/
theorem verdict_agrees_with_read (Γ : Ctx) (image : Bytes) (bp : Blkptr) (hembedded : bp.embedded = false)
    (hhole : bp.isHole = false) (hlsize : bp.lsizeBytes ≤ maxBlockSize) :
    (∀ b phys raw, readBlock Γ image bp = .ok b → firstCopyIndex image bp = some b.dvaUsed.toNat →
      firstCopy image bp = some (phys, raw) → (∃ x ∈ raw, x ≠ 0) →
      (blkptrChecksumVerdict Γ image bp = .ok ↔ b.checksumValid = some true) ∧
      (blkptrChecksumVerdict Γ image bp = .mismatch ↔ b.checksumValid = some false) ∧
      (blkptrChecksumVerdict Γ image bp = .unverified ↔ b.checksumValid = none)) ∧
    (firstCopy image bp = none → (∃ e, readBlock Γ image bp = .error e) ∧
      blkptrChecksumVerdict Γ image bp ≠ .ok ∧ blkptrChecksumVerdict Γ image bp ≠ .mismatch) := by
  constructor
  · intro b phys raw hread hserved hfirst hdata
    obtain ⟨phys', raw', hfirst', hvalid⟩ := checksumValid_of_first_copy Γ image bp hembedded hhole hlsize hread hserved
    rw [hfirst, Option.some.injEq, Prod.mk.injEq] at hfirst'
    rw [verdict_eq_verdictOf Γ image bp hembedded hhole hlsize hfirst hdata, hfirst'.2, ← hvalid]
    rcases b.checksumValid with _ | _ | _
    · simp [verdictOf]
    · simp [verdictOf]
    · simp [verdictOf]
  · intro hfirst
    have hnone : ∀ dva ∈ bp.dvas.toList, copyData Γ image bp dva = none := by
      intro dva hmem
      rw [copyData, List.findSome?_eq_none_iff.1 hfirst dva hmem, Option.bind_none]
    rw [readBlock_eq_readDvas Γ image bp hembedded hhole hlsize, verdict_eq_firstCopy Γ image bp hembedded hhole hlsize, hfirst]
    refine ⟨readDvas_of_none Γ image bp hnone 0 _, ?_⟩
    split
    · simp
    · simp

/-- Of the damaged image the reader returns a block that fails its checksum, and the auditor says so. -/
theorem verdict_agrees_with_read_damagedImage :
    readBlock plainCtx damagedImage (twoCopies 0 1) = .ok ⟨List.replicate 512 1, some false, 0⟩ ∧
      blkptrChecksumVerdict plainCtx damagedImage (twoCopies 0 1) = .mismatch := by
  have hread : readBlock plainCtx damagedImage (twoCopies 0 1) = .ok ⟨List.replicate 512 1, some false, 0⟩ := by
    rw [readBlock_twoCopies 0 1 List.length_replicate (copyAt_first 0 1), (checksumOf_twoCopies 0 1).1]
  have hdvas : (twoCopies 0 1).dvas.toList = ⟨0, 1, 0, false⟩ :: [⟨0, 1, 1, false⟩, default] := rfl
  have hindex : firstCopyIndex damagedImage (twoCopies 0 1) = some 0 := by
    rw [firstCopyIndex, hdvas, List.findIdx?_cons, copyAt_first 0 1]
    rfl
  have hfirst : firstCopy damagedImage (twoCopies 0 1) = some (0x400000, List.replicate 512 1) := by
    rw [firstCopy, hdvas, List.findSome?_cons, copyAt_first 0 1]
  have hcap : maxBlockSize = 33554432 := rfl
  have hlsize : (twoCopies 0 1).lsizeBytes ≤ maxBlockSize := by
    rw [(sizes_twoCopies 0 1).2, hcap]
    omega
  have hdata : ∃ x ∈ List.replicate 512 (1 : UInt8), x ≠ 0 := ⟨1, List.mem_replicate.2 ⟨by omega, rfl⟩, by decide⟩
  refine ⟨hread, ?_⟩
  exact ((verdict_agrees_with_read plainCtx damagedImage (twoCopies 0 1) rfl (by decide) hlsize).1 _ _ _ hread hindex hfirst
    hdata).2.1.2 rfl

end ZfsForensic
