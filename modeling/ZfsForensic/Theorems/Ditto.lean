import ZfsForensic.Lemmas.Image
import ZfsForensic.Lemmas.Verdict

/-!
# The copies of a block

A block read goes through the copies of a pointer in order and returns the first that lies in the image and decompresses, with the
verdict of its checksum; a checksum verdict looks at the first that lies in the image. Where a copy lies is computed in 64 bits: the
shift of its sector offset drops what leaves the word, so that an offset from `2 ^ 55` on names bytes of another copy.
-/

namespace ZfsForensic

open Octets Checked

/-! ## The first copy that serves -/

/-- What a copy of a block decompresses to, when it lies in the image and does. -/
def copyData (Γ : Ctx) (image : Bytes) (bp : Blkptr) (dva : Dva) : Option Bytes :=
  (copyAt image bp dva).bind fun c => (decompress Γ (CompressType.fromRaw bp.compression) c.2 bp.lsizeBytes).toOption

/-- The verdict on the checksum of some on-disk bytes of a block. -/
def Blkptr.checksumOf (Γ : Ctx) (bp : Blkptr) (raw : Bytes) : Option Bool :=
  verify Γ (ChecksumType.fromRaw bp.checksum) bp.byteorder raw bp.checksumWords

section Reads

variable (Γ : Ctx) (image : Bytes) (bp : Blkptr)

/-- One turn of the loop of a block read. -/
theorem readDvas_cons (i : Nat) (dva : Dva) (dvas : List Dva) (lastErr : ZfsError) :
    readDvas Γ (slice? image) image.length bp i (dva :: dvas) lastErr =
      match copyAt image bp dva with
      | none =>
        readDvas Γ (slice? image) image.length bp (i + 1) dvas
          (if dva.isEmpty then lastErr
            else .truncated "block DVA range" (satAdd dva.physicalByteOffset.toNat bp.psizeBytes) image.length)
      | some (_, raw) =>
        match decompress Γ (CompressType.fromRaw bp.compression) raw bp.lsizeBytes with
        | .ok data => .ok ⟨data, bp.checksumOf Γ raw, UInt8.ofNat i⟩
        | .error e => readDvas Γ (slice? image) image.length bp (i + 1) dvas e := by
  rw [readDvas, copyAt]
  by_cases hempty : dva.isEmpty = true
  · rw [if_pos hempty, if_pos hempty, if_pos hempty]
  · rw [if_neg hempty, if_neg hempty, if_neg hempty]
    -- as a variable, so that nothing below looks at the range the image is asked for
    generalize slice? image = get
    cases hget : get dva.physicalByteOffset.toNat (satAdd dva.physicalByteOffset.toNat bp.psizeBytes) with
    | none => simp only [hget, Option.map_none]
    | some raw =>
      cases hdata : decompress Γ (CompressType.fromRaw bp.compression) raw bp.lsizeBytes with
      | error e => simp only [hget, hdata, Option.map_some]
      | ok data => simp only [hget, hdata, Option.map_some, Blkptr.checksumOf]

/-- The loop returns the first copy that serves, with its position and its checksum verdict. -/
theorem readDvas_of_serves {dvas : List Dva} (h : ∃ dva ∈ dvas, copyData Γ image bp dva ≠ none) (i : Nat) (lastErr : ZfsError) :
    ∃ before dva after phys raw data, dvas = before ++ dva :: after ∧ (∀ d ∈ before, copyData Γ image bp d = none) ∧
      copyAt image bp dva = some (phys, raw) ∧ copyData Γ image bp dva = some data ∧
      readDvas Γ (slice? image) image.length bp i dvas lastErr =
        .ok ⟨data, bp.checksumOf Γ raw, UInt8.ofNat (i + before.length)⟩ := by
  induction dvas generalizing i lastErr with
  | nil =>
    obtain ⟨dva, hmem, -⟩ := h
    exact absurd hmem List.not_mem_nil
  | cons dva dvas ih =>
    -- a copy that does not serve is passed over
    have hpass : ∀ e, copyData Γ image bp dva = none →
        readDvas Γ (slice? image) image.length bp i (dva :: dvas) lastErr =
          readDvas Γ (slice? image) image.length bp (i + 1) dvas e →
        ∃ before d after phys raw data, dva :: dvas = before ++ d :: after ∧ (∀ d ∈ before, copyData Γ image bp d = none) ∧
          copyAt image bp d = some (phys, raw) ∧ copyData Γ image bp d = some data ∧
          readDvas Γ (slice? image) image.length bp i (dva :: dvas) lastErr =
            .ok ⟨data, bp.checksumOf Γ raw, UInt8.ofNat (i + before.length)⟩ := by
      intro e hnone hnext
      have hrest : ∃ d ∈ dvas, copyData Γ image bp d ≠ none := by
        obtain ⟨d, hmem, hd⟩ := h
        rcases List.mem_cons.1 hmem with rfl | hmem
        · exact absurd hnone hd
        · exact ⟨d, hmem, hd⟩
      obtain ⟨before, d, after, phys, raw, data, rfl, hbefore, hcopy, hdata, hread⟩ := ih hrest (i + 1) e
      refine ⟨dva :: before, d, after, phys, raw, data, rfl, ?_, hcopy, hdata, ?_⟩
      · rintro b (_ | ⟨_, hb⟩)
        · exact hnone
        · exact hbefore b hb
      · rw [hnext, hread, List.length_cons, Nat.add_right_comm, Nat.add_assoc]
    have hturn := readDvas_cons Γ image bp i dva dvas lastErr
    cases hcopy : copyAt image bp dva with
    | none =>
      rw [hcopy] at hturn
      exact hpass _ (by rw [copyData, hcopy, Option.bind_none]) hturn
    | some c =>
      obtain ⟨phys, raw⟩ := c
      have hdata : copyData Γ image bp dva =
          (decompress Γ (CompressType.fromRaw bp.compression) raw bp.lsizeBytes).toOption := by
        rw [copyData, hcopy, Option.bind_some]
      rw [hcopy] at hturn
      dsimp only at hturn
      cases hdec : decompress Γ (CompressType.fromRaw bp.compression) raw bp.lsizeBytes with
      | error e =>
        rw [hdec] at hturn hdata
        exact hpass e hdata hturn
      | ok data =>
        rw [hdec] at hturn hdata
        exact ⟨[], dva, dvas, phys, raw, data, rfl, fun d hd => absurd hd List.not_mem_nil, hcopy, hdata, hturn⟩

/-- Where no copy serves, the loop fails. -/
theorem readDvas_of_none {dvas : List Dva} (h : ∀ dva ∈ dvas, copyData Γ image bp dva = none) (i : Nat) (lastErr : ZfsError) :
    ∃ e, readDvas Γ (slice? image) image.length bp i dvas lastErr = .error e := by
  induction dvas generalizing i lastErr with
  | nil => exact ⟨lastErr, rfl⟩
  | cons dva dvas ih =>
    have hrest := ih (fun d hd => h d (List.mem_cons_of_mem _ hd)) (i + 1)
    have hnone := h dva List.mem_cons_self
    rw [readDvas_cons]
    cases hcopy : copyAt image bp dva with
    | none => exact hrest _
    | some c =>
      obtain ⟨phys, raw⟩ := c
      rw [copyData, hcopy, Option.bind_some] at hnone
      dsimp only at hnone ⊢
      cases hdec : decompress Γ (CompressType.fromRaw bp.compression) raw bp.lsizeBytes with
      | error e => exact hrest e
      | ok data =>
        rw [hdec] at hnone
        exact absurd hnone (Option.some_ne_none data)

end Reads

/-- A block read returns the first copy that lies in the image and decompresses, and says of it whether it recomputes to the
pointer's checksum: a copy that does not is not passed over. -/
theorem readBlock_first_copy (Γ : Ctx) (image : Bytes) (bp : Blkptr) (hembedded : bp.embedded = false)
    (hhole : bp.isHole = false) (hlsize : bp.lsizeBytes ≤ maxBlockSize)
    (hkind : ∀ raw, (bp.checksumOf Γ raw).isSome = true)
    (hserves : ∃ dva ∈ bp.dvas.toList, copyData Γ image bp dva ≠ none) :
    ∃ before dva after phys raw data good, bp.dvas.toList = before ++ dva :: after ∧
      (∀ d ∈ before, copyData Γ image bp d = none) ∧ copyAt image bp dva = some (phys, raw) ∧
      copyData Γ image bp dva = some data ∧ bp.checksumOf Γ raw = some good ∧
      readBlock Γ image bp = .ok ⟨data, some good, UInt8.ofNat before.length⟩ := by
  obtain ⟨before, dva, after, phys, raw, data, hdvas, hbefore, hcopy, hdata, hread⟩ :=
    readDvas_of_serves Γ image bp hserves 0 (.truncated "block (no DVA readable)" bp.psizeBytes image.length)
  obtain ⟨good, hgood⟩ := Option.isSome_iff_exists.1 (hkind raw)
  refine ⟨before, dva, after, phys, raw, data, good, hdvas, hbefore, hcopy, hdata, hgood, ?_⟩
  have hpos := Blkptr.lsizeBytes_pos hembedded
  unfold readBlock readBlockWith
  dsimp only
  rw [if_neg (by omega), if_neg (by simp [hembedded]), if_neg (by simp [hhole]), hread, hgood, Nat.zero_add]

/-! ## Two copies, the first of them damaged -/

/-- A pointer to two copies of one sector, stored as it is, with a fletcher4 checksum of zeros. -/
def twoCopies (first second : UInt64) : Blkptr :=
  { (default : Blkptr) with
    dvas := #v[⟨0, 1, first, false⟩, ⟨0, 1, second, false⟩, default]
    compression := 2
    checksum := 7
    byteorder := .little }

/-- An image whose first sector behind the boot block is not zero, and whose second one is. -/
def damagedImage : Bytes := zeros 0x400000 ++ (List.replicate 512 1 ++ zeros 512)

theorem slice_damagedImage : slice? damagedImage 0x400000 (0x400000 + 512) = some (List.replicate 512 1) ∧
    slice? damagedImage 0x400200 (0x400200 + 512) = some (zeros 512) := by
  have hparts : damagedImage = (zeros 0x400000 ++ List.replicate 512 1) ++ zeros 512 := by
    rw [damagedImage, List.append_assoc]
  constructor
  · rw [damagedImage, ← List.append_assoc]
    exact slice?_middle (length_zeros _) (by rw [List.length_replicate])
  · rw [hparts]
    exact slice?_suffix (by rw [List.length_append, length_zeros, List.length_replicate]) (by rw [length_zeros])

section TwoCopies

variable (first second : UInt64)

theorem sizes_twoCopies : (twoCopies first second).psizeBytes = 512 ∧ (twoCopies first second).lsizeBytes = 512 := by
  have hpsize : (twoCopies first second).psizeRaw = 0 := rfl
  have hlsize : (twoCopies first second).lsizeRaw = 0 := rfl
  rw [Blkptr.psizeBytes_of_not_embedded rfl, Blkptr.lsizeBytes_of_not_embedded rfl, hpsize, hlsize]
  exact ⟨rfl, rfl⟩

theorem copyAt_twoCopies {dva : Dva} {phys : Nat} {raw : Bytes} (hempty : dva.isEmpty = false)
    (hphys : dva.physicalByteOffset.toNat = phys) (hsmall : phys + 512 < 2 ^ 64)
    (hslice : slice? damagedImage phys (phys + 512) = some raw) :
    copyAt damagedImage (twoCopies first second) dva = some (phys, raw) := by
  refine copyAt_eq_some_iff.2 ⟨hempty, hphys, ?_⟩
  rw [(sizes_twoCopies first second).1, satAdd_eq hsmall]
  exact hslice

theorem copyData_twoCopies {dva : Dva} {phys : Nat} {raw : Bytes} (hlen : raw.length = 512)
    (h : copyAt damagedImage (twoCopies first second) dva = some (phys, raw)) :
    copyData plainCtx damagedImage (twoCopies first second) dva = some raw := by
  have hkind : CompressType.fromRaw (twoCopies first second).compression = .off := rfl
  rw [copyData, h, Option.bind_some, hkind, (sizes_twoCopies first second).2, decompress, decompressOff_eq_self hlen]
  rfl

/-- A block read returns the first of the two copies when it lies in the image. -/
theorem readBlock_twoCopies {phys : Nat} {raw : Bytes} (hlen : raw.length = 512)
    (h : copyAt damagedImage (twoCopies first second) ⟨0, 1, first, false⟩ = some (phys, raw)) :
    readBlock plainCtx damagedImage (twoCopies first second) =
      .ok ⟨raw, (twoCopies first second).checksumOf plainCtx raw, 0⟩ := by
  have hkind : CompressType.fromRaw (twoCopies first second).compression = .off := rfl
  have hdvas : (twoCopies first second).dvas.toList = ⟨0, 1, first, false⟩ :: [⟨0, 1, second, false⟩, default] := rfl
  have hsize := (sizes_twoCopies first second).2
  have hcap : maxBlockSize = 33554432 := rfl
  have hembedded : (twoCopies first second).embedded = false := rfl
  have hhole : (twoCopies first second).isHole = false := rfl
  have hturn := readDvas_cons plainCtx damagedImage (twoCopies first second) 0 ⟨0, 1, first, false⟩
    [⟨0, 1, second, false⟩, default] (.truncated "block (no DVA readable)" (twoCopies first second).psizeBytes damagedImage.length)
  rw [h] at hturn
  dsimp only at hturn
  rw [hkind, decompress, hsize, decompressOff_eq_self hlen] at hturn
  unfold readBlock readBlockWith
  rw [if_neg (by rw [hsize, hcap]; omega), if_neg (by simp [hembedded]), if_neg (by simp [hhole]), hdvas, hturn]
  rfl

/-- The first copy a pointer to the first sector has is the damaged one. -/
theorem copyAt_first : copyAt damagedImage (twoCopies first second) ⟨0, 1, 0, false⟩ = some (0x400000, List.replicate 512 1) :=
  copyAt_twoCopies first second rfl (by decide) (by omega) slice_damagedImage.1

end TwoCopies

/-- The checksum of the pointer is that of the second sector, not of the first. -/
theorem checksumOf_twoCopies (first second : UInt64) :
    (twoCopies first second).checksumOf plainCtx (List.replicate 512 1) = some false ∧
      (twoCopies first second).checksumOf plainCtx (zeros 512) = some true := by
  have hkind : ChecksumType.fromRaw (twoCopies first second).checksum = .fletcher4 := rfl
  have hendian : (twoCopies first second).byteorder = .little := rfl
  have hwords : (twoCopies first second).checksumWords = #v[0, 0, 0, 0] := rfl
  have hlen : (List.replicate 512 (1 : UInt8)).length = 512 := List.length_replicate
  have hword : fletcher4Word (List.replicate 512 1) .little 0 ≠ 0 := by decide +kernel
  rw [Blkptr.checksumOf, Blkptr.checksumOf, hkind, hendian, hwords]
  refine ⟨verify_fletcher4_zero _ (by rw [hlen]; omega) (i := 0) (by rw [hlen]; omega) hword, ?_⟩
  rw [verify, fletcher4_zeros, beq_self_eq_true]

/-- A block read returns the damaged copy in front of the good one, with the verdict that it is damaged. -/
theorem readBlock_damagedImage :
    readBlock plainCtx damagedImage (twoCopies 0 1) = .ok ⟨List.replicate 512 1, some false, 0⟩ ∧
      copyData plainCtx damagedImage (twoCopies 0 1) ⟨0, 1, 1, false⟩ = some (zeros 512) ∧
      (twoCopies 0 1).checksumOf plainCtx (zeros 512) = some true := by
  have hsecond : copyAt damagedImage (twoCopies 0 1) ⟨0, 1, 1, false⟩ = some (0x400200, zeros 512) :=
    copyAt_twoCopies 0 1 rfl (by decide) (by omega) slice_damagedImage.2
  obtain ⟨hbad, hgood⟩ := checksumOf_twoCopies 0 1
  refine ⟨?_, copyData_twoCopies 0 1 (length_zeros 512) hsecond, hgood⟩
  rw [readBlock_twoCopies 0 1 List.length_replicate (copyAt_first 0 1), hbad]

/-- The first copy of a pointer decides its read: here the damaged one. -/
theorem readBlock_first_copy_damagedImage :
    ∃ before dva after phys raw data good, (twoCopies 0 1).dvas.toList = before ++ dva :: after ∧
      (∀ d ∈ before, copyData plainCtx damagedImage (twoCopies 0 1) d = none) ∧
      copyAt damagedImage (twoCopies 0 1) dva = some (phys, raw) ∧
      copyData plainCtx damagedImage (twoCopies 0 1) dva = some data ∧
      (twoCopies 0 1).checksumOf plainCtx raw = some good ∧
      readBlock plainCtx damagedImage (twoCopies 0 1) = .ok ⟨data, some good, UInt8.ofNat before.length⟩ := by
  have hdata := copyData_twoCopies 0 1 (List.length_replicate) (copyAt_first 0 1)
  have hmem : (⟨0, 1, 0, false⟩ : Dva) ∈ (twoCopies 0 1).dvas.toList := List.mem_cons_self
  have hcap : maxBlockSize = 33554432 := rfl
  refine readBlock_first_copy plainCtx damagedImage (twoCopies 0 1) rfl (by decide) ?_ (fun raw => rfl)
    ⟨_, hmem, by rw [hdata]; exact Option.some_ne_none _⟩
  rw [(sizes_twoCopies 0 1).2, hcap]
  omega

/-! ## The address of a copy -/

/-- The byte a copy names, in unbounded integers. -/
def Dva.address (d : Dva) : Nat := 512 * d.offsetSectors.toNat + 0x400000

/-- A block read looks at these bytes for a copy: it lies in the image, and no copy in front of it serves. -/
def ReadByBlock (Γ : Ctx) (image : Bytes) (bp : Blkptr) (dva : Dva) (raw : Bytes) : Prop :=
  bp.embedded = false ∧ bp.lsizeBytes ≤ maxBlockSize ∧ ∃ before after phys, bp.dvas.toList = before ++ dva :: after ∧
    (∀ d ∈ before, copyData Γ image bp d = none) ∧ copyAt image bp dva = some (phys, raw)

/-- A checksum verdict looks at these bytes for a copy: it is the first that lies in the image. -/
def ReadByVerdict (image : Bytes) (bp : Blkptr) (dva : Dva) (raw : Bytes) : Prop :=
  bp.embedded = false ∧ bp.lsizeBytes ≤ maxBlockSize ∧ isUnchecked (ChecksumType.fromRaw bp.checksum) = false ∧
    ∃ before after phys, bp.dvas.toList = before ++ dva :: after ∧ (∀ d ∈ before, copyAt image bp d = none) ∧
      copyAt image bp dva = some (phys, raw)

/-- The bytes one of the two looks at for a copy. -/
def IsRead (Γ : Ctx) (image : Bytes) (bp : Blkptr) (dva : Dva) (raw : Bytes) : Prop :=
  ReadByBlock Γ image bp dva raw ∨ ReadByVerdict image bp dva raw

/-- For every copy of these pointers that is read, the bytes are those its address names, and two copies of different offsets are not
read at one place. -/
structure ReadsNamed (Γ : Ctx) (image : Bytes) (bps : Set Blkptr) : Prop where
  named : ∀ bp ∈ bps, ∀ dva raw, IsRead Γ image bp dva raw →
    slice? image dva.address (dva.address + bp.psizeBytes) = some raw
  apart : ∀ bp₁ ∈ bps, ∀ bp₂ ∈ bps, ∀ dva₁ raw₁ dva₂ raw₂, IsRead Γ image bp₁ dva₁ raw₁ → IsRead Γ image bp₂ dva₂ raw₂ →
    dva₁.offsetSectors ≠ dva₂.offsetSectors → dva₁.physicalByteOffset ≠ dva₂.physicalByteOffset

/-- What a block read returns is decompressed from a copy it reads. -/
theorem readByBlock_of_readBlock {Γ : Ctx} {image : Bytes} {bp : Blkptr} {block : Block} (hembedded : bp.embedded = false)
    (hhole : bp.isHole = false) (h : readBlock Γ image bp = .ok block) :
    ∃ dva raw, ReadByBlock Γ image bp dva raw ∧
      decompress Γ (CompressType.fromRaw bp.compression) raw bp.lsizeBytes = .ok block.data := by
  unfold readBlock readBlockWith at h
  dsimp only at h
  split at h
  · exact absurd h (by simp)
  · rename_i hsize
    rw [if_neg (by simp [hembedded]), if_neg (by simp [hhole])] at h
    by_cases hserves : ∃ dva ∈ bp.dvas.toList, copyData Γ image bp dva ≠ none
    · obtain ⟨before, dva, after, phys, raw, data, hdvas, hbefore, hcopy, hdata, hread⟩ :=
        readDvas_of_serves Γ image bp hserves 0 (.truncated "block (no DVA readable)" bp.psizeBytes image.length)
      rw [hread, Except.ok.injEq] at h
      refine ⟨dva, raw, ⟨hembedded, by omega, before, after, phys, hdvas, hbefore, hcopy⟩, ?_⟩
      rw [copyData, hcopy, Option.bind_some] at hdata
      rw [← h]
      exact toOption_eq_ok hdata
    · have hnone : ∀ dva ∈ bp.dvas.toList, copyData Γ image bp dva = none := by
        intro dva hmem
        by_contra hsome
        exact hserves ⟨dva, hmem, hsome⟩
      obtain ⟨e, he⟩ := readDvas_of_none Γ image bp hnone 0 (.truncated "block (no DVA readable)" bp.psizeBytes image.length)
      rw [he] at h
      exact absurd h (by simp)

/-- What a checksum verdict finds good or bad is a copy it reads. -/
theorem readByVerdict_of_verdict {Γ : Ctx} {image : Bytes} {bp : Blkptr}
    (h : blkptrChecksumVerdict Γ image bp = .ok ∨ blkptrChecksumVerdict Γ image bp = .mismatch) :
    ∃ dva raw, ReadByVerdict image bp dva raw ∧ blkptrChecksumVerdict Γ image bp = verdictRaw Γ bp raw := by
  unfold blkptrChecksumVerdict at h ⊢
  split at h
  · exact absurd h (by simp)
  · rename_i hinline
    rw [if_neg hinline]
    dsimp only at h ⊢
    split at h
    · exact absurd h (by simp)
    · rename_i hsize
      rw [if_neg hsize]
      split at h
      · exact absurd h (by simp)
      · rename_i hkind
        rw [if_neg hkind, verdictDvas_eq]
        rw [verdictDvas_eq] at h
        cases hfirst : bp.dvas.toList.findSome? (copyAt image bp) with
        | none =>
          rw [hfirst] at h
          exact absurd h (by simp)
        | some c =>
          obtain ⟨before, dva, after, hdvas, hcopy, hbefore⟩ := List.findSome?_eq_some_iff.1 hfirst
          simp only [Bool.or_eq_true, not_or, Bool.not_eq_true] at hinline hkind
          exact ⟨dva, c.2, ⟨hinline.1, by omega, hkind, before, after, c.1, hdvas, hbefore, hcopy⟩, rfl⟩

/-- The translation of an offset, as arithmetic. -/
theorem Dva.toNat_physicalByteOffset (d : Dva) :
    d.physicalByteOffset.toNat = min (512 * d.offsetSectors.toNat % 2 ^ 64 + 0x400000) (2 ^ 64 - 1) := by
  have hskew : bootSkew.toNat = 0x400000 := rfl
  have hshift : (d.offsetSectors <<< 9).toNat = 512 * d.offsetSectors.toNat % 2 ^ 64 := by
    rw [UInt64.toNat_shiftLeft, Nat.shiftLeft_eq, Nat.mul_comm]
    rfl
  rw [Dva.physicalByteOffset, toNat_satAddU64, hshift, hskew]

/-- A copy that is read lies in the image. -/
theorem slice?_of_isRead {Γ : Ctx} {image : Bytes} {bp : Blkptr} {dva : Dva} {raw : Bytes} (h : IsRead Γ image bp dva raw) :
    slice? image dva.physicalByteOffset.toNat (satAdd dva.physicalByteOffset.toNat bp.psizeBytes) = some raw := by
  rcases h with ⟨-, -, _, _, phys, -, -, hcopy⟩ | ⟨-, -, -, _, _, phys, -, -, hcopy⟩
  · obtain ⟨-, rfl, hslice⟩ := copyAt_eq_some_iff.1 hcopy
    exact hslice
  · obtain ⟨-, rfl, hslice⟩ := copyAt_eq_some_iff.1 hcopy
    exact hslice

/-- In an image a copy of a smaller offset than `2 ^ 55` is read at its address. -/
theorem address_of_lt {image : Bytes} (hlen : image.length < 2 ^ 63) {dva : Dva} {n : Nat} {raw : Bytes}
    (hslice : slice? image dva.physicalByteOffset.toNat (satAdd dva.physicalByteOffset.toNat n) = some raw)
    (hlt : dva.offsetSectors.toNat < 2 ^ 55) :
    dva.physicalByteOffset.toNat = dva.address ∧ slice? image dva.address (dva.address + n) = some raw := by
  have hphys := dva.toNat_physicalByteOffset
  have haddress : dva.address = 512 * dva.offsetSectors.toNat + 0x400000 := rfl
  obtain ⟨hle, hend, -⟩ := slice?_eq_some_iff.1 hslice
  have hexact : dva.physicalByteOffset.toNat = dva.address := by omega
  have hstop : satAdd dva.physicalByteOffset.toNat n = dva.address + n := by
    rw [hexact] at hend ⊢
    unfold satAdd at hend ⊢
    omega
  rw [hstop, hexact] at hslice
  exact ⟨hexact, hslice⟩

/-- Every copy that is read is read where its address says, and apart from copies of other offsets, exactly where the offset of every
copy that is read is below `2 ^ 55` sectors. -/
theorem reads_named_iff (Γ : Ctx) (image : Bytes) (hlen : image.length < 2 ^ 63) (bps : Set Blkptr) :
    ReadsNamed Γ image bps ↔
      ∀ bp ∈ bps, ∀ dva raw, IsRead Γ image bp dva raw → dva.offsetSectors.toNat < 2 ^ 55 := by
  constructor
  · intro h bp hbp dva raw hread
    obtain ⟨-, hend, -⟩ := slice?_eq_some_iff.1 (h.named bp hbp dva raw hread)
    have haddress : dva.address = 512 * dva.offsetSectors.toNat + 0x400000 := rfl
    omega
  · intro h
    refine ⟨fun bp hbp dva raw hread => ?_, fun bp₁ hbp₁ bp₂ hbp₂ dva₁ raw₁ dva₂ raw₂ hread₁ hread₂ hne hsame => hne ?_⟩
    · exact (address_of_lt hlen (slice?_of_isRead hread) (h bp hbp dva raw hread)).2
    · have h₁ := (address_of_lt hlen (slice?_of_isRead hread₁) (h bp₁ hbp₁ dva₁ raw₁ hread₁)).1
      have h₂ := (address_of_lt hlen (slice?_of_isRead hread₂) (h bp₂ hbp₂ dva₂ raw₂ hread₂)).1
      rw [hsame, h₂] at h₁
      have haddress₁ : dva₁.address = 512 * dva₁.offsetSectors.toNat + 0x400000 := rfl
      have haddress₂ : dva₂.address = 512 * dva₂.offsetSectors.toNat + 0x400000 := rfl
      exact UInt64.toNat_inj.1 (by omega)

/-- A pointer whose offset is `2 ^ 55` sectors names bytes behind every image, and is read as the first sector behind the boot block,
like one whose offset is zero. -/
theorem readBlock_aliased :
    readBlock plainCtx damagedImage (twoCopies 0x80000000000000 1) = .ok ⟨List.replicate 512 1, some false, 0⟩ ∧
      (∀ image : Bytes, image.length < 2 ^ 63 → slice? image (Dva.address ⟨0, 1, 0x80000000000000, false⟩)
        (Dva.address ⟨0, 1, 0x80000000000000, false⟩ + 512) = none) ∧
      ¬ ReadsNamed plainCtx damagedImage {twoCopies 0x80000000000000 1} := by
  have haddress : Dva.address ⟨0, 1, 0x80000000000000, false⟩ = 2 ^ 64 + 0x400000 := by decide
  have hcopy : copyAt damagedImage (twoCopies 0x80000000000000 1) ⟨0, 1, 0x80000000000000, false⟩ =
      some (0x400000, List.replicate 512 1) :=
    copyAt_twoCopies 0x80000000000000 1 rfl (by decide) (by omega) slice_damagedImage.1
  have hbad := (checksumOf_twoCopies 0x80000000000000 1).1
  have hnone : ∀ image : Bytes, image.length < 2 ^ 63 → slice? image (Dva.address ⟨0, 1, 0x80000000000000, false⟩)
      (Dva.address ⟨0, 1, 0x80000000000000, false⟩ + 512) = none := by
    intro image hlen
    rw [haddress]
    exact slice?_eq_none_of_lt (by omega)
  have hlen : damagedImage.length < 2 ^ 63 := by
    rw [damagedImage, List.length_append, List.length_append, length_zeros, length_zeros, List.length_replicate]
    omega
  refine ⟨?_, hnone, fun h => ?_⟩
  · rw [readBlock_twoCopies _ _ List.length_replicate hcopy, hbad]
  · have hread : IsRead plainCtx damagedImage (twoCopies 0x80000000000000 1) ⟨0, 1, 0x80000000000000, false⟩
        (List.replicate 512 1) := by
      refine Or.inl ⟨rfl, ?_, [], [⟨0, 1, 1, false⟩, default], 0x400000, rfl, fun d hd => absurd hd List.not_mem_nil, hcopy⟩
      have hcap : maxBlockSize = 33554432 := rfl
      rw [(sizes_twoCopies _ _).2, hcap]
      omega
    have hnamed := h.named _ rfl _ _ hread
    rw [(sizes_twoCopies _ _).1, hnone damagedImage hlen] at hnamed
    exact absurd hnamed.symm (Option.some_ne_none _)

/-- Pointers of small offsets are read where they say. -/
theorem readsNamed_damagedImage : ReadsNamed plainCtx damagedImage {twoCopies 0 1} := by
  have hlen : damagedImage.length < 2 ^ 63 := by
    rw [damagedImage, List.length_append, List.length_append, length_zeros, length_zeros, List.length_replicate]
    omega
  have hdvas : ∀ dva ∈ (twoCopies 0 1).dvas.toList, dva.offsetSectors.toNat < 2 ^ 55 := by decide
  refine (reads_named_iff plainCtx damagedImage hlen _).2 ?_
  rintro bp rfl dva raw (⟨-, -, before, after, -, hsplit, -, -⟩ | ⟨-, -, -, before, after, -, hsplit, -, -⟩)
  · exact hdvas dva (by rw [hsplit]; exact List.mem_append_right _ List.mem_cons_self)
  · exact hdvas dva (by rw [hsplit]; exact List.mem_append_right _ List.mem_cons_self)

end ZfsForensic
