import ZfsForensic.Lemmas.Body
import ZfsForensic.Lemmas.Reports
import ZfsForensic.Lemmas.Verdict

/-!
# What the checksum sweep covers

`Reached` holds of the pointers of a block tree that are found from its top through indirect blocks that read. The sweep of an
audit judges the top pointers of the MOS meta-dnode and no other: a pointer below them is reported only where a top pointer that
fails names the same block.
-/

namespace ZfsForensic

open Octets Checked

/-- A pointer of an object's block tree, with its height above the data: a top pointer, or a child in an indirect block that
reads. -/
inductive Reached (disk : Disk) (d : Dnode) : Nat → Blkptr → Prop
  | top {bp : Blkptr} (h : bp ∈ d.blkptrs) : Reached disk d (d.dnNlevels.toNat - 1) bp
  | child {level k : Nat} {parent : Blkptr} {block : Block} {bytes : Bytes} (h : Reached disk d (level + 1) parent)
      (hhole : parent.isHole = false) (hread : disk parent = .ok block)
      (hchild : slice? block.data (k * blkptrSize) (k * blkptrSize + blkptrSize) = some bytes) :
      Reached disk d level (Blkptr.parse bytes d.endian)

/-- The anomaly that reports a pointer's block. -/
def mismatchOf (bp : Blkptr) : Anomaly := Anomaly.new (.blkptrChecksumMismatch (dvaOffsetOf bp) bp.objectType)

/-- Whether two pointers are reported as the same block. -/
def SameBlock (bp bp' : Blkptr) : Prop := dvaOffsetOf bp = dvaOffsetOf bp' ∧ bp.objectType = bp'.objectType

theorem Reached.level_le {disk : Disk} {d : Dnode} {level : Nat} {bp : Blkptr} (h : Reached disk d level bp) :
    level ≤ d.dnNlevels.toNat - 1 := by
  induction h with
  | top _ => exact le_rfl
  | child _ _ _ _ ih => omega

/-- At the top there are the top pointers only. -/
theorem Reached.mem_blkptrs {disk : Disk} {d : Dnode} {level : Nat} {bp : Blkptr} (h : Reached disk d level bp)
    (htop : level = d.dnNlevels.toNat - 1) : bp ∈ d.blkptrs := by
  cases h with
  | top h => exact h
  | child h _ _ _ =>
    have hle := h.level_le
    omega

/-! ## The pointers of a dnode are decoded -/

theorem Dnode.exists_parse_of_mem_parseBlkptrs {raw : Bytes} {e : Endian} {n i : Nat} {bp : Blkptr}
    (h : bp ∈ Dnode.parseBlkptrs raw e i n) : ∃ bytes, bp = Blkptr.parse bytes e := by
  induction n generalizing i with
  | zero => exact absurd h (by simp [parseBlkptrs])
  | succ n ih =>
    unfold parseBlkptrs at h
    dsimp only at h
    split at h
    · rename_i bytes _
      rcases List.mem_cons.1 h with heq | hmem
      · exact ⟨bytes, heq⟩
      · exact ih hmem
    · exact absurd h (by simp)

theorem Dnode.length_parseBlkptrs_le (raw : Bytes) (e : Endian) (i n : Nat) :
    (Dnode.parseBlkptrs raw e i n).length ≤ n := by
  induction n generalizing i with
  | zero => exact le_rfl
  | succ n ih =>
    unfold parseBlkptrs
    dsimp only
    split
    · rw [List.length_cons]
      exact Nat.succ_le_succ (ih _)
    · exact Nat.zero_le _

/-- A meta-dnode's pointers are decoded, and few enough for the sweep's budget. -/
theorem ObjsetPhys.blkptrs_of_parse {data : Bytes} {e : Endian} {os : ObjsetPhys} (h : ObjsetPhys.parse data e = .ok os) :
    (∀ bp ∈ os.metaDnode.blkptrs, ∃ bytes, bp = Blkptr.parse bytes e) ∧ os.metaDnode.blkptrs.length ≤ sweepBudget := by
  unfold ObjsetPhys.parse at h
  split at h
  · exact absurd h (by simp)
  · unfold Dnode.parse at h
    split at h
    · exact absurd h (by simp)
    · rename_i metaDnode hmeta
      split at hmeta
      · exact absurd hmeta (by simp)
      · simp only [Option.some.injEq] at hmeta
        simp only [Except.ok.injEq] at h
        rw [← h, ← hmeta]
        refine ⟨fun bp hbp => Dnode.exists_parse_of_mem_parseBlkptrs hbp, ?_⟩
        have hclamp : Dnode.clampNblkptr (u8At data 3) (u8At data 12) ≤ 255 :=
          (Nat.min_le_left _ _).trans (Nat.le_of_lt_succ (u8At data 3).toNat_lt)
        exact (Dnode.length_parseBlkptrs_le data e 0 _).trans (hclamp.trans (by decide))

/-! ## What an audit reports -/

/-- What the sweep says of one decoded pointer. -/
theorem mem_sweepBlkptr_iff (Γ : Ctx) (image bytes : Bytes) (e : Endian) (a : Anomaly) :
    a ∈ sweepBlkptr Γ image (Blkptr.parse bytes e) ↔
      Tampered Γ image (Blkptr.parse bytes e) ∧ a = mismatchOf (Blkptr.parse bytes e) := by
  rw [← verdict_parse_eq_mismatch_iff, sweepBlkptr, mismatchOf]
  by_cases hskip : ((Blkptr.parse bytes e).embedded || (Blkptr.parse bytes e).isHole) = true
  · rw [if_pos hskip, blkptrChecksumVerdict, if_pos hskip]
    simp
  · rw [if_neg hskip]
    split
    · rename_i hverdict
      simp [hverdict]
    · rename_i hverdict
      simp [hverdict]

section Audit

variable {Γ : Ctx} {image l0Bytes : Bytes} {l0 : VdevLabel} {mosBlock : Block} {mos : ObjsetPhys}
  (hbytes : slice? image 0 labelSize = some l0Bytes) (hlabel : VdevLabel.parse l0Bytes = .ok l0)
  (hread : readBlock Γ image l0.activeUberblock.rootbpFull = .ok mosBlock)
  (hparse : ObjsetPhys.parse mosBlock.data l0.activeUberblock.endian = .ok mos)
include hbytes hlabel hread hparse

/-- An audit reports a block exactly when a top pointer of the meta-dnode fails and gives that offset and type. -/
theorem mismatch_mem_auditImage_iff (off : UInt64) (type : UInt8) :
    Anomaly.new (.blkptrChecksumMismatch off type) ∈ auditImage Γ image ↔
      ∃ top ∈ mos.metaDnode.blkptrs, Tampered Γ image top ∧ dvaOffsetOf top = off ∧ top.objectType = type := by
  obtain ⟨hdecoded, hbudget⟩ := ObjsetPhys.blkptrs_of_parse hparse
  have hsweep : sweepReachableBlkptrs Γ image l0 = mos.metaDnode.blkptrs.flatMap (sweepBlkptr Γ image) := by
    simp only [sweepReachableBlkptrs, hread, hparse, List.take_of_length_le hbudget]
  rw [mem_auditImage_iff_sweep hbytes hlabel rfl, hsweep, List.mem_flatMap]
  refine exists_congr fun top => and_congr_right fun htop => ?_
  obtain ⟨bytes, rfl⟩ := hdecoded top htop
  rw [mem_sweepBlkptr_iff]
  refine and_congr_right fun _ => ?_
  constructor
  · intro h
    have hkind := congrArg Anomaly.kind h
    simp only [mismatchOf, Anomaly.new, AnomalyKind.blkptrChecksumMismatch.injEq] at hkind
    exact ⟨hkind.1.symm, hkind.2.symm⟩
  · rintro ⟨hoff, htype⟩
    rw [mismatchOf, hoff, htype]

/-- An audit reports a pointer's block exactly when a top pointer of the meta-dnode fails and names it. -/
theorem mismatchOf_mem_auditImage_iff (bp : Blkptr) :
    mismatchOf bp ∈ auditImage Γ image ↔ ∃ top ∈ mos.metaDnode.blkptrs, Tampered Γ image top ∧ SameBlock top bp :=
  mismatch_mem_auditImage_iff hbytes hlabel hread hparse (dvaOffsetOf bp) bp.objectType

end Audit

/-- The sweep reports every reached pointer that fails exactly where each one below the top is the same block as a top pointer
that fails. -/
theorem sweep_covers_iff (Γ : Ctx) (image l0Bytes : Bytes) (l0 : VdevLabel) (mosBlock : Block) (mos : ObjsetPhys)
    (hbytes : slice? image 0 labelSize = some l0Bytes) (hlabel : VdevLabel.parse l0Bytes = .ok l0)
    (hread : readBlock Γ image l0.activeUberblock.rootbpFull = .ok mosBlock)
    (hparse : ObjsetPhys.parse mosBlock.data l0.activeUberblock.endian = .ok mos) :
    (∀ level bp, Reached (readBlock Γ image) mos.metaDnode level bp → Tampered Γ image bp →
        mismatchOf bp ∈ auditImage Γ image) ↔
      ∀ level bp, Reached (readBlock Γ image) mos.metaDnode level bp → level < mos.metaDnode.dnNlevels.toNat - 1 →
        Tampered Γ image bp → ∃ top ∈ mos.metaDnode.blkptrs, Tampered Γ image top ∧ SameBlock top bp := by
  constructor
  · intro h level bp hreached _ htampered
    exact (mismatchOf_mem_auditImage_iff hbytes hlabel hread hparse bp).1 (h level bp hreached htampered)
  · intro h level bp hreached htampered
    rw [mismatchOf_mem_auditImage_iff hbytes hlabel hread hparse]
    rcases Nat.lt_or_ge level (mos.metaDnode.dnNlevels.toNat - 1) with hlt | hge
    · exact h level bp hreached hlt htampered
    · exact ⟨bp, hreached.mem_blkptrs (le_antisymm hreached.level_le hge), htampered, rfl, rfl⟩

/-! ## A tampered block below an indirect block

The root block of this image is an objset whose meta-dnode has two levels. Its only top pointer names an indirect block, which has
no checksum of its own; the only pointer there names a block whose checksum fails.
-/

/-- The pointer to the tampered block: fletcher4 with sums of zero. -/
def hiddenPtr : Blkptr := bodyPtr 3 1 7 10 0

/-- The meta-dnode over it. -/
def hiddenMeta : Dnode :=
  { (default : Dnode) with
    dnType := 10
    dnIndblkshift := 9
    dnNlevels := 2
    dnNblkptr := 1
    dnDatablkszsec := 1
    blkptrs := [bodyPtr 2 1 2 10 1] }

/-- The tampered block. -/
def hiddenSector : Bytes := 1 :: zeros 511

/-- The objset, the indirect block and the tampered block. -/
def hiddenBody : Bytes := (hiddenMeta.encode .little ++ zeros 512) ++ (hiddenPtr.encode .little ++ zeros 384) ++ hiddenSector

/-- The root pointer of the image. -/
def hiddenRoot : Vector UInt8 128 := (bodyPtr 0 2 2 11 0).encodeVector .little

/-- The image. -/
def hiddenImage : Bytes := imageOf 7 hiddenRoot hiddenBody

/-- The image's object set, as it reads. -/
def hiddenMos : ObjsetPhys := objsetOf (hiddenMeta.encode .little ++ zeros 512)

theorem hiddenPtr_stored : hiddenPtr.Stored := bodyPtr_stored 7 10 (by decide) (by decide) (by decide)

theorem hiddenMeta_stored : hiddenMeta.Stored :=
  ⟨rfl, rfl, fun _ hp => List.mem_singleton.1 hp ▸ bodyPtr_stored 2 10 (by decide) (by decide) (by decide), rfl, by decide⟩

theorem length_hiddenSector : hiddenSector.length = 512 := by
  rw [hiddenSector, List.length_cons, length_zeros]

/-- The tampered block fails sums of zero. -/
theorem fails_hiddenSector (Γ : Ctx) {bp : Blkptr} (hkind : ChecksumType.fromRaw bp.checksum = .fletcher4)
    (hendian : bp.byteorder = .little) (hwords : bp.checksumWords = #v[0, 0, 0, 0]) : bp.Fails Γ hiddenSector := by
  have hword : fletcher4Word hiddenSector .little 0 ≠ 0 := by decide +kernel
  rw [Blkptr.Fails, hkind, hendian, hwords]
  exact verify_fletcher4_zero Γ (by rw [length_hiddenSector]; omega) (i := 0) (by rw [length_hiddenSector]; omega) hword

/-- The parts of the body. -/
def hiddenParts : List Bytes := [hiddenMeta.encode .little ++ zeros 512, hiddenPtr.encode .little ++ zeros 384, hiddenSector]

theorem hiddenBody_eq : hiddenBody = hiddenParts.flatten := by
  simp only [hiddenBody, hiddenParts, List.flatten_cons, List.flatten_nil, List.append_nil, List.append_assoc]

theorem length_hiddenParts :
    (hiddenMeta.encode .little ++ zeros 512).length = 1024 ∧ (hiddenPtr.encode .little ++ zeros 384).length = 512 := by
  rw [List.length_append, List.length_append, Dnode.length_encode .little hiddenMeta_stored, Blkptr.length_encode, length_zeros,
    length_zeros]
  exact ⟨rfl, rfl⟩

theorem readBlock_hiddenImage :
    readBlock plainCtx hiddenImage (vdevLabelOf 7 hiddenRoot).activeUberblock.rootbpFull =
        .ok ⟨hiddenMeta.encode .little ++ zeros 512, none, 0⟩ ∧
      readBlock plainCtx hiddenImage (bodyPtr 2 1 2 10 1) = .ok ⟨hiddenPtr.encode .little ++ zeros 384, none, 0⟩ := by
  obtain ⟨hmeta, hptr⟩ := length_hiddenParts
  have hroot : ((vdevLabelOf 7 hiddenRoot).activeUberblock.rootbpFull).names 0 1024 = true := by decide +kernel
  have hindirect : (bodyPtr 2 1 2 10 1).names 1024 512 = true := by decide
  have hfront : (hiddenParts.take 0).flatten.length = 0 := rfl
  have hfront' : (hiddenParts.take 1).flatten.length = 1024 := by
    rw [hiddenParts, List.take_succ_cons, List.take_zero, List.flatten_singleton, hmeta]
  rw [hiddenImage, readBlock_imageOf, hiddenBody_eq]
  exact ⟨bodyDisk_of_names plainCtx (i := 0) rfl hfront hmeta hroot (by decide),
    bodyDisk_of_names plainCtx (i := 1) rfl hfront' hptr hindirect (by decide)⟩

theorem parse_hiddenMos : ObjsetPhys.parse (hiddenMeta.encode .little ++ zeros 512) .little = .ok hiddenMos ∧
    hiddenMos.metaDnode.blkptrs = [bodyPtr 2 1 2 10 1] ∧ hiddenMos.metaDnode.dnNlevels = 2 ∧
    hiddenMos.metaDnode.endian = .little := by
  have hparse : ObjsetPhys.parse (hiddenMeta.encode .little ++ zeros 512) .little = .ok hiddenMos :=
    parse_objsetOf length_hiddenParts.1.ge
  have hmeta := metaDnode_of_parse hparse
  rw [Dnode.parse_encode_append .little hiddenMeta_stored, Option.some.injEq] at hmeta
  rw [← hmeta]
  exact ⟨hparse, rfl, rfl, rfl⟩

/-- The hidden pointer is reached. -/
theorem reached_hiddenPtr : Reached (readBlock plainCtx hiddenImage) hiddenMos.metaDnode 0 hiddenPtr := by
  obtain ⟨-, hblkptrs, hlevels, hendian⟩ := parse_hiddenMos
  have htop : Reached (readBlock plainCtx hiddenImage) hiddenMos.metaDnode 1 (bodyPtr 2 1 2 10 1) := by
    have hmem : bodyPtr 2 1 2 10 1 ∈ hiddenMos.metaDnode.blkptrs := by
      rw [hblkptrs]
      exact List.mem_singleton_self _
    have h : Reached (readBlock plainCtx hiddenImage) hiddenMos.metaDnode _ (bodyPtr 2 1 2 10 1) := .top hmem
    rwa [hlevels] at h
  have hchild : slice? (hiddenPtr.encode .little ++ zeros 384) (0 * blkptrSize) (0 * blkptrSize + blkptrSize) =
      some (hiddenPtr.encode .little) := by
    rw [Nat.zero_mul, Nat.zero_add, ← Blkptr.length_encode .little hiddenPtr, slice?_append_left le_rfl]
    exact slice?_self rfl
  have h := Reached.child htop (by decide) readBlock_hiddenImage.2 hchild
  rwa [hendian, Blkptr.parse_encode hiddenPtr_stored] at h

/-- Its block is not all zero, and fails. -/
theorem tampered_hiddenPtr : Tampered plainCtx hiddenImage hiddenPtr := by
  obtain ⟨hmeta, hptr⟩ := length_hiddenParts
  have hfront : (hiddenParts.take 2).flatten.length = 0x600 := by
    rw [hiddenParts, List.take_succ_cons, List.take_succ_cons, List.take_zero, List.flatten_cons, List.flatten_singleton,
      List.length_append, hmeta, hptr]
  have hslice : slice? hiddenImage 0x400600 0x400800 = some hiddenSector := by
    have hpart : hiddenParts[2]? = some hiddenSector := rfl
    rw [hiddenImage, slice?_imageOf 7 _ _ _ (by omega), hiddenBody_eq]
    have hget := bodyGet_part hpart hfront length_hiddenSector
    exact hget
  have hcopy : copyAt hiddenImage hiddenPtr ⟨0, 1, 3, false⟩ = some (0x400600, hiddenSector) :=
    copyAt_eq_some_iff.2 ⟨by decide, by decide, hslice⟩
  have hdvas : hiddenPtr.dvas.toList = [⟨0, 1, 3, false⟩, default, default] := rfl
  refine ⟨0x400600, hiddenSector, ?_, ⟨1, List.mem_cons_self, by decide⟩, fails_hiddenSector plainCtx rfl rfl rfl⟩
  rw [firstCopy, hdvas, List.findSome?_cons, hcopy]

/-- A pointer without a checksum never fails. -/
theorem not_tampered_of_off {Γ : Ctx} {image : Bytes} {bp : Blkptr} (h : bp.checksum = 2) : ¬ Tampered Γ image bp := by
  rintro ⟨_, raw, _, _, hfails⟩
  unfold Blkptr.Fails at hfails
  rw [h] at hfails
  exact absurd hfails (by simp [verify, ChecksumType.fromRaw])

/-- No top pointer of the image fails. -/
theorem not_tampered_hiddenTop : ∀ top ∈ hiddenMos.metaDnode.blkptrs, ¬ Tampered plainCtx hiddenImage top := by
  intro top htop
  rw [parse_hiddenMos.2.1, List.mem_singleton] at htop
  rw [htop]
  exact not_tampered_of_off rfl

/-- The sweep of the image does not cover its tree. -/
theorem sweep_does_not_cover_hidden :
    ¬ ∀ level bp, Reached (readBlock plainCtx hiddenImage) hiddenMos.metaDnode level bp → Tampered plainCtx hiddenImage bp →
      mismatchOf bp ∈ auditImage plainCtx hiddenImage := by
  intro h
  obtain ⟨top, htop, htampered, -⟩ :=
    (sweep_covers_iff plainCtx hiddenImage _ (vdevLabelOf 7 hiddenRoot) _ hiddenMos (slice?_label_imageOf _ _ _)
      (parse_labelOf _ _) readBlock_hiddenImage.1 parse_hiddenMos.1).1 h 0 hiddenPtr reached_hiddenPtr
      (by rw [parse_hiddenMos.2.2.1]; decide) tampered_hiddenPtr
  exact not_tampered_hiddenTop top htop htampered

/-- The label of the image parses, its root block reads and the MOS parses; a reached pointer fails its checksum and is not
reported. -/
theorem auditImage_misses_hidden :
    (∃ l0Bytes l0 mosBlock, slice? hiddenImage 0 labelSize = some l0Bytes ∧ VdevLabel.parse l0Bytes = .ok l0 ∧
        readBlock plainCtx hiddenImage l0.activeUberblock.rootbpFull = .ok mosBlock ∧
        ObjsetPhys.parse mosBlock.data l0.activeUberblock.endian = .ok hiddenMos) ∧
      Reached (readBlock plainCtx hiddenImage) hiddenMos.metaDnode 0 hiddenPtr ∧ Tampered plainCtx hiddenImage hiddenPtr ∧
      mismatchOf hiddenPtr ∉ auditImage plainCtx hiddenImage := by
  refine ⟨⟨_, _, _, slice?_label_imageOf _ _ _, parse_labelOf _ _, readBlock_hiddenImage.1, parse_hiddenMos.1⟩,
    reached_hiddenPtr, tampered_hiddenPtr, fun h => ?_⟩
  obtain ⟨top, htop, htampered, -⟩ := (mismatchOf_mem_auditImage_iff (slice?_label_imageOf _ _ _)
    (parse_labelOf _ _) readBlock_hiddenImage.1 parse_hiddenMos.1 hiddenPtr).1 h
  exact not_tampered_hiddenTop top htop htampered

end ZfsForensic
