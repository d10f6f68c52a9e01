import ZfsForensic.Theorems.Sweep
import ZfsForensic.Recover

/-!
# Where the evidence of a failed checksum lies

The verdict on a swept pointer is about its first copy that lies in the image; the offset reported is that of its first copy that
is not empty, in the image or not. The two are one copy exactly when the first copy that is not empty lies in the image, and
otherwise the offset names bytes that were never read.
-/

namespace ZfsForensic

open Octets Checked

/-- The pointers of the MOS meta-dnode, or none where the image does not open. -/
def metaPointers (Γ : Ctx) (image : Bytes) : List Blkptr :=
  ((openMos Γ image).map (fun m => m.1.metaDnode.blkptrs)).getD []

/-- Whether the on-disk bytes of a pointer at an offset lie in the image and fail its checksum. -/
def Blkptr.FailsAt (Γ : Ctx) (image : Bytes) (bp : Blkptr) (off : Nat) : Prop :=
  ∃ raw, slice? image off (off + bp.psizeBytes) = some raw ∧ bp.Fails Γ raw

/-- The first copy that is not empty. -/
def Blkptr.firstDva (bp : Blkptr) : Option Dva := bp.dvas.toList.find? (fun d => !d.isEmpty)

/-- Whether the first copy that is not empty lies in the image. -/
def Blkptr.FirstDvaInside (image : Bytes) (bp : Blkptr) : Prop :=
  ∃ dva, bp.firstDva = some dva ∧ dva.physicalByteOffset.toNat + bp.psizeBytes ≤ image.length

theorem dvaOffsetOf_of_firstDva {bp : Blkptr} {dva : Dva} (h : bp.firstDva = some dva) :
    dvaOffsetOf bp = dva.physicalByteOffset := by
  rw [Blkptr.firstDva] at h
  rw [dvaOffsetOf, h]

/-- Empty copies are passed over by both loops. -/
theorem findSome?_copyAt_of_find? {image : Bytes} {bp : Blkptr} {dvas : List Dva} {dva : Dva} {c : Nat × Bytes}
    (h : dvas.find? (fun d => !d.isEmpty) = some dva) (hcopy : copyAt image bp dva = some c) :
    dvas.findSome? (copyAt image bp) = some c := by
  induction dvas with
  | nil => exact absurd h (by simp)
  | cons d dvas ih =>
    rw [List.findSome?_cons]
    rw [List.find?_cons] at h
    cases hempty : d.isEmpty with
    | true =>
      rw [hempty] at h
      rw [copyAt, if_pos hempty]
      exact ih h
    | false =>
      rw [hempty] at h
      simp only [Bool.not_false, Option.some.injEq] at h
      rw [h, hcopy]

/-- A pointer with a copy in the image has one that is not empty. -/
theorem firstDva_of_firstCopy {image : Bytes} {bp : Blkptr} {c : Nat × Bytes} (h : firstCopy image bp = some c) :
    ∃ dva, bp.firstDva = some dva := by
  rw [← Option.ne_none_iff_exists']
  intro hnone
  rw [Blkptr.firstDva, List.find?_eq_none] at hnone
  rw [firstCopy_eq_none_of_isEmpty image (fun d hd => by simpa using hnone d hd)] at h
  exact absurd h (by simp)

/-- A pointer that fails does so at the offset reported of it exactly where its first copy that is not empty lies in the image. -/
theorem failsAt_iff_firstDvaInside {Γ : Ctx} {image : Bytes} {bp : Blkptr} (himage : image.length < 2 ^ 63)
    (htampered : Tampered Γ image bp) : bp.FailsAt Γ image (dvaOffsetOf bp).toNat ↔ bp.FirstDvaInside image := by
  obtain ⟨phys, raw, hfirst, -, hfails⟩ := htampered
  constructor
  · rintro ⟨raw', hslice, -⟩
    obtain ⟨dva, hdva⟩ := firstDva_of_firstCopy hfirst
    rw [dvaOffsetOf_of_firstDva hdva] at hslice
    exact ⟨dva, hdva, (slice?_eq_some_iff.1 hslice).2.1⟩
  · rintro ⟨dva, hdva, hle⟩
    have hsat : satAdd dva.physicalByteOffset.toNat bp.psizeBytes = dva.physicalByteOffset.toNat + bp.psizeBytes :=
      satAdd_eq (by omega)
    have hempty : dva.isEmpty = false := by simpa using List.find?_some hdva
    have hslice := slice?_of_le (Nat.le_add_right dva.physicalByteOffset.toNat bp.psizeBytes) hle
    have hcopy := copyAt_eq_some_iff.2 ⟨hempty, rfl, hsat ▸ hslice⟩
    have hsame := findSome?_copyAt_of_find? hdva hcopy
    rw [← firstCopy, hfirst, Option.some.injEq, Prod.mk.injEq] at hsame
    refine ⟨raw, ?_, hfails⟩
    rw [dvaOffsetOf_of_firstDva hdva, hslice, hsame.2, hsat]

/-- An audit reports failed checksums of the meta-dnode's pointers only. -/
theorem mismatch_mem_iff (Γ : Ctx) (image : Bytes) (off : UInt64) (type : UInt8) :
    Anomaly.new (.blkptrChecksumMismatch off type) ∈ auditImage Γ image ↔
      ∃ top ∈ metaPointers Γ image, Tampered Γ image top ∧ dvaOffsetOf top = off ∧ top.objectType = type := by
  unfold metaPointers
  cases hbytes : slice? image 0 labelSize with
  | none => simp [auditImage, openMos, hbytes]
  | some l0Bytes =>
    cases hlabel : VdevLabel.parse l0Bytes with
    | error e => simp [auditImage, openMos, hbytes, hlabel]
    | ok l0 =>
      have hopen := @openMos_of_label Γ _ _ _ hbytes hlabel
      cases hread : readBlock Γ image l0.activeUberblock.rootbpFull with
      | error e =>
        rw [hread] at hopen
        rw [mem_auditImage_iff_sweep hbytes hlabel rfl]
        simp [sweepReachableBlkptrs, hread, hopen]
      | ok block =>
        cases hparse : ObjsetPhys.parse block.data l0.activeUberblock.endian with
        | error e =>
          rw [hread] at hopen
          simp only [hparse] at hopen
          rw [mem_auditImage_iff_sweep hbytes hlabel rfl]
          simp [sweepReachableBlkptrs, hread, hparse, hopen]
        | ok mos =>
          rw [hread] at hopen
          simp only [hparse] at hopen
          rw [hopen]
          exact mismatch_mem_auditImage_iff hbytes hlabel hread hparse off type

/-- Every reported offset points at bytes in the image that fail the checksum of some pointer of the meta-dnode. -/
def EvidencePoints (Γ : Ctx) (image : Bytes) : Prop :=
  ∀ off type, Anomaly.new (.blkptrChecksumMismatch off type) ∈ auditImage Γ image →
    ∃ bp ∈ metaPointers Γ image, bp.FailsAt Γ image off.toNat

/-- The first copy that is not empty lies in the image, of every pointer that fails. -/
def FirstDvasInside (Γ : Ctx) (image : Bytes) : Prop :=
  ∀ top ∈ metaPointers Γ image, Tampered Γ image top → top.FirstDvaInside image

/-- Every reported offset points at bytes that fail where, of every pointer that fails, the first copy that is not empty lies in the
image. For the pointer reported this is exact; another can fail at the offset of one whose copy does not lie there only if it names
fewer bytes. -/
theorem evidence_points_at_failure (Γ : Ctx) (image : Bytes) (himage : image.length < 2 ^ 63) :
    (FirstDvasInside Γ image → EvidencePoints Γ image) ∧
      (∀ top ∈ metaPointers Γ image, Tampered Γ image top →
        (top.FailsAt Γ image (dvaOffsetOf top).toNat ↔ top.FirstDvaInside image)) ∧
      ((∀ top ∈ metaPointers Γ image, Tampered Γ image top → ∀ bp ∈ metaPointers Γ image, top.psizeBytes ≤ bp.psizeBytes) →
        EvidencePoints Γ image → FirstDvasInside Γ image) := by
  refine ⟨fun h off type hmem => ?_, fun top _ htampered => failsAt_iff_firstDvaInside himage htampered,
    fun hsize h top htop htampered => ?_⟩
  · obtain ⟨top, htop, htampered, rfl, rfl⟩ := (mismatch_mem_iff Γ image off type).1 hmem
    exact ⟨top, htop, (failsAt_iff_firstDvaInside himage htampered).2 (h top htop htampered)⟩
  · obtain ⟨bp, hbp, raw, hslice, -⟩ := h _ _ ((mismatch_mem_iff Γ image _ _).2 ⟨top, htop, htampered, rfl, rfl⟩)
    have hshort := hsize top htop htampered bp hbp
    obtain ⟨phys, raw', hfirst, -, -⟩ := htampered
    obtain ⟨dva, hdva⟩ := firstDva_of_firstCopy hfirst
    rw [dvaOffsetOf_of_firstDva hdva] at hslice
    have hle := (slice?_eq_some_iff.1 hslice).2.1
    exact ⟨dva, hdva, by omega⟩

/-! ## A copy past the end of the image

The objset of these images has the pointers given, and behind it lies one sector, whose checksum fails. The image ends with it.
-/

/-- The meta-dnode over some pointers. -/
def metaOver (ptrs : List Blkptr) : Dnode :=
  { (default : Dnode) with
    dnType := 10
    dnIndblkshift := 9
    dnNlevels := 1
    dnNblkptr := UInt8.ofNat ptrs.length
    dnDatablkszsec := 1
    blkptrs := ptrs }

/-- The objset, in two sectors, and the sector. -/
def partsOver (ptrs : List Blkptr) : List Bytes := [(metaOver ptrs).encode .little ++ zeros 512, hiddenSector]

/-- The image. -/
def imageOver (ptrs : List Blkptr) : Bytes := imageOf 7 hiddenRoot (partsOver ptrs).flatten

section Over

variable {ptrs : List Blkptr} (hstored : ∀ p ∈ ptrs, p.Stored) (hlen : ptrs.length ≤ 3)
include hstored hlen

theorem metaOver_stored : (metaOver ptrs).Stored := by
  have hcore : dnodeCoreSize = 64 ∧ blkptrSize = 128 ∧ dnodeSize = 512 := ⟨rfl, rfl, rfl⟩
  have hptrs : (metaOver ptrs).blkptrs = ptrs := rfl
  have hbonus : (metaOver ptrs).bonus.length = 0 := rfl
  have hcount : (UInt8.ofNat ptrs.length).toNat = ptrs.length := by
    rw [UInt8.toNat_ofNat']
    omega
  exact ⟨rfl, hcount, hstored, rfl, by rw [hptrs, hbonus, hcore.1, hcore.2.1, hcore.2.2]; omega⟩

theorem length_metaOver : ((metaOver ptrs).encode .little ++ zeros 512).length = 1024 := by
  rw [List.length_append, Dnode.length_encode .little (metaOver_stored hstored hlen), length_zeros]
  rfl

theorem length_imageOver : (imageOver ptrs).length = 0x400600 := by
  rw [imageOver, imageOf, List.length_append, length_frontOf, partsOver, List.flatten_cons, List.flatten_singleton, List.length_append,
    length_metaOver hstored hlen, length_hiddenSector]

theorem metaPointers_imageOver : metaPointers plainCtx (imageOver ptrs) = ptrs := by
  have hroot : (Blkptr.parse hiddenRoot.toList .little).names 0 1024 = true := by decide +kernel
  have hfront : ((partsOver ptrs).take 0).flatten.length = 0 := rfl
  have hread : bodyDisk plainCtx (partsOver ptrs).flatten (Blkptr.parse hiddenRoot.toList .little) =
      .ok ⟨(metaOver ptrs).encode .little ++ zeros 512, none, 0⟩ :=
    bodyDisk_of_names plainCtx rfl hfront (length_metaOver hstored hlen) hroot (by decide)
  have hobjset := (length_metaOver hstored hlen).ge
  have hmeta := metaDnode_of_parse (parse_objsetOf hobjset)
  rw [Dnode.parse_encode_append .little (metaOver_stored hstored hlen), Option.some.injEq] at hmeta
  rw [metaPointers, imageOver, openMos_imageOf, openBody_of_read hread hobjset, Option.map_some, Option.getD_some, ← hmeta]
  rfl

/-- The sector behind the objset. -/
theorem slice?_imageOver : slice? (imageOver ptrs) 0x400400 0x400600 = some hiddenSector := by
  have hfront : ((partsOver ptrs).take 1).flatten.length = 0x400 := by
    rw [partsOver, List.take_succ_cons, List.take_zero, List.flatten_singleton, length_metaOver hstored hlen]
  have hpart : (partsOver ptrs)[1]? = some hiddenSector := rfl
  have hget := bodyGet_part hpart hfront length_hiddenSector
  rw [imageOver, slice?_imageOf 7 _ _ _ (by omega)]
  exact hget

/-- The sector before it: zeros. -/
theorem slice?_imageOver_wide : slice? (imageOver ptrs) 0x400200 0x400600 = some (zeros 512 ++ hiddenSector) := by
  have hsplit : (partsOver ptrs).flatten = [(metaOver ptrs).encode .little, zeros 512 ++ hiddenSector].flatten := by
    rw [partsOver, List.flatten_cons, List.flatten_singleton, List.flatten_cons, List.flatten_singleton, List.append_assoc]
  have hfront : ([(metaOver ptrs).encode .little, zeros 512 ++ hiddenSector].take 1).flatten.length = 0x200 := by
    rw [List.take_succ_cons, List.take_zero, List.flatten_singleton, Dnode.length_encode .little (metaOver_stored hstored hlen)]
    rfl
  have hwide : (zeros 512 ++ hiddenSector).length = 0x400 := by rw [List.length_append, length_zeros, length_hiddenSector]
  have hpart : [(metaOver ptrs).encode .little, zeros 512 ++ hiddenSector][1]? = some (zeros 512 ++ hiddenSector) := rfl
  have hget := bodyGet_part hpart hfront hwide
  rw [imageOver, slice?_imageOf 7 _ _ _ (by omega), hsplit]
  exact hget

/-- No bytes lie behind the sector. -/
theorem copyAt_imageOver_far {bp : Blkptr} {dva : Dva} (hempty : dva.isEmpty = false)
    (hfar : 0x400600 < satAdd dva.physicalByteOffset.toNat bp.psizeBytes) : copyAt (imageOver ptrs) bp dva = none := by
  rw [copyAt, hempty, if_neg Bool.false_ne_true, slice?_eq_none_of_lt (by rw [length_imageOver hstored hlen]; exact hfar), Option.map_none]

end Over

/-- A pointer to the sector: fletcher4 with sums of zero. -/
def endPtr : Blkptr := bodyPtr 2 1 7 10 0

/-- The same with an empty copy before the one that names it. -/
def skipPtr : Blkptr := { endPtr with dvas := #v[default, ⟨0, 1, 2, false⟩, default] }

/-- A pointer whose first copy lies behind the end of the image, and whose second is the sector. -/
def strayPtr : Blkptr := { endPtr with dvas := #v[⟨0, 1, 64, false⟩, ⟨0, 1, 2, false⟩, default] }

/-- A pointer of two sectors whose first copy starts with the last sector of the image, and whose second ends with it. -/
def longPtr : Blkptr := { bodyPtr 1 2 7 10 0 with dvas := #v[⟨0, 2, 2, false⟩, ⟨0, 2, 1, false⟩, default] }

theorem endPtr_stored : endPtr.Stored := bodyPtr_stored 7 10 (by decide) (by decide) (by decide)

theorem skipPtr_stored : skipPtr.Stored := by
  refine ⟨rfl, fun d hd => ?_, endPtr_stored.lsize, endPtr_stored.psize, endPtr_stored.compression, endPtr_stored.level, rfl,
    rfl, rfl⟩
  have hcases : d = ⟨0, 1, 2, false⟩ ∨ d = default := by simpa [skipPtr, or_comm] using hd
  rcases hcases with rfl | rfl <;> exact ⟨by decide, by decide, by decide⟩

theorem strayPtr_stored : strayPtr.Stored := by
  refine ⟨rfl, fun d hd => ?_, endPtr_stored.lsize, endPtr_stored.psize, endPtr_stored.compression, endPtr_stored.level, rfl,
    rfl, rfl⟩
  have hcases : d = ⟨0, 1, 64, false⟩ ∨ d = ⟨0, 1, 2, false⟩ ∨ d = default := by simpa [strayPtr] using hd
  rcases hcases with rfl | rfl | rfl <;> exact ⟨by decide, by decide, by decide⟩

theorem longPtr_stored : longPtr.Stored := by
  have h : (bodyPtr 1 2 7 10 0).Stored := bodyPtr_stored 7 10 (by decide) (by decide) (by decide)
  refine ⟨rfl, fun d hd => ?_, h.lsize, h.psize, h.compression, h.level, rfl, rfl, rfl⟩
  have hcases : d = ⟨0, 2, 2, false⟩ ∨ d = ⟨0, 2, 1, false⟩ ∨ d = default := by simpa [longPtr] using hd
  rcases hcases with rfl | rfl | rfl <;> exact ⟨by decide, by decide, by decide⟩

section Copies

variable {ptrs : List Blkptr} (hstored : ∀ p ∈ ptrs, p.Stored) (hlen : ptrs.length ≤ 3)
include hstored hlen

theorem tampered_skipPtr : Tampered plainCtx (imageOver ptrs) skipPtr := by
  have hempty : copyAt (imageOver ptrs) skipPtr default = none := if_pos rfl
  have hcopy : copyAt (imageOver ptrs) skipPtr ⟨0, 1, 2, false⟩ = some (0x400400, hiddenSector) :=
    copyAt_eq_some_iff.2 ⟨by decide, by decide, slice?_imageOver hstored hlen⟩
  have hdvas : skipPtr.dvas.toList = [default, ⟨0, 1, 2, false⟩, default] := rfl
  refine ⟨0x400400, hiddenSector, ?_, ⟨1, List.mem_cons_self, by decide⟩, fails_hiddenSector plainCtx rfl rfl rfl⟩
  rw [firstCopy, hdvas, List.findSome?_cons, hempty, List.findSome?_cons, hcopy]

/-- The second copy is read, and fails. -/
theorem tampered_strayPtr : Tampered plainCtx (imageOver ptrs) strayPtr := by
  have hfar : copyAt (imageOver ptrs) strayPtr ⟨0, 1, 64, false⟩ = none :=
    copyAt_imageOver_far hstored hlen rfl (by decide)
  have hcopy : copyAt (imageOver ptrs) strayPtr ⟨0, 1, 2, false⟩ = some (0x400400, hiddenSector) :=
    copyAt_eq_some_iff.2 ⟨by decide, by decide, slice?_imageOver hstored hlen⟩
  have hdvas : strayPtr.dvas.toList = [⟨0, 1, 64, false⟩, ⟨0, 1, 2, false⟩, default] := rfl
  refine ⟨0x400400, hiddenSector, ?_, ⟨1, List.mem_cons_self, by decide⟩, fails_hiddenSector plainCtx rfl rfl rfl⟩
  rw [firstCopy, hdvas, List.findSome?_cons, hfar, List.findSome?_cons, hcopy]

theorem tampered_longPtr : Tampered plainCtx (imageOver ptrs) longPtr := by
  have hfar : copyAt (imageOver ptrs) longPtr ⟨0, 2, 2, false⟩ = none :=
    copyAt_imageOver_far hstored hlen rfl (by decide)
  have hcopy : copyAt (imageOver ptrs) longPtr ⟨0, 2, 1, false⟩ = some (0x400200, zeros 512 ++ hiddenSector) :=
    copyAt_eq_some_iff.2 ⟨by decide, by decide, slice?_imageOver_wide hstored hlen⟩
  have hdvas : longPtr.dvas.toList = [⟨0, 2, 2, false⟩, ⟨0, 2, 1, false⟩, default] := rfl
  have hword : fletcher4Word (zeros 512 ++ hiddenSector) .little 128 ≠ 0 := by decide +kernel
  have hwide : (zeros 512 ++ hiddenSector).length = 1024 := by rw [List.length_append, length_zeros, length_hiddenSector]
  refine ⟨0x400200, zeros 512 ++ hiddenSector, ?_, ⟨1, List.mem_append_right _ List.mem_cons_self, by decide⟩,
    verify_fletcher4_zero plainCtx (by omega) (i := 128) (by omega) hword⟩
  rw [firstCopy, hdvas, List.findSome?_cons, hfar, List.findSome?_cons, hcopy]

end Copies

theorem stored_skip : (∀ p ∈ [skipPtr, endPtr], p.Stored) ∧ [skipPtr, endPtr].length ≤ 3 := by
  refine ⟨fun p hp => ?_, by decide⟩
  rcases List.mem_cons.1 hp with rfl | hp
  · exact skipPtr_stored
  · exact List.mem_singleton.1 hp ▸ endPtr_stored

theorem stored_stray : (∀ p ∈ [strayPtr], p.Stored) ∧ [strayPtr].length ≤ 3 :=
  ⟨fun _ hp => List.mem_singleton.1 hp ▸ strayPtr_stored, by decide⟩

theorem stored_long : (∀ p ∈ [longPtr, endPtr], p.Stored) ∧ [longPtr, endPtr].length ≤ 3 := by
  refine ⟨fun p hp => ?_, by decide⟩
  rcases List.mem_cons.1 hp with rfl | hp
  · exact longPtr_stored
  · exact List.mem_singleton.1 hp ▸ endPtr_stored

/-- The audit of an image with the stray pointer reports an offset at which no pointer of the meta-dnode has bytes. -/
theorem auditImage_reports_stray :
    Anomaly.new (.blkptrChecksumMismatch 0x408000 10) ∈ auditImage plainCtx (imageOver [strayPtr]) ∧
      ¬ ∃ bp ∈ metaPointers plainCtx (imageOver [strayPtr]), bp.FailsAt plainCtx (imageOver [strayPtr]) (0x408000 : UInt64).toNat := by
  obtain ⟨hstored, hlen⟩ := stored_stray
  constructor
  · rw [mismatch_mem_iff, metaPointers_imageOver hstored hlen]
    exact ⟨strayPtr, List.mem_singleton_self _, tampered_strayPtr hstored hlen, by decide, rfl⟩
  · rintro ⟨bp, -, raw, hslice, -⟩
    have hle := (slice?_eq_some_iff.1 hslice).2.1
    rw [length_imageOver hstored hlen] at hle
    have hoff : (0x408000 : UInt64).toNat = 0x408000 := rfl
    omega

/-- Of an image whose pointers name the sector first, an empty copy apart, the offset reported is the sector's. -/
theorem evidence_sector :
    Anomaly.new (.blkptrChecksumMismatch 0x400400 10) ∈ auditImage plainCtx (imageOver [skipPtr, endPtr]) ∧
      EvidencePoints plainCtx (imageOver [skipPtr, endPtr]) := by
  obtain ⟨hstored, hlen⟩ := stored_skip
  have hmeta := metaPointers_imageOver hstored hlen
  have hbound : (imageOver [skipPtr, endPtr]).length < 2 ^ 63 := by
    rw [length_imageOver hstored hlen]
    omega
  constructor
  · rw [mismatch_mem_iff, hmeta]
    exact ⟨skipPtr, List.mem_cons_self, tampered_skipPtr hstored hlen, by decide, rfl⟩
  · refine (evidence_points_at_failure plainCtx _ hbound).1 fun top htop _ => ?_
    rw [Blkptr.FirstDvaInside, length_imageOver hstored hlen]
    rw [hmeta] at htop
    rcases List.mem_cons.1 htop with rfl | htop
    · exact ⟨⟨0, 1, 2, false⟩, rfl, by decide⟩
    · rw [List.mem_singleton.1 htop]
      exact ⟨⟨0, 1, 2, false⟩, rfl, by decide⟩

/-- The long pointer is reported at the offset of the sector, where it has no bytes in the image, but the short one fails. -/
theorem evidence_coincides :
    EvidencePoints plainCtx (imageOver [longPtr, endPtr]) ∧ ¬ FirstDvasInside plainCtx (imageOver [longPtr, endPtr]) := by
  obtain ⟨hstored, hlen⟩ := stored_long
  have hmeta := metaPointers_imageOver hstored hlen
  constructor
  · intro off type hmem
    obtain ⟨top, htop, -, rfl, -⟩ := (mismatch_mem_iff plainCtx _ off type).1 hmem
    have hoff : dvaOffsetOf top = 0x400400 := by
      rw [hmeta] at htop
      rcases List.mem_cons.1 htop with rfl | htop
      · decide
      · rw [List.mem_singleton.1 htop]
        decide
    refine ⟨endPtr, by rw [hmeta]; exact List.mem_cons_of_mem _ (List.mem_singleton_self _), hiddenSector, ?_,
      fails_hiddenSector plainCtx rfl rfl rfl⟩
    rw [hoff]
    exact slice?_imageOver hstored hlen
  · intro h
    obtain ⟨dva, hdva, hle⟩ := h longPtr (by rw [hmeta]; exact List.mem_cons_self) (tampered_longPtr hstored hlen)
    obtain rfl : (⟨0, 2, 2, false⟩ : Dva) = dva := Option.some.inj hdva
    rw [length_imageOver hstored hlen] at hle
    exact absurd hle (by decide)

end ZfsForensic
