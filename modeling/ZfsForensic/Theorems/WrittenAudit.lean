import ZfsForensic.Audit
import ZfsForensic.Lemmas.PoolReads
import ZfsForensic.Lemmas.SmallPool

/-!
# A written pool is clean

The auditor reports nothing of a pool as it was written: the root pointer and the pointers it sweeps name blocks with their sums, and the four
labels are one.
-/

namespace ZfsForensic

open Octets Checked

/-! ## Pointers -/

/-- A pointer that is a hole, or names the packed bytes of a block where they lie. -/
def Packer.Laid {Γ : Ctx} (P : Packer Γ) (image : Bytes) (p : Blkptr) : Prop :=
  p.isHole = true ∨ ∃ sector objectType level data, p = P.blockPtr sector objectType level data ∧ Whole data ∧ sector < 2 ^ 50 ∧
    Part image (0x400000 + 512 * sector) (P.pack data)

section Pointers

variable {Γ : Ctx} (P : Packer Γ) {image : Bytes}

/-- The verdict on a block that lies where its pointer says. -/
theorem Packer.verdict_blockPtr {sector : Nat} (objectType level : UInt8) {data : Bytes} (h : Whole data) (hsector : sector < 2 ^ 50)
    (hpart : Part image (0x400000 + 512 * sector) (P.pack data)) :
    blkptrChecksumVerdict Γ image (P.blockPtr sector objectType level data) = if allZero (P.pack data) then .unreadable else .ok := by
  have hlsize : (P.blockPtr sector objectType level data).lsizeBytes = data.length := lsizeBytes_of_sectors rfl h rfl
  have hpsize : (P.blockPtr sector objectType level data).psizeBytes = (P.pack data).length :=
    psizeBytes_of_sectors rfl (P.whole data h) rfl
  have hembedded : (P.blockPtr sector objectType level data).embedded = false := rfl
  have hdvas : (P.blockPtr sector objectType level data).dvas.toList =
      [⟨0, UInt32.ofNat (sectorsOf (P.pack data)), UInt64.ofNat sector, false⟩, default, default] := rfl
  have hkind : isUnchecked (ChecksumType.fromRaw (P.blockPtr sector objectType level data).checksum) = false := rfl
  have hverify : verify Γ (ChecksumType.fromRaw (P.blockPtr sector objectType level data).checksum)
      (P.blockPtr sector objectType level data).byteorder (P.pack data) (P.blockPtr sector objectType level data).checksumWords = some true :=
    congrArg some (beq_self_eq_true (fletcher4 (P.pack data) .little))
  have hcap := h.le_maxBlockSize
  have hpacked := (P.whole data h).le_maxBlockSize.1
  have hmax : maxBlockSize = 33554432 := rfl
  have hskip : ((P.blockPtr sector objectType level data).embedded || (P.blockPtr sector objectType level data).isHole) = false := by
    rw [hembedded, P.isHole_blockPtr objectType level h, Bool.false_or]
  rw [blkptrChecksumVerdict, if_neg (by rw [hskip]; exact Bool.false_ne_true)]
  dsimp only
  rw [hlsize, if_neg (by omega), if_neg (by rw [hkind]; exact Bool.false_ne_true), hdvas, verdictDvas, if_neg (by rw [P.isEmpty_dva h]; decide)]
  dsimp only
  rw [physicalByteOffset_of_sector hsector, hpsize, satAdd_eq (by omega), hpart]
  dsimp only
  rw [verdictRaw, hverify]
  rfl

theorem Packer.Laid.clean {p : Blkptr} (h : P.Laid image p) : sweepBlkptr Γ image p = [] := by
  rcases h with hhole | ⟨sector, objectType, level, data, rfl, hwhole, hsector, hpart⟩
  · rw [sweepBlkptr, hhole, Bool.or_true, if_pos rfl]
  · rw [sweepBlkptr, P.verdict_blockPtr objectType level hwhole hsector hpart]
    split
    · rfl
    · split <;> split <;> first | rfl | contradiction

theorem Packer.laid_recordPtrs (objectType : UInt8) {records : List Bytes} (hwhole : ∀ r ∈ records, Whole r) {sector : Nat}
    (hpart : Part image (0x400000 + 512 * sector) (P.recordsBytes records)) (hfits : sector + sectorsOf (P.recordsBytes records) < 2 ^ 50) :
    ∀ p ∈ P.recordPtrs objectType sector records, P.Laid image p := by
  have hall : List.Forall₂ (fun p (_ : Bytes) => P.Laid image p) (P.recordPtrs objectType sector records) records := by
    refine forall₂_ptrsFrom (fun r hr => P.sectored_recordBytes (hwhole r hr)) (fun r hr s hs hr' => ?_) hpart hfits
    unfold recordPtr
    unfold recordBytes at hr'
    split
    · exact Or.inl rfl
    · rename_i hzero
      rw [if_neg hzero] at hr'
      exact Or.inr ⟨s, objectType, 0, r, rfl, hwhole r hr, by omega, hr'⟩
  exact forall_of_forall₂ hall fun _ _ h => h

/-- The pointers of every level are laid. -/
theorem Packer.laid_raise (objectType : UInt8) (n level : Nat) {sector : Nat} {ptrs : List Blkptr} (h : ∀ p ∈ ptrs, P.Laid image p)
    (hpart : Part image (0x400000 + 512 * sector) (P.raise objectType n level sector ptrs).1)
    (hfits : sector + sectorsOf (P.raise objectType n level sector ptrs).1 < 2 ^ 50) :
    ∀ p ∈ (P.raise objectType n level sector ptrs).2, P.Laid image p := by
  induction n generalizing level sector ptrs with
  | zero => exact h
  | succ n ih =>
    have hblocks := P.sectored_indirectBlocks ptrs
    rw [raise] at hpart hfits
    rw [(hblocks.append (P.sectored_raise _ _ _ _ _)).2] at hfits
    refine ih (level + 1) ?_ (part_behind hblocks hpart) (by omega)
    have hall : List.Forall₂ (fun p (_ : Bytes) => P.Laid image p) (P.indirectPtrs objectType (level + 1) sector (indirectBlocks ptrs))
        (indirectBlocks ptrs) := by
      refine forall₂_ptrsFrom (fun b hb => (P.whole b (whole_of_mem_indirectBlocks hb)).sectored) (fun b hb s hs hb' => ?_) hpart.left
        (by omega)
      exact Or.inr ⟨s, objectType, _, b, rfl, whole_of_mem_indirectBlocks hb, by omega, hb'⟩
    exact forall_of_forall₂ hall fun _ _ h => h

/-- The top pointers of a written object are laid. -/
theorem Packer.WrittenAt.laid {sector : Nat} {o : DmuObject} (h : P.WrittenAt image sector o) :
    ∀ p ∈ (P.dnodeAt sector o).blkptrs, P.Laid image p := by
  have hfits := h.fits
  rw [(P.sectored_writeObject sector o).2] at hfits
  refine P.laid_raise o.type o.height 0 ?_ (part_behind (P.sectored_recordsBytes o) h.part) (by rw [levelsAt] at hfits; omega)
  exact P.laid_recordPtrs o.type (fun _ hr => o.whole hr) h.part.left (by omega)

/-- The pointer to an object set is laid. -/
theorem Packer.ObjsetAt.laid {sector : Nat} {os : DmuObjset} (h : P.ObjsetAt image sector os) : P.Laid image (P.objsetPtr sector os) := by
  have hfits := h.fits
  have hfront := (P.sectored_writeObjects sector os.objects).append (P.sectored_writeObject (P.arraySector sector os) (P.arrayObject sector os)).1
  have hpart := part_behind hfront.1 h.part
  have hsum := hfront.2
  have harray : P.writeArray sector os = P.writeObject (P.arraySector sector os) (P.arrayObject sector os) := rfl
  rw [(P.sectored_writeObjset sector os).2, harray] at hfits
  have hsector : P.objsetSector sector os = sector + sectorsOf (P.writeObjects sector os.objects ++
      P.writeObject (P.arraySector sector os) (P.arrayObject sector os)) := by
    have harr : P.arraySector sector os = sector + sectorsOf (P.writeObjects sector os.objects) := rfl
    rw [hsum, objsetSector, harray]
    omega
  refine Or.inr ⟨P.objsetSector sector os, 11, 0, _, rfl, P.whole_objsetBlock sector os, by omega, ?_⟩
  rw [hsector]
  exact hpart

end Pointers

/-! ## Labels -/

section Labels

variable {Γ : Ctx} (P : Packer Γ) {image : Bytes} {pool : Pool}

/-- The identity of every label is that of the configuration. -/
theorem Packer.PoolAt.labelIdentity (h : P.PoolAt image pool) {off : Nat} (hoff : off ∈ labelOffsetList image) :
    labelIdentity image off = (NvList.getU64 pool.config.tree (ascii "pool_guid")).map fun guid =>
      (guid, (NvList.getU64 pool.config.tree (ascii "txg")).getD 0, ((NvList.vdevTree pool.config.tree).map VdevTree.ashift).getD 0) := by
  obtain ⟨hbytes, hparse⟩ := h.parse_label P hoff
  have hend := (h.labels off hoff).end_le
  have hsize := h.size
  have hconfig : (P.labelAt pool).parsed.config = pool.config.tree := rfl
  rw [labelIdentity_of_parse (by omega) hbytes hparse, hconfig]

/-- No label diverges from the front one. -/
theorem labelDivergence_of_identity {baseGuid baseAshift txg : UInt64} (idx : Nat) {off : Nat}
    (h : ZfsForensic.labelIdentity image off = some (baseGuid, txg, baseAshift)) : labelDivergence image baseGuid baseAshift idx off = [] := by
  rw [labelDivergence, h]
  dsimp only
  rw [if_neg (fun hne => hne rfl), if_neg (fun hne => hne rfl), List.append_nil]

/-- The labels of a pool do not diverge. -/
theorem Packer.PoolAt.checkLabelDivergence (h : P.PoolAt image pool) (hwhole : 4 * labelSize ≤ image.length)
    (hoffs : labelSize ∈ labelOffsetList image ∧ image.length - 2 * labelSize ∈ labelOffsetList image ∧
      image.length - labelSize ∈ labelOffsetList image) : checkLabelDivergence image (P.labelAt pool).parsed = [] := by
  have hconfig : (P.labelAt pool).parsed.config = pool.config.tree := rfl
  rw [ZfsForensic.checkLabelDivergence, hconfig]
  cases hguid : NvList.getU64 pool.config.tree (ascii "pool_guid") with
  | none => rfl
  | some guid =>
    have hidentity : ∀ off ∈ labelOffsetList image, ZfsForensic.labelIdentity image off =
        some (guid, (NvList.getU64 pool.config.tree (ascii "txg")).getD 0, ((NvList.vdevTree pool.config.tree).map VdevTree.ashift).getD 0) := by
      intro off hoff
      rw [h.labelIdentity P hoff, hguid, Option.map_some]
    dsimp only
    rw [if_neg (Nat.not_lt.2 hwhole), hidentity _ hoffs.2.2, Option.isNone_some, if_neg Bool.false_ne_true,
      labelDivergence_of_identity 1 (hidentity _ hoffs.1), labelDivergence_of_identity 2 (hidentity _ hoffs.2.1),
      labelDivergence_of_identity 3 (hidentity _ hoffs.2.2)]
    rfl

end Labels

/-- An audit is the checks of the front label. -/
theorem auditImage_of_label {Γ : Ctx} {image bytes : Bytes} {label : VdevLabel} (hbytes : slice? image 0 labelSize = some bytes)
    (hparse : VdevLabel.parse bytes = .ok label) : auditImage Γ image =
      checkUberblockRootbp Γ image label ++ checkLabelDivergence image label ++ sweepReachableBlkptrs Γ image label := by
  rw [auditImage, hbytes]
  dsimp only
  rw [hparse]

section Checks

variable {Γ : Ctx} (P : Packer Γ) {image : Bytes} {pool : Pool}

/-- The root pointer of a pool is sound. -/
theorem Packer.BodyAt.checkUberblockRootbp (h : P.BodyAt image pool) : checkUberblockRootbp Γ image (P.labelAt pool).parsed = [] := by
  have hroot : (P.labelAt pool).parsed.activeUberblock.rootbpFull = P.objsetPtr (P.mosSector pool) (P.mos pool) :=
    (h.uberblock P).2.2.1
  rw [ZfsForensic.checkUberblockRootbp, hroot]
  rcases h.mos.laid P with hhole | ⟨sector, objectType, level, data, hptr, hwhole, hsector, hpart⟩
  · rw [blkptrChecksumVerdict, hhole, Bool.or_true, if_pos rfl]
  · rw [hptr, P.verdict_blockPtr objectType level hwhole hsector hpart]
    cases allZero (P.pack data) <;> rfl

/-- The sweep of a pool finds nothing: the pointers it follows are those of the MOS. -/
theorem Packer.BodyAt.sweepReachableBlkptrs (h : P.BodyAt image pool) : sweepReachableBlkptrs Γ image (P.labelAt pool).parsed = [] := by
  have hroot : (P.labelAt pool).parsed.activeUberblock.rootbpFull = P.objsetPtr (P.mosSector pool) (P.mos pool) :=
    (h.uberblock P).2.2.1
  have hendian : (P.labelAt pool).parsed.activeUberblock.endian = .little := rfl
  obtain ⟨⟨-, hread⟩, hobjset⟩ := h.mos.read
  rw [ZfsForensic.sweepReachableBlkptrs, hroot, hendian, hread]
  dsimp only
  rw [hobjset]
  dsimp only
  refine List.flatMap_eq_nil_iff.2 fun p hp => ?_
  exact Packer.Laid.clean P ((h.mos.array P).laid P p (List.mem_of_mem_take hp))

end Checks

/-- The auditor reports nothing of a written pool. -/
theorem auditImage_writePool {Γ : Ctx} (P : Packer Γ) (pool : Pool) (hsize : (P.writePool pool).length < 2 ^ 59) :
    auditImage Γ (P.writePool pool) = [] := by
  have hat := P.poolAt_writePool hsize
  obtain ⟨hbytes, hparse⟩ := hat.parse_label P (zero_mem_labelOffsetList _)
  rw [Nat.zero_add] at hbytes
  have hlabel : labelSize = 262144 := rfl
  have htotal := P.length_writePool (hat.body.label_stored P).length_encode
  have hlabels : checkLabelDivergence (P.writePool pool) (P.labelAt pool).parsed = [] := by
    refine hat.checkLabelDivergence P (by omega) ?_
    rw [labelOffsetList, labelOffsets, if_pos (by omega)]
    exact ⟨List.mem_cons_of_mem _ List.mem_cons_self, List.mem_cons_of_mem _ (List.mem_cons_of_mem _ List.mem_cons_self),
      List.mem_cons_of_mem _ (List.mem_cons_of_mem _ (List.mem_cons_of_mem _ List.mem_cons_self))⟩
  rw [auditImage_of_label hbytes hparse, hat.body.checkUberblockRootbp P, hlabels, hat.body.sweepReachableBlkptrs P]
  rfl

/-- Nothing is reported of the small pool. -/
theorem auditImage_smallPool : auditImage plainCtx ((Packer.stored plainCtx).writePool smallPool) = [] :=
  auditImage_writePool (Packer.stored plainCtx) smallPool (length_smallPool _)

end ZfsForensic
