import ZfsForensic.Theorems.Readers

/-!
# The reported size and the readable bytes

The metadata of an object takes its size from the attributes, and zero where they do not decode. Its default stream is the visited
blocks, cut at that size where the attributes decode and whole where they do not. So the two agree where the blocks reach the size, and
not for an object without attributes that has any content.
-/

namespace ZfsForensic

open Octets Checked Checked.Run

/-! ## Reading a stream to its end -/

/-- Read the default stream of an object from `off` on, in chunks of the given lengths, until a read returns nothing. `none` when the
turns run out. -/
def ZfsFs.readToEnd (Γ : Ctx) (fs : ZfsFs) (ino : UInt64) (lens : Nat → Nat) : Nat → Nat → UInt64 → Option (Except FsError Bytes)
  | 0, _, _ => none
  | turns + 1, k, off =>
    match (fs.readAt Γ ino off (lens k)).value with
    | .error e => some (.error e)
    | .ok chunk =>
      if chunk = [] then some (.ok [])
      else
        (ZfsFs.readToEnd Γ fs ino lens turns (k + 1) (off + UInt64.ofNat chunk.length)).map (fun r => r.map (fun rest => chunk ++ rest))

/-- A read at an offset inside the content. -/
theorem ZfsFs.value_readAt {Γ : Ctx} {fs : ZfsFs} {ino : UInt64} {c : Bytes} (hc : (fs.content Γ ino).value = .ok c) {off : UInt64}
    (hoff : off.toNat ≤ c.length) (len : Nat) : (fs.readAt Γ ino off len).value = .ok ((c.drop off.toNat).take len) := by
  rw [readAt, value_bind, hc]
  dsimp only
  rw [if_pos hoff, value_pure]

/-- Whatever the chunks, the rest of the content is read, and the reading ends. -/
theorem ZfsFs.readToEnd_eq {Γ : Ctx} {fs : ZfsFs} {ino : UInt64} {c : Bytes} (hc : (fs.content Γ ino).value = .ok c)
    (hfit : c.length < 2 ^ 64) {lens : Nat → Nat} (hlens : ∀ k, 0 < lens k) {turns : Nat} (k : Nat) {off : UInt64}
    (hoff : off.toNat ≤ c.length) (hturns : c.length - off.toNat < turns) :
    fs.readToEnd Γ ino lens turns k off = some (.ok (c.drop off.toNat)) := by
  induction turns generalizing k off with
  | zero => omega
  | succ turns ih =>
    rw [readToEnd, value_readAt hc hoff]
    dsimp only
    by_cases hend : off.toNat = c.length
    · rw [hend, List.drop_length, List.take_nil, if_pos rfl]
    · have hpos := hlens k
      have hlen : ((c.drop off.toNat).take (lens k)).length = min (lens k) (c.length - off.toNat) := by
        rw [List.length_take, List.length_drop]
      have hne : (c.drop off.toNat).take (lens k) ≠ [] := by
        intro hnil
        rw [hnil, List.length_nil] at hlen
        omega
      have hnext : (off + UInt64.ofNat ((c.drop off.toNat).take (lens k)).length).toNat =
          off.toNat + ((c.drop off.toNat).take (lens k)).length := by
        rw [UInt64.toNat_add, UInt64.toNat_ofNat', hlen]
        omega
      have hdrop : c.drop (off.toNat + ((c.drop off.toNat).take (lens k)).length) =
          (c.drop off.toNat).drop ((c.drop off.toNat).take (lens k)).length := by
        rw [List.drop_drop]
      rw [if_neg hne, ih (k + 1) (by rw [hnext, hlen]; omega) (by rw [hnext, hlen]; omega), hnext, hdrop, Option.map_some]
      simp only [Except.map]
      rw [List.prefix_iff_eq_append.1 (List.take_prefix _ _)]

/-- A reading that ends has read the rest of the content. -/
theorem ZfsFs.eq_of_readToEnd {Γ : Ctx} {fs : ZfsFs} {ino : UInt64} {c : Bytes} (hc : (fs.content Γ ino).value = .ok c)
    (hfit : c.length < 2 ^ 64) {lens : Nat → Nat} (hlens : ∀ k, 0 < lens k) {turns : Nat} {out : Bytes} {k : Nat} {off : UInt64}
    (hoff : off.toNat ≤ c.length) (h : fs.readToEnd Γ ino lens turns k off = some (.ok out)) : out = c.drop off.toNat := by
  induction turns generalizing k off out with
  | zero => exact absurd h (by simp [readToEnd])
  | succ turns ih =>
    rw [readToEnd, value_readAt hc hoff] at h
    dsimp only at h
    have hpos := hlens k
    have hlen : ((c.drop off.toNat).take (lens k)).length = min (lens k) (c.length - off.toNat) := by
      rw [List.length_take, List.length_drop]
    by_cases hend : (c.drop off.toNat).take (lens k) = []
    · rw [if_pos hend, Option.some.injEq, Except.ok.injEq] at h
      rw [hend, List.length_nil] at hlen
      rw [← h, List.drop_eq_nil_of_le (by omega)]
    · have hnext : (off + UInt64.ofNat ((c.drop off.toNat).take (lens k)).length).toNat =
          off.toNat + ((c.drop off.toNat).take (lens k)).length := by
        rw [UInt64.toNat_add, UInt64.toNat_ofNat', hlen]
        omega
      rw [if_neg hend] at h
      obtain ⟨r, hr, hmap⟩ := Option.map_eq_some_iff.1 h
      cases r with
      | error e => exact absurd hmap (by simp [Except.map])
      | ok rest =>
        simp only [Except.map, Except.ok.injEq] at hmap
        rw [← hmap, ih (by rw [hnext, hlen]; omega) hr, hnext, ← List.drop_drop]
        exact List.prefix_iff_eq_append.1 (List.take_prefix _ _)

/-! ## The size of a stream -/

/-- A file read stays far below the largest offset. -/
theorem length_fileBytes_lt {Γ : Ctx} (hΓ : Γ.Bounded) (image : Bytes) {d : Dnode} (h : FileReads (readBlock Γ image) d) :
    (fileBytes (readBlock Γ image) d).length < 2 ^ 64 := by
  have hblock : ∀ n ∈ (List.range (fileBlockCount d)).map (fun i => (blockData (readBlock Γ image) d i).length), n ≤ maxBlockSize := by
    intro n hn
    obtain ⟨i, hi, rfl⟩ := List.mem_map.1 hn
    obtain ⟨block, hread⟩ := h.2 i (List.mem_range.1 hi)
    rw [blockData_of_read hread]
    rw [readDnodeData_value] at hread
    cases hbp : (resolveBlkptr (readBlock Γ image) d (UInt64.ofNat i)).value with
    | error e =>
      rw [hbp] at hread
      exact absurd hread (by simp [Except.bind])
    | ok bp =>
      rw [hbp] at hread
      exact Nat.le_trans (length_readBlock_le_lsize hΓ hread) (lsizeBytes_le_of_readBlock hread)
  have hsum := List.sum_le_card_nsmul _ _ hblock
  rw [List.length_map, List.length_range, smul_eq_mul] at hsum
  have hcount : fileBlockCount d ≤ 2 ^ 29 := by
    have hdiv : maxFileBytes / d.dataBlockSize ≤ maxFileBytes := Nat.div_le_self _ _
    have hmax : maxFileBytes = 2 ^ 29 := rfl
    unfold fileBlockCount
    omega
  have hcap : maxBlockSize = 2 ^ 25 := rfl
  rw [hcap] at hsum
  rw [fileBytes, length_objectBytes]
  calc ((List.range (fileBlockCount d)).map (fun i => (blockData (readBlock Γ image) d i).length)).sum
      ≤ fileBlockCount d * 2 ^ 25 := hsum
    _ ≤ 2 ^ 29 * 2 ^ 25 := Nat.mul_le_mul_right _ hcount
    _ < 2 ^ 64 := by omega

/-- The reported size of an object is the number of bytes its default stream reads as, in whatever chunks it is read. -/
def SizeIsContent (Γ : Ctx) (fs : ZfsFs) (obj : UInt64) : Prop :=
  ∀ m c, (fs.getMeta Γ obj).value = .ok m → (fs.content Γ obj).value = .ok c → ∀ lens : Nat → Nat, (∀ k, 0 < lens k) →
    ∃ turns out, fs.readToEnd Γ obj lens turns 0 0 = some (.ok out) ∧ out.length = m.size.toNat

/-- The size in the attributes is inside the blocks; without attributes there is no byte in them. -/
def SizeCovered (attrs : Option ZplAttrs) (bytes : Bytes) : Prop :=
  match attrs with
  | none => bytes = []
  | some a => a.size.toNat ≤ bytes.length

/-- An object that is there has the metadata of its attributes. -/
theorem ZfsFs.value_getMeta_of_some {Γ : Ctx} {fs : ZfsFs} {obj : UInt64} {d : Dnode}
    (hd : (mosDnode (fs.disk Γ) fs.zpl obj).value = some d) :
    (fs.getMeta Γ obj).value = .ok (fsMeta obj (fs.attrs Γ obj).value) := by
  have hdnode : (fs.dnode Γ obj).value = .ok d := by
    rw [dnode, value_bind, hd]
    rfl
  rw [getMeta, value_bind, hdnode]
  rfl

/-- One that is not has none. -/
theorem ZfsFs.exists_dnode_of_getMeta {Γ : Ctx} {fs : ZfsFs} {obj : UInt64} {m : FsMeta}
    (h : (fs.getMeta Γ obj).value = .ok m) : ∃ d, (mosDnode (fs.disk Γ) fs.zpl obj).value = some d := by
  cases hd : (mosDnode (fs.disk Γ) fs.zpl obj).value with
  | some d => exact ⟨d, rfl⟩
  | none =>
    have hdnode : (fs.dnode Γ obj).value = .error (.outOfRange "zfs object id (absent or an empty dnode slot)" obj 1 0) := by
      rw [dnode, value_bind, hd]
      rfl
    rw [getMeta, value_bind, hdnode] at h
    exact absurd h (by simp)

/-- The cut at the size gives as many bytes as the metadata says exactly where the size is covered. -/
theorem length_cutAt_eq_iff (obj : UInt64) (attrs : Option ZplAttrs) (bytes : Bytes) :
    (cutAt (attrs.map ZplAttrs.size) bytes).length = (fsMeta obj attrs).size.toNat ↔ SizeCovered attrs bytes := by
  cases attrs with
  | none => exact List.length_eq_zero_iff
  | some a =>
    have hcut : cutAt ((some a).map ZplAttrs.size) bytes = bytes.take a.size.toNat := rfl
    have hmeta : (fsMeta obj (some a)).size = a.size := rfl
    rw [hcut, hmeta, List.length_take]
    exact min_eq_left_iff

/-- The reported size is the readable content exactly where, for an object that reads, the blocks cover the size. -/
theorem size_is_content_iff {Γ : Ctx} (hΓ : Γ.Bounded) (fs : ZfsFs) (obj : UInt64) :
    SizeIsContent Γ fs obj ↔
      ∀ d, (mosDnode (fs.disk Γ) fs.zpl obj).value = some d → FileReads (fs.disk Γ) d →
        SizeCovered (fs.attrs Γ obj).value (fileBytes (fs.disk Γ) d) := by
  have hread : ∀ {d}, (mosDnode (fs.disk Γ) fs.zpl obj).value = some d → FileReads (fs.disk Γ) d →
      (fs.content Γ obj).value = .ok (cutAt ((fs.attrs Γ obj).value.map ZplAttrs.size) (fileBytes (fs.disk Γ) d)) ∧
        (cutAt ((fs.attrs Γ obj).value.map ZplAttrs.size) (fileBytes (fs.disk Γ) d)).length < 2 ^ 64 := by
    intro d hd hreads
    have hlt := length_fileBytes_lt hΓ fs.image hreads
    refine ⟨?_, ?_⟩
    · rw [ZfsFs.content, value_bind, value_bind, value_of_fileReads hd hreads]
      rfl
    · cases (fs.attrs Γ obj).value with
      | none => exact hlt
      | some a =>
        refine Nat.lt_of_le_of_lt ?_ hlt
        exact List.length_take_le' _ _
  constructor
  · intro h d hd hreads
    obtain ⟨hcontent, hfit⟩ := hread hd hreads
    obtain ⟨turns, out, hloop, hlen⟩ := h _ _ (ZfsFs.value_getMeta_of_some hd) hcontent (fun _ => 1) (fun _ => Nat.one_pos)
    rw [ZfsFs.eq_of_readToEnd hcontent hfit (fun _ => Nat.one_pos) (Nat.zero_le _) hloop] at hlen
    exact (length_cutAt_eq_iff obj _ _).1 hlen
  · intro h m c hm hc lens hlens
    obtain ⟨d, hd⟩ := ZfsFs.exists_dnode_of_getMeta hm
    have hreads : FileReads (fs.disk Γ) d := by
      have hsome := toOption_eq_some_iff.2 hc
      rw [ZfsFs.toOption_content, toOption_eq_some_iff, zplReadFileWith_eq_ok_iff hd] at hsome
      exact ⟨hsome.1, hsome.2.1⟩
    obtain ⟨hcontent, hfit⟩ := hread hd hreads
    refine ⟨_, _, ZfsFs.readToEnd_eq hcontent hfit hlens 0 (Nat.zero_le _) (Nat.lt_succ_self _), ?_⟩
    rw [ZfsFs.value_getMeta_of_some hd, Except.ok.injEq] at hm
    rw [← hm]
    exact (length_cutAt_eq_iff obj _ _).2 (h d hd hreads)

/-- An object without attributes has its blocks for content, and a size of zero. -/
theorem size_of_no_attrs {Γ : Ctx} {fs : ZfsFs} {obj : UInt64} {bytes : Bytes} (hattrs : (fs.attrs Γ obj).value = none)
    (hread : (zplReadFileWith (fs.disk Γ) fs.zpl obj none).value = .ok bytes) (hpos : 0 < bytes.length) (hfit : bytes.length < 2 ^ 64) :
    (fs.getMeta Γ obj).value = .ok (fsMeta obj none) ∧ (fs.content Γ obj).value = .ok bytes ∧ ¬ SizeIsContent Γ fs obj := by
  obtain ⟨d, hd⟩ : ∃ d, (mosDnode (fs.disk Γ) fs.zpl obj).value = some d := by
    cases hd : (mosDnode (fs.disk Γ) fs.zpl obj).value with
    | some d => exact ⟨d, rfl⟩
    | none =>
      rw [zplReadFileWith_of_none hd] at hread
      exact absurd hread (by simp)
  have hcontent : (fs.content Γ obj).value = .ok bytes := by
    rw [ZfsFs.content, value_bind, value_bind, hattrs, Option.map_none, hread]
    rfl
  have hmeta : (fs.getMeta Γ obj).value = .ok (fsMeta obj none) := by
    rw [ZfsFs.value_getMeta_of_some hd, hattrs]
  refine ⟨hmeta, hcontent, fun h => ?_⟩
  obtain ⟨turns, out, hloop, hsize⟩ := h _ _ hmeta hcontent (fun _ => 1) (fun _ => Nat.one_pos)
  have hout := ZfsFs.eq_of_readToEnd hcontent hfit (fun _ => Nat.one_pos) (Nat.zero_le _) hloop
  have hzero : (fsMeta obj none).size.toNat = 0 := rfl
  rw [UInt64.toNat_zero, List.drop_zero] at hout
  rw [hzero, hout] at hsize
  omega

/-- The root directory of the pool without System Attributes reads as its block. -/
theorem facts_legacyRoot :
    (zplReadFileWith (bodyDisk plainCtx legacyBody) legacyZpl 2 none).value = .ok legacyRoot.encode ∧ legacyRoot.encode.length = 512 := by
  have hslot : legacySlots[(2 : UInt64).toNat]? = some (sectorSlot 20 13) := rfl
  rw [bodyDisk_legacyBody, legacyZpl, isMount_legacySlots.file_of_sector hslot (i := 0) rfl decode_legacyDnodes.2.1.1 none]
  exact ⟨rfl, isMount_legacySlots.blocks_length _ List.mem_cons_self⟩

theorem disk_legacyFs : legacyFs.disk plainCtx = bodyDisk plainCtx legacyBody := by
  rw [ZfsFs.disk_of_open open_legacyImage, legacyImage, readBlock_imageOf]

theorem zpl_legacyFs : legacyFs.zpl = legacyZpl := by
  rw [legacyFs]

/-- That directory has no attributes: its size is reported as zero, and it has 512 bytes of content. -/
theorem size_of_legacyRoot :
    (ZfsFs.open plainCtx legacyImage).value = .ok legacyFs ∧ (legacyFs.getMeta plainCtx 2).value = .ok (fsMeta 2 none) ∧
      (fsMeta 2 none).size = 0 ∧ (legacyFs.content plainCtx 2).value = .ok legacyRoot.encode ∧ legacyRoot.encode.length = 512 ∧
      ¬ SizeIsContent plainCtx legacyFs 2 := by
  obtain ⟨hread, hlen⟩ := facts_legacyRoot
  obtain ⟨hcontext, hbonus, -⟩ := facts_legacyImage
  have hopen := open_legacyImage
  have hattrs : (legacyFs.attrs plainCtx 2).value = none := by
    rw [ZfsFs.value_attrs_of_none hopen hcontext, hbonus]
  rw [← disk_legacyFs, ← zpl_legacyFs] at hread
  obtain ⟨hmeta, hcontent, hnot⟩ := size_of_no_attrs hattrs hread (by rw [hlen]; omega) (by rw [hlen]; omega)
  exact ⟨hopen, hmeta, rfl, hcontent, hlen, hnot⟩

theorem plainCtx_bounded : plainCtx.Bounded := by
  intro block n out h
  exact absurd h (by simp [plainCtx, storedCtx])

/-- The file of that pool has three bytes by its bonus, and reads as three. -/
theorem sizeIsContent_legacyFile : plainCtx.Bounded ∧ SizeIsContent plainCtx legacyFs 3 := by
  obtain ⟨hcontext, -, hfile, -, -⟩ := facts_legacyImage
  have hopen := open_legacyImage
  have hbytes := fileReads_legacyFile.2
  obtain ⟨a, ha, hthree⟩ := Option.map_eq_some_iff.1 size_legacyFile.2.2
  have hattrs : (legacyFs.attrs plainCtx 3).value = some a := by
    rw [ZfsFs.value_attrs_of_none hopen hcontext, hfile, Option.bind_some, ha]
  rw [← ZfsFs.disk_of_open hopen] at hfile hbytes
  refine ⟨plainCtx_bounded, (size_is_content_iff plainCtx_bounded legacyFs 3).2 fun d hd _ => ?_⟩
  rw [hfile, Option.some.injEq] at hd
  rw [← hd, hattrs, hbytes, SizeCovered, hthree, List.length_append, length_zeros]
  decide

end ZfsForensic
