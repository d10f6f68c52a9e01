import ZfsForensic.Lemmas.SaImage
import ZfsForensic.Theorems.Readers

/-!
# A size that was never decoded

The walk over a layout ends at the first attribute it cannot skip, and what it has not reached keeps its default. For the size that
default is zero, and a file read cuts at the size of the metadata: a file whose bonus decodes without a size reads as empty.
-/

namespace ZfsForensic

open Octets Checked Checked.Run

/-! ## The walk -/

/-- The attributes a walk over a layout passes: each id, with its offset in the bonus and its registered size. -/
def saPassed (bonusLen : Nat) (registry : SaRegistry) : List UInt16 → Nat → List (UInt16 × Nat × Nat)
  | [], _ => []
  | id :: ids, off =>
    match registry.sizeOf id with
    | none => []
    | some size =>
      if size = 0 then []
      else if bonusLen < satAdd off size.toNat then []
      else (id, off, size.toNat) :: saPassed bonusLen registry ids (off + size.toNat)

/-- Whether a passed attribute is stored as the size: it has the id of the size, not that of the mode, and at least eight bytes. -/
def AssignsSize (known : KnownAttrs) (a : UInt16 × Nat × Nat) : Prop :=
  ¬ (some a.1 = known.mode ∧ 8 ≤ a.2.2) ∧ some a.1 = known.size ∧ 8 ≤ a.2.2

/-- Whether the walk over the layout of a bonus stores a size. -/
def SizeAssigned (bonus : Bytes) (registry : SaRegistry) (layouts : SaLayouts) : Prop :=
  ∃ ids, layouts.attrIds (saLayoutNum (leU16 bonus 4)) = some ids ∧
    ∃ a ∈ saPassed bonus.length registry ids (saHdrsz (leU16 bonus 4)), AssignsSize (knownAttrs registry) a

/-- Storing an attribute that is not the size leaves the size as it was. -/
theorem size_assignKnown {known : KnownAttrs} {id : UInt16} {off size : Nat} (h : ¬ AssignsSize known (id, off, size))
    (attrs : ZplAttrs) (rd : Reader) (bonus : Bytes) :
    (assignKnown attrs known id rd bonus off size).size = attrs.size := by
  unfold assignKnown
  dsimp only
  by_cases hmode : some id = known.mode ∧ 8 ≤ size
  · rw [if_pos hmode]
  · have hsize : ¬ (some id = known.size ∧ 8 ≤ size) := fun hsize => h ⟨hmode, hsize⟩
    have hite : ∀ {c : Prop} [Decidable c] {a b : ZplAttrs}, a.size = attrs.size → b.size = attrs.size →
        (if c then a else b).size = attrs.size := by
      intro c _ a b ha hb
      by_cases hc : c
      · rwa [if_pos hc]
      · rwa [if_neg hc]
    rw [if_neg hmode, if_neg hsize]
    -- what is left stores the ten other attributes
    exact hite rfl (hite rfl (hite rfl (hite rfl (hite rfl (hite rfl (hite rfl (hite rfl (hite rfl (hite rfl rfl)))))))))

/-- A walk that passes no size leaves the size as it was. -/
theorem size_saWalk {bonus : Bytes} {registry : SaRegistry} {known : KnownAttrs} (rd : Reader) (ids : List UInt16) {off : Nat}
    (h : ∀ a ∈ saPassed bonus.length registry ids off, ¬ AssignsSize known a) (attrs : ZplAttrs) :
    (saWalk bonus registry rd known ids attrs off).size = attrs.size := by
  induction ids generalizing attrs off with
  | nil => rfl
  | cons id ids ih =>
    rw [saPassed] at h
    rw [saWalk]
    cases hsize : registry.sizeOf id with
    | none => rfl
    | some size =>
      rw [hsize] at h
      dsimp only at h ⊢
      by_cases hzero : size = 0
      · rw [if_pos hzero]
      · by_cases hend : bonus.length < satAdd off size.toNat
        · rw [if_neg hzero, if_pos hend]
        · rw [if_neg hzero, if_neg hend] at h ⊢
          rw [ih (fun a ha => h a (List.mem_cons_of_mem _ ha))]
          exact size_assignKnown (h _ List.mem_cons_self) attrs rd bonus

/-- Metadata that decodes without a size has the size zero. -/
theorem size_of_not_sizeAssigned {bonus : Bytes} {registry : SaRegistry} {layouts : SaLayouts} {endian : Endian}
    {attrs : ZplAttrs} (hdecode : decodeSaBonus bonus registry layouts endian = some attrs)
    (h : ¬ SizeAssigned bonus registry layouts) : attrs.size = 0 := by
  unfold decodeSaBonus at hdecode
  dsimp only at hdecode
  split at hdecode
  · exact absurd hdecode (by simp)
  · cases hids : layouts.attrIds (saLayoutNum (leU16 bonus 4)) with
    | none =>
      rw [hids] at hdecode
      exact absurd hdecode (by simp)
    | some ids =>
      rw [hids, Option.some.injEq] at hdecode
      rw [← hdecode, size_saWalk _ ids fun a ha hassigns => h ⟨ids, hids, a, ha, hassigns⟩]
      rfl

/-! ## Reads -/

/-- Both readers return an object as it reads when no metadata decodes: `zplReadFile`, and the content of every mount of its
filesystem. -/
def ReadsWhole (Γ : Ctx) (image : Bytes) (zpl : ObjsetPhys) (id : UInt64) : Prop :=
  (zplReadFile (readBlock Γ image) zpl id).value = (zplReadFileWith (readBlock Γ image) zpl id none).value ∧
    ∀ fs, (ZfsFs.open Γ image).value = .ok fs → fs.zpl = zpl →
      (fs.content Γ id).value = (zplReadFileWith (readBlock Γ image) zpl id none).value.mapError decodeErr

theorem ZfsFs.value_content (Γ : Ctx) (fs : ZfsFs) (id : UInt64) :
    (fs.content Γ id).value =
      (zplReadFileWith (fs.disk Γ) fs.zpl id ((fs.attrs Γ id).value.map ZplAttrs.size)).value.mapError decodeErr := by
  rw [content, value_bind, value_bind]
  cases (zplReadFileWith (fs.disk Γ) fs.zpl id ((fs.attrs Γ id).value.map ZplAttrs.size)).value <;> rfl

/-- The metadata of an object with a System Attributes bonus is what the bonus decodes to. -/
theorem value_zplAttrs_of_sa {disk : Disk} {zpl : ObjsetPhys} {id : UInt64} {d : Dnode} {registry : SaRegistry}
    {layouts : SaLayouts} (hd : (mosDnode disk zpl id).value = some d) (hbonus : d.dnBonustype = dmuOtSa) :
    (zplAttrs disk zpl registry layouts id).value = decodeSaBonus d.bonus registry layouts d.endian := by
  rw [value_zplAttrs hd, if_pos hbonus]

/-- A cut to nothing leaves a read as it is exactly where it fails or has no bytes. -/
theorem map_cut_zero_iff {disk : Disk} {zpl : ObjsetPhys} {id : UInt64} {d : Dnode}
    (hd : (mosDnode disk zpl id).value = some d) :
    (zplReadFileWith disk zpl id none).value.map (cutAt (some 0)) = (zplReadFileWith disk zpl id none).value ↔
      ¬ FileReads disk d ∨ fileBytes disk d = [] := by
  have hok := zplReadFileWith_eq_ok_iff hd none
  have hcut : ∀ out, cutAt (some 0) out = [] := fun out => rfl
  cases hread : (zplReadFileWith disk zpl id none).value with
  | error e =>
    refine iff_of_true rfl (Or.inl fun hreads => ?_)
    have hsome := value_of_fileReads hd hreads none
    rw [hread] at hsome
    exact absurd hsome (by simp)
  | ok out =>
    obtain ⟨hz, hreads, hout⟩ := (hok out).1 hread
    have hbytes : out = fileBytes disk d := hout
    have hfile : FileReads disk d := ⟨hz, hreads⟩
    rw [Except.map, Except.ok.injEq, hcut, hbytes, eq_comm]
    simp [hfile]

/-- Where the size of an object was not decoded, it is read whole exactly where its read fails, or its blocks hold no bytes. -/
theorem unsized_reads_whole_iff (Γ : Ctx) (image : Bytes) (zpl : ObjsetPhys) (registry : SaRegistry) (layouts : SaLayouts)
    (hcontext : (zplSaContext (readBlock Γ image) zpl).value = some (registry, layouts)) (id : UInt64) (d : Dnode)
    (hd : (mosDnode (readBlock Γ image) zpl id).value = some d) (hbonus : d.dnBonustype = dmuOtSa) (attrs : ZplAttrs)
    (hdecode : decodeSaBonus d.bonus registry layouts d.endian = some attrs)
    (hsize : ¬ SizeAssigned d.bonus registry layouts) :
    ReadsWhole Γ image zpl id ↔ ¬ FileReads (readBlock Γ image) d ∨ fileBytes (readBlock Γ image) d = [] := by
  have hattrs : (zplAttrs (readBlock Γ image) zpl registry layouts id).value = some attrs := by
    rw [value_zplAttrs_of_sa hd hbonus, hdecode]
  have hzero := size_of_not_sizeAssigned hdecode hsize
  have hfile : (zplReadFile (readBlock Γ image) zpl id).value =
      (zplReadFileWith (readBlock Γ image) zpl id none).value.map (cutAt (some 0)) := by
    rw [value_zplReadFile_of_context hcontext, hattrs, Option.map_some, hzero, value_zplReadFileWith]
  rw [← map_cut_zero_iff hd]
  constructor
  · intro h
    rw [← hfile]
    exact h.1
  · intro h
    refine ⟨by rw [hfile, h], fun fs hopen hzpl => ?_⟩
    subst hzpl
    rw [ZfsFs.value_content, ZfsFs.disk_of_open hopen, ZfsFs.attrs_of_context hopen hcontext, hattrs, Option.map_some, hzero,
      value_zplReadFileWith, h]

/-- The file of the pool with System Attributes is one block, has its mode decoded and no size. -/
theorem bonus_saFile :
    saFile.dnBonustype = dmuOtSa ∧
      decodeSaBonus saFile.bonus saRegistry saLayouts saFile.endian =
        some { ZplAttrs.default with mode := 0x81a4, unknownAttrIds := [6] } ∧
      (saFile.bonus.length = 264 ∧ leU16 saFile.bonus 4 = 0x0402) ∧ saFile.dataBlockSize ≠ 0 ∧ fileBlockCount saFile = 1 := by
  decide +kernel

/-- The walk over its layout passes the mode only. -/
theorem not_sizeAssigned_saFile : ¬ SizeAssigned saFile.bonus saRegistry saLayouts := by
  obtain ⟨-, -, ⟨hlen, hinfo⟩, -⟩ := bonus_saFile
  have hlayout : saLayouts.attrIds (saLayoutNum 0x0402) = some [5, 6, 0, 0] := by decide
  have hpassed : saPassed 264 saRegistry [5, 6, 0, 0] (saHdrsz 0x0402) = [(5, 8, 8)] := by decide
  have hknown : (knownAttrs saRegistry).size = none := by decide
  rintro ⟨ids, hids, a, ha, -, hsize, -⟩
  rw [hinfo, hlayout, Option.some.injEq] at hids
  rw [hinfo, hlen, ← hids, hpassed, List.mem_singleton] at ha
  rw [hknown, ha] at hsize
  exact absurd hsize (by simp)

/-- It reads as three bytes and 509 zeros. -/
theorem fileReads_saFile : FileReads (readBlock plainCtx saImage) saFile ∧
    fileBytes (readBlock plainCtx saImage) saFile = [1, 2, 3] ++ zeros 509 := by
  obtain ⟨-, -, -, -, -, -, -, -, -, hread⟩ := facts_saImage
  obtain ⟨-, -, -, hsize, hcount⟩ := bonus_saFile
  exact fileReads_of_one_block hsize hcount hread

/-- Both readers return no byte of it. -/
theorem content_saImage :
    (ZfsFs.open plainCtx saImage).value = .ok saFs ∧
      (zplReadFileWith (readBlock plainCtx saImage) saFs.zpl 3 none).value = .ok ([1, 2, 3] ++ zeros 509) ∧
      (zplReadFile (readBlock plainCtx saImage) saFs.zpl 3).value = .ok [] ∧
      (saFs.content plainCtx 3).value = .ok [] ∧ ¬ ReadsWhole plainCtx saImage saFs.zpl 3 := by
  obtain ⟨-, -, -, -, -, -, hcontext, hfile, -, -⟩ := facts_saImage
  obtain ⟨hbonus, hdecode, -⟩ := bonus_saFile
  obtain ⟨hreads, hbytes⟩ := fileReads_saFile
  have hopen := open_saImage
  have hwhole := value_of_fileReads hfile hreads none
  rw [hbytes, cutAt, Option.elim_none] at hwhole
  have hattrs : ((zplAttrs (readBlock plainCtx saImage) saFs.zpl saRegistry saLayouts 3).value).map ZplAttrs.size = some 0 := by
    rw [value_zplAttrs_of_sa hfile hbonus, hdecode]
    rfl
  have hcut : (zplReadFileWith (readBlock plainCtx saImage) saFs.zpl 3 (some 0)).value = .ok [] := by
    rw [value_zplReadFileWith, hwhole]
    rfl
  have hread : (zplReadFile (readBlock plainCtx saImage) saFs.zpl 3).value = .ok [] := by
    rw [value_zplReadFile_of_context hcontext, hattrs, hcut]
  have hcontent : (saFs.content plainCtx 3).value = .ok [] := by
    rw [ZfsFs.value_content, ZfsFs.disk_of_open hopen, ZfsFs.attrs_of_context hopen hcontext, hattrs, hcut]
    rfl
  refine ⟨hopen, hwhole, hread, hcontent, fun h => ?_⟩
  have hsame := h.1
  rw [hread, hwhole] at hsame
  exact absurd hsame (by simp)

/-- So its read is not the whole one: its blocks hold bytes. -/
theorem not_readsWhole_saFile : ¬ ReadsWhole plainCtx saImage saFs.zpl 3 := by
  obtain ⟨-, -, -, -, -, -, hcontext, hfile, -, -⟩ := facts_saImage
  obtain ⟨hbonus, hdecode, -⟩ := bonus_saFile
  obtain ⟨hreads, hbytes⟩ := fileReads_saFile
  rw [unsized_reads_whole_iff plainCtx saImage saFs.zpl saRegistry saLayouts hcontext 3 saFile hfile hbonus _ hdecode
    not_sizeAssigned_saFile]
  rintro (hnot | hempty)
  · exact hnot hreads
  · rw [hbytes] at hempty
    exact absurd hempty (by simp)

end ZfsForensic
