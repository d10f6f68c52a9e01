import ZfsForensic.Lemmas.SaImage
import ZfsForensic.Xattr

/-!
# Extended attributes stored both ways

The two storage modes share no structure, and an object may carry attributes in both. The listing stops at the first mode that
yields an attribute, so what the hidden directory holds is lost behind a packed attribute, unless it is packed too.
-/

namespace ZfsForensic

open Octets Checked Checked.Run

/-- The attribute is in the packed nvlist of the object's bonus: a byte-array pair of the `ZPL_DXATTR` value. -/
def IsPacked (disk : Disk) (zpl : ObjsetPhys) (dnode : Dnode) (x : Xattr) : Prop :=
  ∃ registry layouts packed nv, (zplSaContext disk zpl).value = some (registry, layouts) ∧
    saAttrBytes dnode.bonus registry layouts (ascii "ZPL_DXATTR") = some packed ∧ nvlistParse packed = .ok nv ∧
    (x.name, NvValue.bytes x.value) ∈ nv

/-- The attribute is in the hidden directory of the object: an entry of the directory the `ZPL_XATTR` value names, and the content
of its file. -/
def IsHidden (disk : Disk) (zpl : ObjsetPhys) (dnode : Dnode) (x : Xattr) : Prop :=
  ∃ registry layouts raw dirObj obj, (zplSaContext disk zpl).value = some (registry, layouts) ∧
    saAttrBytes dnode.bonus registry layouts (ascii "ZPL_XATTR") = some raw ∧ xattrDirObject raw = some dirObj ∧
    (x.name, obj) ∈ (zplListDir disk zpl dirObj).value ∧ (zplReadFile disk zpl obj).value = .ok x.value

/-- No attribute of an object is missing from its listing, in whichever way it is stored. -/
def NoneOmitted (disk : Disk) (zpl : ObjsetPhys) (objectId : UInt64) : Prop :=
  ∀ dnode, (mosDnode disk zpl objectId).value = some dnode →
    ∀ x, IsPacked disk zpl dnode x ∨ IsHidden disk zpl dnode x → x ∈ (listXattrs disk zpl objectId).value

section Walks

variable {disk : Disk} {zpl : ObjsetPhys} {dnode : Dnode}

/-- The walk over the bonus finds the packed attributes. -/
theorem mem_saXattrs_iff_isPacked {x : Xattr} : x ∈ (saXattrs disk zpl dnode).value ↔ IsPacked disk zpl dnode x := by
  simp only [mem_saXattrs_iff, mem_dxattrPairs_iff, IsPacked]
  constructor
  · rintro ⟨registry, layouts, packed, hcontext, hpacked, nv, hparse, hpair⟩
    exact ⟨registry, layouts, packed, nv, hcontext, hpacked, hparse, hpair⟩
  · rintro ⟨registry, layouts, packed, nv, hcontext, hpacked, hparse, hpair⟩
    exact ⟨registry, layouts, packed, hcontext, hpacked, nv, hparse, hpair⟩

/-- The walk over the directory finds the hidden attributes. -/
theorem mem_dirXattrs_iff_isHidden {x : Xattr} : x ∈ (dirXattrs disk zpl dnode).value ↔ IsHidden disk zpl dnode x := by
  unfold IsHidden
  rw [dirXattrs, value_bind]
  cases hcontext : (zplSaContext disk zpl).value with
  | none => simp
  | some context =>
    obtain ⟨registry, layouts⟩ := context
    dsimp only
    cases hdir : (saAttrBytes dnode.bonus registry layouts (ascii "ZPL_XATTR")).bind xattrDirObject with
    | none =>
      refine ⟨fun h => absurd h List.not_mem_nil, ?_⟩
      rintro ⟨r, l, raw, dirObj, -, hcontext', hraw, hobj, -⟩
      cases hcontext'
      rw [hraw, Option.bind_some, hobj] at hdir
      exact absurd hdir (by simp)
    | some dirObj =>
      obtain ⟨raw, hraw, hobj⟩ := Option.bind_eq_some_iff.1 hdir
      dsimp only
      rw [value_bind, mem_xattrFiles_iff]
      constructor
      · rintro ⟨obj, hentry, hread⟩
        exact ⟨registry, layouts, raw, dirObj, obj, rfl, hraw, hobj, hentry, hread⟩
      · rintro ⟨r, l, raw', dirObj', obj, hcontext', hraw', hobj', hentry, hread⟩
        cases hcontext'
        rw [hraw, Option.some.injEq] at hraw'
        rw [← hraw', hobj, Option.some.injEq] at hobj'
        exact ⟨obj, hobj' ▸ hentry, hread⟩

/-- The listing of an object that resolves holds the packed attributes, and where there are none the hidden ones. -/
theorem mem_listXattrs_iff {objectId : UInt64} (hdnode : (mosDnode disk zpl objectId).value = some dnode) (x : Xattr) :
    x ∈ (listXattrs disk zpl objectId).value ↔
      IsPacked disk zpl dnode x ∨ (∀ y, ¬ IsPacked disk zpl dnode y) ∧ IsHidden disk zpl dnode x := by
  have hempty : (saXattrs disk zpl dnode).value = [] ↔ ∀ y, ¬ IsPacked disk zpl dnode y := by
    simp only [List.eq_nil_iff_forall_not_mem, mem_saXattrs_iff_isPacked]
  rw [value_listXattrs hdnode]
  by_cases hnone : (saXattrs disk zpl dnode).value = []
  · rw [if_pos hnone, mem_dirXattrs_iff_isHidden, and_iff_right (hempty.1 hnone), or_iff_right (hempty.1 hnone x)]
  · rw [if_neg hnone, mem_saXattrs_iff_isPacked, or_iff_left]
    exact fun h => hnone (hempty.2 h.1)

end Walks

/-- No attribute of an object is omitted exactly where it has no packed attribute, or every hidden one of it is packed too. -/
theorem none_omitted_iff (Γ : Ctx) (image : Bytes) (zpl : ObjsetPhys) (objectId : UInt64) :
    NoneOmitted (readBlock Γ image) zpl objectId ↔
      ∀ dnode, (mosDnode (readBlock Γ image) zpl objectId).value = some dnode →
        (∀ x, ¬ IsPacked (readBlock Γ image) zpl dnode x) ∨
          ∀ x, IsHidden (readBlock Γ image) zpl dnode x → IsPacked (readBlock Γ image) zpl dnode x := by
  constructor
  · intro h dnode hdnode
    by_cases hnone : ∀ x, ¬ IsPacked (readBlock Γ image) zpl dnode x
    · exact Or.inl hnone
    · refine Or.inr fun x hhidden => ?_
      rcases (mem_listXattrs_iff hdnode x).1 (h dnode hdnode x (Or.inr hhidden)) with hpacked | ⟨hnone', -⟩
      · exact hpacked
      · exact absurd hnone' hnone
  · intro h dnode hdnode x hx
    rw [mem_listXattrs_iff hdnode]
    rcases hx with hpacked | hhidden
    · exact Or.inl hpacked
    · rcases h dnode hdnode with hnone | hboth
      · exact Or.inr ⟨hnone, hhidden⟩
      · exact Or.inl (hboth x hhidden)

/-! ## A file with one attribute of each kind -/

/-- A packed nvlist of one byte-array pair: the attribute `a`, of one byte. -/
def onePair : Bytes :=
  [[1, 1, 0, 0], zeros 4, encode .big 4 1, encode .big 4 28, encode .big 4 28, encode .big 4 1, [0x61], zeros 3, encode .big 4 10,
    encode .big 4 1, [1], zeros 3, zeros 8].flatten

/-- The file's bonus: the magic, a header of eight bytes for layout 2 with the length of the nvlist, the directory, object 7, and the
nvlist. -/
def bothBonus : Bytes :=
  [encode .little 4 saMagic.toNat, encode .little 2 0x0402, encode .little 2 onePair.length, encode .little 8 7, onePair].flatten

/-- The registry: the directory is attribute 7, of eight bytes, the nvlist attribute 16, of variable length. -/
def bothRegistry : MzapBlock :=
  sectorZap
    [{ value := 0x8000007, cd := 0, name := ascii "ZPL_XATTR", name_ne := by decide, name_le := by decide,
       name_nul := by decide +kernel },
      { value := 0x10, cd := 0, name := ascii "ZPL_DXATTR", name_ne := by decide, name_le := by decide,
        name_nul := by decide +kernel }]

/-- The dnodes of the filesystem: master node, root directory, file, master of the attributes, registry, layouts, the hidden directory
and its one file, `b`. -/
def bothDnodes : Bytes :=
  [zeros 512, sectorSlot 21 18, inlineSlot 20 (mzapPayload "f" 0x8000000000000003),
    inlineBonusSlot 19 dmuOtSa (padTo 112 [1, 2, 3]) bothBonus, sectorSlot 45 19, sectorSlot 46 20,
    inlineSlot 47 (mzapPayload "2" 0x10000700), inlineSlot 20 (mzapPayload "b" 0x8000000000000008),
    inlineSlot 19 (padTo 112 [9])].flatten

/-- The body of its pool. -/
def bothBody : Bytes :=
  mountBody bothDnodes 9 ([saMasterNode.encode, saMaster.encode, bothRegistry.encode, zeros 512].flatten)

/-- The image of its pool. -/
def bothImage : Bytes := imageOf 7 mountRoot bothBody

/-- Its objset. -/
def bothZpl : ObjsetPhys := objsetOf (zfsObjset 9 9)

/-- The file's dnode. -/
def bothFile : Dnode :=
  (Dnode.parse (inlineBonusSlot 19 dmuOtSa (padTo 112 [1, 2, 3]) bothBonus) .little).getD default

/-- The slots of the filesystem. -/
def bothSlots : List Bytes :=
  [zeros 512, sectorSlot 21 18, inlineSlot 20 (mzapPayload "f" 0x8000000000000003),
    inlineBonusSlot 19 dmuOtSa (padTo 112 [1, 2, 3]) bothBonus, sectorSlot 45 19, sectorSlot 46 20,
    inlineSlot 47 (mzapPayload "2" 0x10000700), inlineSlot 20 (mzapPayload "b" 0x8000000000000008), inlineSlot 19 (padTo 112 [9])]

/-- The sectors behind them. -/
def bothSectors : List Bytes := [saMasterNode.encode, saMaster.encode, bothRegistry.encode, zeros 512]

theorem bodyDisk_bothBody : bodyDisk plainCtx bothBody = mountDisk bothSlots 9 bothSectors := by
  rw [bothBody, bothDnodes, mountDisk, bothSlots, bothSectors]

/-- The object set of the filesystem, what the slots of its attributes name, and the hidden directory with its file. -/
theorem decode_bothDnodes :
    (bothZpl.metaDnode.dnNlevels = 1 ∧ bothZpl.metaDnode.dnDatablkszsec.toNat = bothSlots.length ∧
        (bothZpl.metaDnode.blkptr 0).any (Blkptr.names 4608 (512 * bothSlots.length)) = true) ∧
      ((soleBlkptr (sectorSlot 21 18) .little).any (Blkptr.names 9216 512) = true ∧
        (soleBlkptr (sectorSlot 45 19) .little).any (Blkptr.names 9728 512) = true ∧
        (soleBlkptr (sectorSlot 46 20) .little).any (Blkptr.names 10240 512) = true ∧
        (soleBlkptr (inlineSlot 47 (mzapPayload "2" 0x10000700)) .little).bind (inlineBlock plainCtx) =
          some ((mzapPayload "2" 0x10000700).toList ++ zeros 400)) ∧
      ((soleBlkptr (inlineSlot 20 (mzapPayload "b" 0x8000000000000008)) .little).bind (inlineBlock plainCtx) =
          some ((mzapPayload "b" 0x8000000000000008).toList ++ zeros 400) ∧
        (zapList ((mzapPayload "b" 0x8000000000000008).toList ++ zeros 400)).map (fun e => (e.1, e.2 &&& zplDirentObjMask)) =
          [([0x62], 8)]) ∧
      ((Dnode.parse (inlineSlot 19 (padTo 112 [9])) .little).getD default).dnBonustype = 0 ∧
      (soleBlkptr (inlineSlot 19 (padTo 112 [9])) .little).bind (inlineBlock plainCtx) = some ([9] ++ zeros 511) := by
  decide +kernel

theorem isMount_bothSlots : IsMount bothSlots 9 bothSectors := by
  obtain ⟨hobjset, -⟩ := decode_bothDnodes
  rw [bothZpl] at hobjset
  refine ⟨fun s hs => ?_, fun b hb => ?_, by decide, hobjset⟩
  · simp only [bothSlots, List.mem_cons, List.not_mem_nil, or_false] at hs
    rcases hs with hs | hs | hs | hs | hs | hs | hs | hs | hs <;> rw [hs]
    · exact length_zeros 512
    · exact length_sectorSlot _ _
    · exact length_inlineSlot _ _
    · exact length_inlineBonusSlot _ _ _ _
    · exact length_sectorSlot _ _
    · exact length_sectorSlot _ _
    · exact length_inlineSlot _ _
    · exact length_inlineSlot _ _
    · exact length_inlineSlot _ _
  · simp only [bothSectors, List.mem_cons, List.not_mem_nil, or_false] at hb
    rcases hb with hb | hb | hb | hb <;> rw [hb]
    · exact length_encode_sectorZap (by decide)
    · exact length_encode_sectorZap (by decide)
    · exact length_encode_sectorZap (by decide)
    · exact length_zeros 512

/-- The registry and the layouts of the filesystem. -/
theorem context_bothBody :
    (zplSaContext (bodyDisk plainCtx bothBody) bothZpl).value =
      some (parseSaRegistry bothRegistry.encode, parseSaLayouts ((mzapPayload "2" 0x10000700).toList ++ zeros 400)) := by
  have hnode : bothSlots[zplMasterNodeObj.toNat]? = some (sectorSlot 21 18) := rfl
  have hmaster : bothSlots[(4 : UInt64).toNat]? = some (sectorSlot 45 19) := rfl
  have hregistry : bothSlots[(5 : UInt64).toNat]? = some (sectorSlot 46 20) := rfl
  have hlayouts : bothSlots[(6 : UInt64).toNat]? = some (inlineSlot 47 (mzapPayload "2" 0x10000700)) := rfl
  obtain ⟨-, ⟨hnodeSector, hmasterSector, hregistrySector, hinline⟩, -⟩ := decode_bothDnodes
  obtain ⟨-, ⟨-, hsaId, hregistryId, hlayoutsId⟩, -⟩ := decode_saAttrs
  rw [bodyDisk_bothBody, bothZpl]
  exact value_zplSaContext (isMount_bothSlots.zap_of_sector hnode (i := 0) rfl hnodeSector) hsaId
    (isMount_bothSlots.zap_of_sector hmaster (i := 1) rfl hmasterSector) hregistryId hlayoutsId
    (isMount_bothSlots.zap_of_sector hregistry (i := 2) rfl hregistrySector) (isMount_bothSlots.zap_of_inline hlayouts hinline)

/-- The two attributes of the file's bonus. -/
theorem bonus_bothFile :
    (saAttrBytes bothFile.bonus (parseSaRegistry bothRegistry.encode)
        (parseSaLayouts ((mzapPayload "2" 0x10000700).toList ++ zeros 400)) (ascii "ZPL_DXATTR")).map dxattrPairs =
      some [⟨[0x61], [1]⟩] ∧
    (saAttrBytes bothFile.bonus (parseSaRegistry bothRegistry.encode)
        (parseSaLayouts ((mzapPayload "2" 0x10000700).toList ++ zeros 400)) (ascii "ZPL_XATTR")).bind xattrDirObject =
      some 7 := by
  decide +kernel

/-- The hidden directory names one file. -/
theorem hiddenDirectory_bothBody : (zplListDir (bodyDisk plainCtx bothBody) bothZpl 7).value = [([0x62], 8)] := by
  have hslot : bothSlots[(7 : UInt64).toNat]? = some (inlineSlot 20 (mzapPayload "b" 0x8000000000000008)) := rfl
  obtain ⟨-, -, ⟨hinline, hlist⟩, -⟩ := decode_bothDnodes
  rw [bodyDisk_bothBody, bothZpl, value_zplListDir (isMount_bothSlots.zap_of_inline hslot hinline), hlist]

/-- Its file has no bonus, and is read whole. -/
theorem hiddenFile_bothBody : (zplReadFile (bodyDisk plainCtx bothBody) bothZpl 8).value = .ok ([9] ++ zeros 511) := by
  have hslot : bothSlots[(8 : UInt64).toNat]? = some (inlineSlot 19 (padTo 112 [9])) := rfl
  have hdnode := isMount_bothSlots.mosDnode_of_slot hslot (by decide)
  obtain ⟨-, -, -, hbonus, hinline⟩ := decode_bothDnodes
  rw [value_zplReadFile_of_context context_bothBody, bodyDisk_bothBody, bothZpl, value_zplAttrs hdnode, hbonus,
    if_neg (by decide), if_neg (by decide)]
  refine value_zplReadFileWith_of_inline isMount_bothSlots.holds hslot ?_ none
  rw [endian_objsetOf_zfsObjset]
  exact hinline

/-- What the three walks find on the file. -/
theorem facts_bothBody :
    (mosDnode (bodyDisk plainCtx bothBody) bothZpl 3).value = some bothFile ∧
      (saXattrs (bodyDisk plainCtx bothBody) bothZpl bothFile).value = [⟨[0x61], [1]⟩] ∧
      (dirXattrs (bodyDisk plainCtx bothBody) bothZpl bothFile).value = [⟨[0x62], [9] ++ zeros 511⟩] ∧
      (listXattrs (bodyDisk plainCtx bothBody) bothZpl 3).value = [⟨[0x61], [1]⟩] := by
  have hslot : bothSlots[(3 : UInt64).toNat]? = some (inlineBonusSlot 19 dmuOtSa (padTo 112 [1, 2, 3]) bothBonus) := rfl
  have hdnode : (mosDnode (bodyDisk plainCtx bothBody) bothZpl 3).value = some bothFile := by
    rw [bodyDisk_bothBody, bothZpl, bothFile]
    exact isMount_bothSlots.mosDnode_of_slot hslot (by decide)
  obtain ⟨hpacked, hdir⟩ := bonus_bothFile
  obtain ⟨packed, hbytes, hpairs⟩ := Option.map_eq_some_iff.1 hpacked
  have hsa : (saXattrs (bodyDisk plainCtx bothBody) bothZpl bothFile).value = [⟨[0x61], [1]⟩] :=
    (value_saXattrs context_bothBody hbytes).trans hpairs
  refine ⟨hdnode, hsa, ?_, ?_⟩
  · rw [value_dirXattrs context_bothBody hdir, hiddenDirectory_bothBody, xattrFiles, value_bind, hiddenFile_bothBody]
    rfl
  · rw [value_listXattrs hdnode, hsa, if_neg (by decide)]

/-- The hidden attribute of the file is not listed. -/
theorem hidden_attribute_omitted :
    (listXattrs (readBlock plainCtx bothImage) bothZpl 3).value = [⟨[0x61], [1]⟩] ∧
      IsHidden (readBlock plainCtx bothImage) bothZpl bothFile ⟨[0x62], [9] ++ zeros 511⟩ ∧
      ¬ NoneOmitted (readBlock plainCtx bothImage) bothZpl 3 := by
  obtain ⟨hdnode, -, hdir, hlist⟩ := facts_bothBody
  rw [bothImage, readBlock_imageOf]
  have hhidden : IsHidden (bodyDisk plainCtx bothBody) bothZpl bothFile ⟨[0x62], [9] ++ zeros 511⟩ := by
    rw [← mem_dirXattrs_iff_isHidden, hdir]
    exact List.mem_singleton.2 rfl
  refine ⟨hlist, hhidden, fun h => ?_⟩
  have hmem := h bothFile hdnode _ (Or.inr hhidden)
  rw [hlist, List.mem_singleton, Xattr.mk.injEq] at hmem
  exact absurd hmem.1 (by decide)

end ZfsForensic
