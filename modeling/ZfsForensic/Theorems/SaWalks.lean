import ZfsForensic.Lemmas.SaWalk

/-!
# What the walks over a bonus give

Two walks go over the attributes of a bonus: the decoding, which keeps the core attributes and stops with defaults, and the search for one
attribute by name. On the core attributes they agree. The decoding surfaces at most one unregistered id, the first the walk comes to.
-/

namespace ZfsForensic

open Octets Checked

/-! ## The two walks agree -/

/-- In a registry of distinct ids an attribute found by name is the one of its id. -/
theorem SaRegistry.entry_of_byName {registry : SaRegistry} (hnodup : (registry.entries.map fun e => e.2.id).Nodup)
    {name : Bytes} {desc : SaAttrDesc} (hname : registry.byName name = some desc) :
    (name, desc) ∈ registry.entries ∧ ∀ e ∈ registry.entries, e.2.id = desc.id → e = (name, desc) := by
  unfold byName at hname
  obtain ⟨e, hfind, rfl⟩ := Option.map_eq_some_iff.1 hname
  have hmem := List.mem_of_find?_eq_some hfind
  have he : e.1 = name := by simpa using List.find?_some hfind
  have hpair : (name, e.2) = e := by rw [← he]
  rw [hpair]
  exact ⟨hmem, fun e' he' hid => List.inj_on_of_nodup_map hnodup he' hmem hid⟩

/-- Its registered size is the one found by its id. -/
theorem SaRegistry.fixedSize_of_byName {registry : SaRegistry} (hnodup : (registry.entries.map fun e => e.2.id).Nodup)
    {name : Bytes} {desc : SaAttrDesc} (hname : registry.byName name = some desc) :
    registry.fixedSize desc.id = desc.size.toNat := by
  obtain ⟨hmem, honly⟩ := registry.entry_of_byName hnodup hname
  unfold fixedSize sizeOf
  cases hfind : registry.entries.find? (fun e => e.2.id == desc.id) with
  | none =>
    have hnone := List.find?_eq_none.1 hfind _ hmem
    exact absurd (beq_self_eq_true desc.id) hnone
  | some e =>
    have hid : e.2.id = desc.id := by simpa using List.find?_some hfind
    rw [honly e (List.mem_of_find?_eq_some hfind) hid]
    rfl

/-- In a registry of distinct ids no two core attributes have one id. -/
theorem CoreAttr.eq_of_known {registry : SaRegistry} (hnodup : (registry.entries.map fun e => e.2.id).Nodup) {c : CoreAttr}
    {desc : SaAttrDesc} (hname : registry.byName c.name = some desc) (c' : CoreAttr)
    (h : some desc.id = c'.known (knownAttrs registry)) : c' = c := by
  rw [CoreAttr.known_knownAttrs] at h
  obtain ⟨desc', hname', hid⟩ := Option.map_eq_some_iff.1 h.symm
  have hentry := (registry.entry_of_byName hnodup hname).2 _ (registry.entry_of_byName hnodup hname').1 hid
  exact CoreAttr.name_inj (congrArg Prod.fst hentry)

/-- The words at the start of a part of some bytes are those at its place. -/
theorem CoreAttr.read_of_slice (c : CoreAttr) (e : Endian) {data s : Bytes} {a b : Nat} (h : slice? data a b = some s)
    (hneed : a + c.need ≤ b) : c.read ⟨e⟩ s 0 = c.read ⟨e⟩ data a := by
  have hword : ∀ i, a + i + 8 ≤ b → (Reader.mk e).u64 s i = (Reader.mk e).u64 data (a + i) := by
    intro i hi
    have hlen := slice?_length h
    obtain ⟨hab, hbl, -⟩ := slice?_eq_some_iff.1 h
    have hread : readUint e 8 s i = readUint e 8 data (a + i) := by
      refine (readUint_eq_iff (by omega) (by omega)).2 fun r hr => ?_
      rw [getElem?_of_slice? h (by omega), Nat.add_assoc]
    rw [Reader.u64_eq, Reader.u64_eq, hread]
  unfold read
  unfold need saTimeSize at hneed
  split
  · rename_i htime
    rw [if_pos htime] at hneed
    rw [hword 0 (by omega), hword (0 + 8) (by omega)]
    rfl
  · rename_i htime
    rw [if_neg htime] at hneed
    rw [hword 0 (by omega)]
    rfl

/-- The decoding of a bonus and the search for an attribute agree on every core attribute of sufficient size that only attributes of a
size of their own precede: where the search finds bytes the field is the words they begin with, and where it does not the field is
zero. The decoding fails exactly where the magic or the layout does. -/
theorem sa_walks_agree (bonus : Bytes) (registry : SaRegistry) (layouts : SaLayouts) (e : Endian) (c : CoreAttr)
    (desc : SaAttrDesc) (hlen : bonus.length < 2 ^ 63) (hregistry : (registry.entries.map fun e => e.2.id).Nodup)
    (hlayout : ∀ ids, layouts.attrIds (saLayoutNum (leU16 bonus 4)) = some ids →
      ids.Nodup ∧ ∀ before after, ids = before ++ desc.id :: after →
        ∀ id ∈ before, ∃ size, registry.sizeOf id = some size ∧ size ≠ 0)
    (hname : registry.byName c.name = some desc) (hsize : c.need ≤ desc.size.toNat) :
    (∀ attrs, decodeSaBonus bonus registry layouts e = some attrs →
      c.field attrs = match saAttrBytes bonus registry layouts c.name with
        | some bytes => c.read ⟨e⟩ bytes 0
        | none => c.zero) ∧
    (decodeSaBonus bonus registry layouts e = none ↔
      leU32 bonus 0 ≠ saMagic ∨ layouts.attrIds (saLayoutNum (leU16 bonus 4)) = none) := by
  have hfixed := registry.fixedSize_of_byName hregistry hname
  have hneed : 0 < c.need := by cases c <;> decide
  have hself : some desc.id = c.known (knownAttrs registry) := by rw [CoreAttr.known_knownAttrs, hname, Option.map_some]
  have hother : ∀ {ids : List UInt16}, desc.id ∉ ids → ∀ id ∈ ids, some id ≠ c.known (knownAttrs registry) := by
    intro ids hnot id hid heq
    rw [← hself, Option.some.injEq] at heq
    exact hnot (heq ▸ hid)
  constructor
  · intro attrs hdecode
    rw [decodeSaBonus] at hdecode
    by_cases hmagic : leU32 bonus 0 ≠ saMagic
    · rw [if_pos hmagic] at hdecode
      cases hdecode
    rw [if_neg hmagic] at hdecode
    dsimp only at hdecode
    cases hids : layouts.attrIds (saLayoutNum (leU16 bonus 4)) with
    | none =>
      rw [hids] at hdecode
      cases hdecode
    | some ids =>
      rw [hids, Option.some.injEq] at hdecode
      obtain ⟨hnodup, hbefore⟩ := hlayout ids hids
      have hsearch : saAttrBytes bonus registry layouts c.name =
          saAttrWalk bonus registry (saHdrsz (leU16 bonus 4)) desc.id ids 0 (saHdrsz (leU16 bonus 4)) := by
        rw [saAttrBytes, if_neg hmagic]
        dsimp only
        rw [hids, hname]
      rw [hsearch, ← hdecode]
      generalize saHdrsz (leU16 bonus 4) = hdrsz
      by_cases hmem : desc.id ∈ ids
      · obtain ⟨before, after, rfl⟩ := List.append_of_mem hmem
        have hnot : desc.id ∉ before := fun h => (List.nodup_append.1 hnodup).2.2 _ h _ List.mem_cons_self rfl
        have hafter : desc.id ∉ after := (List.nodup_cons.1 (List.nodup_append.1 hnodup).2.1).1
        have hsizes : ∀ id ∈ before, registry.fixedSize id ≠ 0 := by
          intro id hid
          obtain ⟨size, hregistered, hne⟩ := hbefore before after rfl id hid
          rw [SaRegistry.fixedSize, hregistered]
          exact fun h => hne (UInt16.toNat_inj.1 h)
        rw [saAttrWalk_of_fixed (by omega) hsizes hnot (by omega),
          field_saWalk_of_fixed hlen registry ⟨e⟩ (knownAttrs registry) (fun id hid => ⟨hsizes id hid, hother hnot id hid⟩) hself
            (CoreAttr.eq_of_known hregistry hname) (by omega) (by omega) (hother hafter)]
        split
        · rename_i hfits
          rw [slice?_of_le (by omega) hfits]
          exact (c.read_of_slice e (slice?_of_le (by omega) hfits) (by omega)).symm
        · rename_i hfits
          rw [slice?_eq_none_of_lt (by omega), c.field_default]
      · rw [saAttrWalk_of_notMem hmem, field_saWalk_of_ne bonus registry ⟨e⟩ (hother hmem), c.field_default]
  · rw [decodeSaBonus]
    by_cases hmagic : leU32 bonus 0 ≠ saMagic
    · simp [hmagic]
    · rw [if_neg hmagic]
      dsimp only
      cases hids : layouts.attrIds (saLayoutNum (leU16 bonus 4)) with
      | none => simp
      | some ids => simpa using hmagic

/-- A bonus of layout 2: a header of eight bytes, an access time of two words, and a mode. -/
def timedBonus : Bytes :=
  [encode .little 4 saMagic.toNat, encode .little 2 0x0402, zeros 2, encode .little 8 11, encode .little 8 12,
    encode .little 8 0o100644].flatten

/-- A registry that names both. -/
def timedRegistry : SaRegistry := ⟨[(ascii "ZPL_MODE", ⟨5, 8, 0⟩), (ascii "ZPL_ATIME", ⟨0, 16, 0⟩)]⟩

/-- The layout: the time, the mode, and an attribute that is not registered. -/
def timedLayouts : SaLayouts := ⟨[(2, [0, 5, 100])]⟩

/-- The mode is found by both walks, behind the sixteen bytes of the time. -/
theorem sa_walks_agree_behind_atime :
    saAttrBytes timedBonus timedRegistry timedLayouts CoreAttr.mode.name = some (encode .little 8 0o100644) ∧
      ∀ attrs, decodeSaBonus timedBonus timedRegistry timedLayouts .little = some attrs → attrs.mode = 0o100644 := by
  have hbytes : saAttrBytes timedBonus timedRegistry timedLayouts CoreAttr.mode.name = some (encode .little 8 0o100644) := by
    decide
  refine ⟨hbytes, fun attrs hdecode => ?_⟩
  have hlayout : ∀ ids, timedLayouts.attrIds (saLayoutNum (leU16 timedBonus 4)) = some ids →
      ids.Nodup ∧ ∀ before after, ids = before ++ 5 :: after →
        ∀ id ∈ before, ∃ size, timedRegistry.sizeOf id = some size ∧ size ≠ 0 := by
    intro ids hids
    have hlayout2 : timedLayouts.attrIds (saLayoutNum (leU16 timedBonus 4)) = some [0, 5, 100] := by decide
    rw [hlayout2, Option.some.injEq] at hids
    subst hids
    refine ⟨by decide, ?_⟩
    rintro (_ | ⟨a, _ | ⟨b, before⟩⟩) after hsplit id hid
    · exact absurd hid List.not_mem_nil
    · obtain rfl : 0 = a := (List.cons.inj hsplit).1
      rw [List.mem_singleton.1 hid]
      exact ⟨16, by decide, by decide⟩
    · -- the mode is the second attribute of the layout and stands in it once
      have hnodup : (a :: b :: before ++ 5 :: after).Nodup := hsplit ▸ (by decide)
      obtain rfl : 5 = b := (List.cons.inj (List.cons.inj hsplit).2).1
      have hrest := (List.nodup_cons.1 (List.nodup_cons.1 hnodup).2).1
      exact absurd (List.mem_append_right before List.mem_cons_self) hrest
  have hagree := (sa_walks_agree timedBonus timedRegistry timedLayouts .little .mode ⟨5, 8, 0⟩ (by decide) (by decide)
    hlayout (by decide) (by decide)).1 attrs hdecode
  rw [hbytes] at hagree
  have hread : CoreAttr.mode.read ⟨.little⟩ (encode .little 8 0o100644) 0 = [0o100644] := by decide
  dsimp only at hagree
  rw [hread] at hagree
  exact (List.cons.inj hagree).1

/-! ## Unregistered ids -/

/-- The ids of a layout the registry does not name are surfaced, in the order of the layout. -/
structure UnknownSurfaced (registry : SaRegistry) (ids : List UInt16) (attrs : ZplAttrs) : Prop where
  surfaced : ∀ id ∈ ids, registry.sizeOf id = none → id ∈ attrs.unknownAttrIds
  in_order : attrs.unknownAttrIds.Sublist ids

/-- The unregistered ids of a layout are surfaced exactly where there is none, or the walk passes everything in front of the first and
there is no other. -/
theorem unknown_ids_surfaced_iff (bonus : Bytes) (registry : SaRegistry) (layouts : SaLayouts) (e : Endian) (attrs : ZplAttrs)
    (ids : List UInt16) (hlen : bonus.length < 2 ^ 63) (hdecode : decodeSaBonus bonus registry layouts e = some attrs)
    (hids : layouts.attrIds (saLayoutNum (leU16 bonus 4)) = some ids) :
    UnknownSurfaced registry ids attrs ↔
      (∀ id ∈ ids, registry.sizeOf id ≠ none) ∨
        ∃ before id after, ids = before ++ id :: after ∧ Passed registry bonus.length (saHdrsz (leU16 bonus 4)) before ∧
          registry.sizeOf id = none ∧ ∀ id' ∈ after, registry.sizeOf id' = none → id' = id := by
  have hwalk : attrs =
      saWalk bonus registry ⟨e⟩ (knownAttrs registry) ids ZplAttrs.default (saHdrsz (leU16 bonus 4)) := by
    rw [decodeSaBonus] at hdecode
    split at hdecode
    · cases hdecode
    · dsimp only at hdecode
      rw [hids, Option.some.injEq] at hdecode
      exact hdecode.symm
  have hdefault : ZplAttrs.default.unknownAttrIds = [] := rfl
  have hsurfaced := unknownAttrIds_saWalk hlen registry ⟨e⟩ (knownAttrs registry) ids ZplAttrs.default (saHdrsz (leU16 bonus 4))
  rw [← hwalk, hdefault] at hsurfaced
  constructor
  · intro h
    by_cases hall : ∀ id ∈ ids, registry.sizeOf id ≠ none
    · exact Or.inl hall
    · right
      obtain ⟨unknown, hmem, hunknown⟩ : ∃ id ∈ ids, registry.sizeOf id = none := by simpa using hall
      rcases hsurfaced with hnone | ⟨before, id, after, rfl, hpassed, hregistered, hone⟩
      · have hin := h.surfaced unknown hmem hunknown
        rw [hnone] at hin
        exact absurd hin List.not_mem_nil
      · refine ⟨before, id, after, rfl, hpassed, hregistered, fun id' hid' hnone' => ?_⟩
        have hin := h.surfaced id' (List.mem_append_right _ (List.mem_cons_of_mem _ hid')) hnone'
        rw [hone] at hin
        exact List.mem_singleton.1 hin
  · rintro (hall | ⟨before, id, after, rfl, hpassed, hregistered, hrest⟩)
    · refine ⟨fun id hid hnone => absurd hnone (hall id hid), ?_⟩
      rcases hsurfaced with hnone | ⟨before, id, after, rfl, -, hregistered, -⟩
      · rw [hnone]
        exact List.nil_sublist _
      · exact absurd hregistered (hall id (List.mem_append_right _ List.mem_cons_self))
    · obtain ⟨attrs', hunknown, -, hgoes⟩ := saWalk_of_passed hlen registry ⟨e⟩ (knownAttrs registry) hpassed ZplAttrs.default
      have hone : attrs.unknownAttrIds = [id] := by
        rw [hwalk, hgoes, saWalk, hregistered]
        dsimp only
        rw [hunknown, hdefault]
        rfl
      refine ⟨fun id' hid' hnone' => ?_, ?_⟩
      · rw [hone, List.mem_singleton]
        rcases List.mem_append.1 hid' with hid' | hid'
        · exact absurd hnone' (hpassed.registered id' hid')
        · rcases List.mem_cons.1 hid' with rfl | hid'
          · rfl
          · exact hrest id' hid' hnone'
      · rw [hone]
        exact (List.singleton_sublist.2 List.mem_cons_self).trans (List.sublist_append_right before _)

/-- A bonus of layout 2: a header of eight bytes, and a mode. -/
def modeBonus : Bytes := encode .little 4 saMagic.toNat ++ encode .little 2 0x0402 ++ zeros 2 ++ encode .little 8 0o100644

/-- A registry that names the mode alone. -/
def modeRegistry : SaRegistry := ⟨[(ascii "ZPL_MODE", ⟨5, 8, 0⟩)]⟩

/-- Of two unregistered ids the second is dropped. -/
theorem second_unknown_id_dropped :
    ∃ attrs, decodeSaBonus modeBonus modeRegistry ⟨[(2, [5, 100, 101])]⟩ .little = some attrs ∧
      attrs.unknownAttrIds = [100] ∧ modeRegistry.sizeOf 101 = none ∧ ¬ UnknownSurfaced modeRegistry [5, 100, 101] attrs := by
  have hone : (decodeSaBonus modeBonus modeRegistry ⟨[(2, [5, 100, 101])]⟩ .little).map ZplAttrs.unknownAttrIds = some [100] := by
    decide
  obtain ⟨attrs, hdecode, hunknown⟩ := Option.map_eq_some_iff.1 hone
  have hnone : modeRegistry.sizeOf 101 = none := by decide
  refine ⟨attrs, hdecode, hunknown, hnone, fun h => ?_⟩
  have hin := h.surfaced 101 (by decide) hnone
  rw [hunknown] at hin
  exact absurd hin (by decide)

/-- One unregistered id behind the mode is surfaced. -/
theorem unknown_id_surfaced_behind_mode :
    ∃ attrs, decodeSaBonus modeBonus modeRegistry ⟨[(2, [5, 100])]⟩ .little = some attrs ∧
      UnknownSurfaced modeRegistry [5, 100] attrs := by
  obtain ⟨attrs, hdecode⟩ : ∃ attrs, decodeSaBonus modeBonus modeRegistry ⟨[(2, [5, 100])]⟩ .little = some attrs :=
    Option.isSome_iff_exists.1 (by decide)
  refine ⟨attrs, hdecode, (unknown_ids_surfaced_iff modeBonus modeRegistry ⟨[(2, [5, 100])]⟩ .little attrs [5, 100]
    (by decide) hdecode (by decide)).2 (Or.inr ⟨[5], 100, [], rfl, ?_, by decide, ?_⟩)⟩
  · exact ⟨by decide, by decide, trivial⟩
  · intro id hid
    exact absurd hid List.not_mem_nil

end ZfsForensic
