import ZfsForensic.Lemmas.SaWalk
import ZfsForensic.Theorems.ByteOrder

/-!
# Writing attributes

A bonus is written with one layout of a dataset: a header that names it, and the core attributes in its order, each in as many words as it
needs. Any order will do, and any ids, as long as the registry gives each attribute its id and its size. The decoding gives the attributes
back.
-/

namespace ZfsForensic

open Octets Checked

/-- A layout of all core attributes in some order, under the ids and sizes of a registry. -/
structure SaOrder (registry : SaRegistry) (layouts : SaLayouts) where
  num : Nat
  order : List CoreAttr
  id : CoreAttr → UInt16
  num_lt : num < 2 ^ 10
  nodup : order.Nodup
  complete : ∀ c, c ∈ order
  id_inj : ∀ c c', id c = id c' → c = c'
  layout : layouts.attrIds (UInt64.ofNat num) = some (order.map id)
  named : ∀ c, (registry.byName c.name).map SaAttrDesc.id = some (id c)
  sized : ∀ c, registry.fixedSize (id c) = c.need

/-- The value of a core attribute, as it is stored. -/
def CoreAttr.value (attrs : ZplAttrs) (c : CoreAttr) : SaValue := ⟨8, (c.field attrs).map UInt64.toNat⟩

namespace SaOrder

variable {registry : SaRegistry} {layouts : SaLayouts} (w : SaOrder registry layouts)

/-- A header of one unit. -/
theorem oneUnit_lt : 1 < 2 ^ 6 := by decide

/-- The record of some attributes. -/
def phys (attrs : ZplAttrs) : SaPhys where
  layoutNum := w.num
  hdrUnits := 1
  values := w.order.map (CoreAttr.value attrs)
  layoutNum_lt := w.num_lt
  hdrUnits_pos := Nat.one_pos
  hdrUnits_lt := oneUnit_lt

/-- The bonus of some attributes. -/
def encode (attrs : ZplAttrs) : Bytes := (w.phys attrs).encode .little

/-- The header of a bonus. -/
def header : Bytes := Octets.encode .little 4 saMagic.toNat ++ Octets.encode .little 2 (w.num + 2 ^ 10 * 1) ++ zeros 2

theorem encode_eq (attrs : ZplAttrs) :
    w.encode attrs = w.header ++ (w.order.map (CoreAttr.value attrs)).flatMap (SaValue.encode .little) := rfl

theorem length_header : w.header.length = 8 := by
  rw [header, List.length_append, List.length_append, Octets.length_encode, Octets.length_encode, length_zeros]

end SaOrder

/-! ## Sizes -/

theorem CoreAttr.length_value (attrs : ZplAttrs) (c : CoreAttr) : ((CoreAttr.value attrs c).encode .little).length = c.need := by
  rw [SaValue.encode, length_encodeWords, value]
  cases c <;> rfl

theorem CoreAttr.length_values (attrs : ZplAttrs) (cs : List CoreAttr) :
    ((cs.map (CoreAttr.value attrs)).flatMap (SaValue.encode .little)).length = (cs.map CoreAttr.need).sum := by
  induction cs with
  | nil => rfl
  | cons c cs ih => rw [List.map_cons, List.flatMap_cons, List.length_append, length_value, ih, List.map_cons, List.sum_cons]

section Decode

variable {registry : SaRegistry} {layouts : SaLayouts} (w : SaOrder registry layouts) (attrs : ZplAttrs)

/-- The order is one of all twelve attributes. -/
theorem SaOrder.sum_need : (w.order.map CoreAttr.need).sum = 128 := by
  have hperm : w.order.Perm CoreAttr.all :=
    (List.perm_ext_iff_of_nodup w.nodup (by decide)).2 fun c => ⟨fun _ => c.mem_all, fun _ => w.complete c⟩
  rw [(hperm.map CoreAttr.need).sum_eq]
  rfl

theorem SaOrder.length_encode : (w.encode attrs).length = 136 := by
  rw [encode_eq, List.length_append, length_header, CoreAttr.length_values, sum_need]

theorem SaOrder.totalSize (cs : List CoreAttr) : registry.totalSize (cs.map w.id) = (cs.map CoreAttr.need).sum := by
  rw [SaRegistry.totalSize, List.map_map]
  congr 1
  refine List.map_congr_left fun c _ => ?_
  exact w.sized c

/-- The header names the layout, and the values begin behind it. -/
theorem SaOrder.read_header (rest : Bytes) : leU32 (w.header ++ rest) 0 = saMagic ∧
    saLayoutNum (leU16 (w.header ++ rest) 4) = UInt64.ofNat w.num ∧ saHdrsz (leU16 (w.header ++ rest) 4) = 8 := by
  have hnum := w.num_lt
  have hmagic : leU32 (w.header ++ rest) 0 = saMagic := by
    simp only [leU32, header, List.append_assoc]
    rw [readUint_encode]
    rfl
  have hinfo : (leU16 (w.header ++ rest) 4).toNat = w.num + 2 ^ 10 := by
    simp only [leU16, header, List.append_assoc]
    rw [readUint_append_right (by rw [Octets.length_encode]), Octets.length_encode, Nat.sub_self, readUint_encode, UInt16.toNat_ofNat']
    omega
  have hmask : (0x3ff : UInt16).toNat = 2 ^ 10 - 1 := rfl
  have hmask' : (0x3f : UInt16).toNat = 2 ^ 6 - 1 := rfl
  have hshift : ((10 : UInt16).toNat) % 16 = 10 := rfl
  refine ⟨hmagic, UInt64.toNat_inj.1 ?_, ?_⟩
  · rw [saLayoutNum, UInt16.toNat_toUInt64, UInt16.toNat_and, hmask, Nat.and_two_pow_sub_one_eq_mod, hinfo, UInt64.toNat_ofNat']
    omega
  · have hone : (w.num + 2 ^ 10) / 2 ^ 10 % 2 ^ 6 = 1 := by omega
    rw [saHdrsz, UInt16.toNat_and, hmask', Nat.and_two_pow_sub_one_eq_mod, UInt16.toNat_shiftRight, hshift, hinfo,
      Nat.shiftRight_eq_div_pow, hone]
    rfl

/-- A core attribute is read in its place of the order. -/
theorem CoreAttr.read_of_part {data : Bytes} {off : Nat} (c : CoreAttr) (h : Part data off ((CoreAttr.value attrs c).encode .little)) :
    c.read ⟨.little⟩ data off = c.field attrs := by
  have hword : ∀ {v : UInt64} {k : Nat}, Part data (off + k) (Octets.encode .little 8 v.toNat) →
      (Reader.mk .little).u64 data (off + k) = v := by
    intro v k hpart
    rw [Reader.u64_eq, hpart.readUint v.toNat_lt, UInt64.ofNat_toNat]
  have hone : ∀ {v : UInt64}, Part data off (encodeWords .little 8 [v.toNat]) → (Reader.mk .little).u64 data off = v := by
    intro v hpart
    rw [encodeWords, List.flatMap_cons, List.flatMap_nil, List.append_nil] at hpart
    exact hword (k := 0) hpart
  have htwo : ∀ {v u : UInt64}, Part data off (encodeWords .little 8 [v.toNat, u.toNat]) →
      (Reader.mk .little).u64 data off = v ∧ (Reader.mk .little).u64 data (off + 8) = u := by
    intro v u hpart
    rw [encodeWords, List.flatMap_cons, List.flatMap_cons, List.flatMap_nil, List.append_nil] at hpart
    have hright := hpart.right
    rw [Octets.length_encode] at hright
    exact ⟨hword (k := 0) hpart.left, hword hright⟩
  rw [SaValue.encode, value] at h
  cases c <;> first | exact congrArg (fun v => [v]) (hone h) | exact congrArg₂ (fun v u => [v, u]) (htwo h).1 (htwo h).2

/-- Attributes are told by their fields. -/
theorem ZplAttrs.ext_fields {a b : ZplAttrs} (h : ∀ c : CoreAttr, c.field a = c.field b) (hunknown : a.unknownAttrIds = b.unknownAttrIds) :
    a = b := by
  have hmode := h .mode
  have hsize := h .size
  have hlinks := h .links
  have huid := h .uid
  have hgid := h .gid
  have hgen := h .gen
  have hparent := h .parent
  have hflags := h .flags
  have hatime := h .atime
  have hmtime := h .mtime
  have hctime := h .ctime
  have hcrtime := h .crtime
  simp only [CoreAttr.field, List.cons.injEq, and_true] at *
  obtain ⟨a1, a2, a3, a4, a5, a6, a7, a8, a9, a10, a11, a12, a13⟩ := a
  obtain ⟨b1, b2, b3, b4, b5, b6, b7, b8, b9, b10, b11, b12, b13⟩ := b
  simp_all [Prod.ext_iff]

/-- Each attribute has its place behind those before it. -/
theorem SaOrder.part_value {before after : List CoreAttr} {c : CoreAttr} (horder : w.order = before ++ c :: after) :
    Part (w.encode attrs) (8 + (before.map CoreAttr.need).sum) ((CoreAttr.value attrs c).encode .little) := by
  have hsplit : w.encode attrs = w.header ++ (before.map (CoreAttr.value attrs)).flatMap (SaValue.encode .little) ++
      (CoreAttr.value attrs c).encode .little ++ (after.map (CoreAttr.value attrs)).flatMap (SaValue.encode .little) := by
    rw [encode_eq, horder]
    simp only [List.map_append, List.map_cons, List.flatMap_append, List.flatMap_cons, List.append_assoc]
  have hfront : (w.header ++ (before.map (CoreAttr.value attrs)).flatMap (SaValue.encode .little)).length =
      8 + (before.map CoreAttr.need).sum := by
    rw [List.length_append, length_header, CoreAttr.length_values]
  rw [hsplit, ← hfront]
  exact part_middle _ _ _

/-- The ids of the order are those of the registry. -/
theorem SaOrder.known (c : CoreAttr) : some (w.id c) = c.known (knownAttrs registry) := by
  rw [CoreAttr.known_knownAttrs, w.named c]

theorem SaOrder.eq_of_known {c c' : CoreAttr} (h : some (w.id c) = c'.known (knownAttrs registry)) : c' = c :=
  w.id_inj c' c (Option.some.inj (by rw [w.known c', h]))

theorem SaOrder.fixedSize_ne (c : CoreAttr) : registry.fixedSize (w.id c) ≠ 0 := by
  rw [w.sized c]
  cases c <;> decide

/-- The walk over a written bonus stores every attribute. -/
theorem SaOrder.field_saWalk (c : CoreAttr) :
    c.field (saWalk (w.encode attrs) registry ⟨.little⟩ (knownAttrs registry) (w.order.map w.id) ZplAttrs.default 8) = c.field attrs := by
  have hlen : (w.encode attrs).length < 2 ^ 63 := by
    rw [w.length_encode]
    decide
  obtain ⟨before, after, horder⟩ := List.append_of_mem (w.complete c)
  have hnodup := w.nodup
  rw [horder, List.nodup_append, List.nodup_cons] at hnodup
  have hbefore : ∀ id ∈ before.map w.id, registry.fixedSize id ≠ 0 ∧ some id ≠ c.known (knownAttrs registry) := by
    intro id hid
    obtain ⟨c', hc', rfl⟩ := List.mem_map.1 hid
    exact ⟨w.fixedSize_ne c', fun heq => hnodup.2.2 c' hc' c List.mem_cons_self (w.eq_of_known heq).symm⟩
  have hafter : ∀ id ∈ after.map w.id, some id ≠ c.known (knownAttrs registry) := by
    intro id hid heq
    obtain ⟨c', hc', rfl⟩ := List.mem_map.1 hid
    rw [w.eq_of_known heq] at hnodup
    exact hnodup.2.1.1 hc'
  have hpart := w.part_value attrs horder
  have hend := hpart.end_le
  rw [CoreAttr.length_value] at hend
  rw [horder, List.map_append, List.map_cons, field_saWalk_of_fixed hlen registry ⟨.little⟩ (knownAttrs registry) hbefore (w.known c)
    (fun c' h => w.eq_of_known h) (by rw [w.sized c]) (w.fixedSize_ne c) hafter, w.totalSize, w.sized c, if_pos hend]
  exact CoreAttr.read_of_part attrs c hpart

/-- It surfaces no id. -/
theorem SaOrder.unknown_saWalk :
    (saWalk (w.encode attrs) registry ⟨.little⟩ (knownAttrs registry) (w.order.map w.id) ZplAttrs.default 8).unknownAttrIds = [] := by
  have hlen : (w.encode attrs).length < 2 ^ 63 := by
    rw [w.length_encode]
    decide
  rcases unknownAttrIds_saWalk hlen registry ⟨.little⟩ (knownAttrs registry) (w.order.map w.id) ZplAttrs.default 8 with h | h
  · exact h
  · obtain ⟨before, id, after, hids, -, hregistered, -⟩ := h
    have hmem : id ∈ w.order.map w.id := by
      rw [hids]
      exact List.mem_append_right _ List.mem_cons_self
    obtain ⟨c, -, rfl⟩ := List.mem_map.1 hmem
    have hzero : registry.fixedSize (w.id c) = 0 := by
      rw [SaRegistry.fixedSize, hregistered]
      rfl
    exact absurd hzero (w.fixedSize_ne c)

/-- A written bonus is decoded to its attributes, whatever the order of the layout. -/
theorem SaOrder.decode_encode (hunknown : attrs.unknownAttrIds = []) :
    decodeSaBonus (w.encode attrs) registry layouts .little = some attrs := by
  obtain ⟨hmagic, hnum, hhdrsz⟩ := w.read_header ((w.order.map (CoreAttr.value attrs)).flatMap (SaValue.encode .little))
  rw [← encode_eq] at hmagic hnum hhdrsz
  rw [decodeSaBonus, if_neg (fun hne => hne hmagic)]
  dsimp only
  rw [hnum, w.layout, hhdrsz]
  dsimp only
  rw [ZplAttrs.ext_fields (w.field_saWalk attrs) ((w.unknown_saWalk attrs).trans hunknown.symm)]

end Decode

end ZfsForensic
