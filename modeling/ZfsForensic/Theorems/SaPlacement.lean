import ZfsForensic.Lemmas.SaWalk
import ZfsForensic.Lib.Align

/-!
# Where an attribute stands in a bonus

On disk the attributes of a bonus follow its header in the order of the layout, each from the next multiple of eight on, and the header
has the lengths of the variable-length ones in that order. The search for an attribute adds up the sizes in front of it, so it looks in
the right place exactly where all of these are multiples of eight.
-/

namespace ZfsForensic

open Octets Checked

/-! ## The format -/

/-- The lengths of the variable-length attributes among attributes of these lengths. -/
def variableLengths (registry : SaRegistry) (shape : List (UInt16 × Nat)) : List Nat :=
  (shape.filter fun s => registry.fixedSize s.1 == 0).map Prod.snd

/-- A header for attributes of these ids and lengths: it has the magic and a layout of these ids, all distinct and registered, and holds
the lengths of the variable-length ones; the others have their registered size. -/
structure SaHeader (registry : SaRegistry) (layouts : SaLayouts) (header : Bytes) (shape : List (UInt16 × Nat)) : Prop where
  length : header.length = saHdrsz (leU16 header 4)
  magic : leU32 header 0 = saMagic
  layout : layouts.attrIds (saLayoutNum (leU16 header 4)) = some (shape.map Prod.fst)
  distinct : (shape.map Prod.fst).Nodup
  registered : ∀ s ∈ shape, registry.sizeOf s.1 ≠ none
  fixed : ∀ s ∈ shape, registry.fixedSize s.1 ≠ 0 → s.2 = registry.fixedSize s.1
  lengths : ∀ i len, (variableLengths registry shape)[i]? = some len →
    6 + i * 2 + 2 ≤ header.length ∧ (leU16 header (6 + i * 2)).toNat = len

/-- Attributes stand in some bytes from an offset on, each from the next multiple of eight behind the one before. -/
def SaStored (data : Bytes) : Nat → List (UInt16 × Bytes) → Prop
  | _, [] => True
  | off, v :: values => Part data off v.2 ∧ SaStored data (Align.roundUp 8 (off + v.2.length)) values

/-- The ids and lengths of some attributes. -/
def shapeOf (values : List (UInt16 × Bytes)) : List (UInt16 × Nat) := values.map fun v => (v.1, v.2.length)

/-- In every bonus of this header, however its attributes of these lengths are assigned, the search finds what is assigned to a name. -/
def FoundByName (registry : SaRegistry) (layouts : SaLayouts) (header : Bytes) (shape : List (UInt16 × Nat)) : Prop :=
  ∀ values body, shapeOf values = shape → SaStored (header ++ body) header.length values →
    ∀ v ∈ values, ∀ name desc, registry.byName name = some desc → desc.id = v.1 →
      saAttrBytes (header ++ body) registry layouts name = some v.2

/-! ## Places -/

/-- Attributes stand each in its place. -/
theorem saStored_iff (data : Bytes) (off : Nat) (values : List (UInt16 × Bytes)) :
    SaStored data off values ↔ ∀ before v after, values = before ++ v :: after →
      Part data (Align.place 8 off (before.map fun v => v.2.length)) v.2 := by
  induction values generalizing off with
  | nil =>
    refine ⟨fun _ before v after h => ?_, fun _ => trivial⟩
    exact absurd h.symm (List.append_ne_nil_of_right_ne_nil before (List.cons_ne_nil v after))
  | cons w values ih =>
    rw [SaStored, ih]
    constructor
    · rintro ⟨hfirst, hrest⟩ (_ | ⟨u, before⟩) v after h
      · obtain ⟨rfl, rfl⟩ := List.cons.inj h
        exact hfirst
      · obtain ⟨rfl, rfl⟩ := List.cons.inj h
        exact hrest before v after rfl
    · intro h
      refine ⟨h [] w values rfl, fun before v after hsplit => ?_⟩
      exact h (w :: before) v after (by rw [hsplit, List.cons_append])

/-! ## The search -/

/-- The walk knows the sizes of these attributes. -/
def SizesKnown (sa : Bytes) (registry : SaRegistry) (hdrsz : Nat) : Nat → List (UInt16 × Nat) → Prop
  | _, [] => True
  | varIdx, s :: shape =>
    ∃ varIdx', saAttrSize sa registry hdrsz s.1 varIdx = some (s.2, varIdx') ∧ SizesKnown sa registry hdrsz varIdx' shape

/-- It does where the header holds their lengths. -/
theorem sizesKnown_of_lengths {sa : Bytes} {registry : SaRegistry} {hdrsz : Nat} (hsa : hdrsz ≤ sa.length)
    {shape : List (UInt16 × Nat)} {varIdx : Nat} (hregistered : ∀ s ∈ shape, registry.sizeOf s.1 ≠ none)
    (hfixed : ∀ s ∈ shape, registry.fixedSize s.1 ≠ 0 → s.2 = registry.fixedSize s.1)
    (hlengths : ∀ i len, (variableLengths registry shape)[i]? = some len →
      6 + (varIdx + i) * 2 + 2 ≤ hdrsz ∧ (leU16 sa (6 + (varIdx + i) * 2)).toNat = len) :
    SizesKnown sa registry hdrsz varIdx shape := by
  induction shape generalizing varIdx with
  | nil => trivial
  | cons s shape ih =>
    have hrest := @ih varIdx (fun t ht => hregistered t (List.mem_cons_of_mem _ ht))
      (fun t ht => hfixed t (List.mem_cons_of_mem _ ht))
    obtain ⟨size, hsize⟩ := Option.ne_none_iff_exists'.1 (hregistered s List.mem_cons_self)
    have hfixedSize : registry.fixedSize s.1 = size.toNat := by
      rw [SaRegistry.fixedSize, hsize]
      rfl
    by_cases hzero : size = 0
    · -- the next length of the header is the size
      have hvariable : variableLengths registry (s :: shape) = s.2 :: variableLengths registry shape := by
        have hmatch : (registry.fixedSize s.1 == 0) = true := by rw [hfixedSize, hzero]; rfl
        rw [variableLengths, List.filter_cons, if_pos hmatch, List.map_cons, variableLengths]
      obtain ⟨hin, hlen⟩ := hlengths 0 s.2 (by rw [hvariable]; rfl)
      refine ⟨varIdx + 1, ?_, ?_⟩
      · rw [saAttrSize, hsize]
        dsimp only
        rw [if_pos hzero, if_neg (by omega)]
        exact congrArg (fun n => some (n, varIdx + 1)) hlen
      · refine @ih (varIdx + 1) (fun t ht => hregistered t (List.mem_cons_of_mem _ ht))
          (fun t ht => hfixed t (List.mem_cons_of_mem _ ht)) fun i len hi => ?_
        have hnext := hlengths (i + 1) len (by rw [hvariable]; exact hi)
        rw [show varIdx + 1 + i = varIdx + (i + 1) by omega]
        exact hnext
    · have hne : registry.fixedSize s.1 ≠ 0 := by
        rw [hfixedSize]
        exact fun h => hzero (UInt16.toNat_inj.1 h)
      have hvariable : variableLengths registry (s :: shape) = variableLengths registry shape := by
        have hmatch : ¬ (registry.fixedSize s.1 == 0) = true := by simpa using hne
        rw [variableLengths, List.filter_cons, if_neg hmatch, variableLengths]
      refine ⟨varIdx, ?_, hrest fun i len hi => hlengths i len (by rw [hvariable]; exact hi)⟩
      rw [saAttrSize, hsize]
      dsimp only
      rw [if_neg hzero, hfixed s List.mem_cons_self hne, hfixedSize]

/-- Where the walk knows the sizes it reads an attribute at their sum. -/
theorem saAttrWalk_of_sizesKnown {sa : Bytes} {registry : SaRegistry} {hdrsz : Nat} {want : UInt16} {len : Nat}
    {before after : List (UInt16 × Nat)} {varIdx off : Nat}
    (h : SizesKnown sa registry hdrsz varIdx (before ++ (want, len) :: after)) (hnot : want ∉ before.map Prod.fst)
    (hsmall : off + (before.map Prod.snd).sum + len < 2 ^ 64) :
    saAttrWalk sa registry hdrsz want ((before ++ (want, len) :: after).map Prod.fst) varIdx off =
      slice? sa (off + (before.map Prod.snd).sum) (off + (before.map Prod.snd).sum + len) := by
  induction before generalizing varIdx off with
  | nil =>
    obtain ⟨varIdx', hsize, -⟩ := h
    have hsum : off + (List.map Prod.snd ([] : List (UInt16 × Nat))).sum = off := rfl
    rw [hsum] at hsmall ⊢
    rw [List.nil_append, List.map_cons, saAttrWalk, hsize]
    dsimp only
    rw [checkedAdd, if_pos hsmall]
    dsimp only
    rw [if_pos rfl]
  | cons s before ih =>
    obtain ⟨varIdx', hsize, hrest⟩ := h
    rw [List.map_cons, List.sum_cons, ← Nat.add_assoc] at hsmall ⊢
    rw [List.map_cons] at hnot
    have hne : s.1 ≠ want := fun heq => hnot (heq ▸ List.mem_cons_self)
    rw [List.cons_append, List.map_cons, saAttrWalk, hsize]
    dsimp only
    rw [checkedAdd, if_pos (by omega)]
    dsimp only
    rw [if_neg hne]
    exact ih hrest (fun hmem => hnot (List.mem_cons_of_mem _ hmem)) hsmall

/-! ## Headers -/

/-- Distinct 16-bit ids are at most `2 ^ 16`. -/
theorem length_ids_le {ids : List UInt16} (h : ids.Nodup) : ids.length ≤ 2 ^ 16 := by
  have hnodup : (ids.map UInt16.toFin).Nodup := h.map fun a b hab => UInt16.toFin_inj.1 hab
  have hle := hnodup.length_le_card
  rwa [List.length_map, Fintype.card_fin] at hle

/-- A header size is a multiple of eight, and at most 504. -/
theorem saHdrsz_facts (info : UInt16) : 8 ∣ saHdrsz info ∧ saHdrsz info ≤ 504 := by
  have hmask : ((info >>> 10) &&& 0x3f).toNat ≤ 63 := by
    rw [UInt16.toNat_and]
    exact Nat.and_le_right
  rw [saHdrsz, Nat.shiftLeft_eq]
  exact ⟨Dvd.intro_left _ rfl, by omega⟩

section Header

variable {registry : SaRegistry} {layouts : SaLayouts} {header : Bytes} {shape : List (UInt16 × Nat)}

/-- A header holds its magic, so it is at least eight bytes long. -/
theorem SaHeader.eight_le (h : SaHeader registry layouts header shape) : 8 ≤ header.length := by
  have hdvd : 8 ∣ header.length := h.length ▸ (saHdrsz_facts (leU16 header 4)).1
  have hfour : 4 ≤ header.length := by
    by_contra hshort
    have hzero : leU32 header 0 = 0 := by
      rw [leU32, readUint, slice?_eq_none_of_lt (by omega)]
      rfl
    have hmagic := h.magic
    rw [hzero] at hmagic
    exact absurd hmagic (by decide)
  omega

/-- Every length of a bonus is one of 16 bits. -/
theorem SaHeader.len_lt (h : SaHeader registry layouts header shape) : ∀ s ∈ shape, s.2 < 2 ^ 16 := by
  intro s hs
  by_cases hzero : registry.fixedSize s.1 = 0
  · have hmem : s.2 ∈ variableLengths registry shape :=
      List.mem_map_of_mem (List.mem_filter.2 ⟨hs, by rw [hzero]; rfl⟩)
    obtain ⟨i, hi⟩ := List.mem_iff_getElem?.1 hmem
    rw [← (h.lengths i s.2 hi).2]
    exact UInt16.toNat_lt _
  · rw [h.fixed s hs hzero]
    exact UInt16.toNat_lt _

/-- The lengths in front of an attribute, and its own, do not add up to a word. -/
theorem SaHeader.sum_lt {before after : List (UInt16 × Nat)} {s : UInt16 × Nat}
    (h : SaHeader registry layouts header (before ++ s :: after)) :
    header.length + (before.map Prod.snd).sum + s.2 < 2 ^ 64 := by
  have hheader : header.length ≤ 504 := h.length ▸ (saHdrsz_facts (leU16 header 4)).2
  have hs := h.len_lt s (List.mem_append_right _ List.mem_cons_self)
  have hcount := length_ids_le h.distinct
  rw [List.length_map, List.length_append, List.length_cons] at hcount
  have hsum : (before.map Prod.snd).sum ≤ before.length * 2 ^ 16 := by
    have hle := List.sum_le_card_nsmul (before.map Prod.snd) (2 ^ 16) fun len hlen => by
      obtain ⟨t, ht, rfl⟩ := List.mem_map.1 hlen
      exact (h.len_lt t (List.mem_append_left _ ht)).le
    rwa [List.length_map, smul_eq_mul] at hle
  have hproduct : before.length * 2 ^ 16 ≤ 2 ^ 16 * 2 ^ 16 := Nat.mul_le_mul_right _ (by omega)
  omega

/-- The search reads an attribute behind the header at the sum of the lengths in front of it. -/
theorem SaHeader.saAttrBytes_eq {before after : List (UInt16 × Nat)} {s : UInt16 × Nat}
    (h : SaHeader registry layouts header (before ++ s :: after)) (body : Bytes) {name : Bytes} {desc : SaAttrDesc}
    (hname : registry.byName name = some desc) (hid : desc.id = s.1) :
    saAttrBytes (header ++ body) registry layouts name =
      slice? (header ++ body) (header.length + (before.map Prod.snd).sum) (header.length + (before.map Prod.snd).sum + s.2) := by
  have height := h.eight_le
  have hdistinct := h.distinct
  rw [List.map_append, List.map_cons] at hdistinct
  have hnot : s.1 ∉ before.map Prod.fst := fun hmem => (List.nodup_append.1 hdistinct).2.2 _ hmem _ List.mem_cons_self rfl
  have hmagic : leU32 (header ++ body) 0 = saMagic := by rw [leU32, readUint_append_left (by omega), ← leU32, h.magic]
  have hinfo : leU16 (header ++ body) 4 = leU16 header 4 := by rw [leU16, readUint_append_left (by omega), ← leU16]
  have hsizes : SizesKnown (header ++ body) registry header.length 0 (before ++ s :: after) := by
    refine sizesKnown_of_lengths (by rw [List.length_append]; omega) h.registered h.fixed fun i len hi => ?_
    obtain ⟨hin, hlen⟩ := h.lengths i len hi
    rw [Nat.zero_add]
    refine ⟨hin, ?_⟩
    rw [leU16, readUint_append_left (by omega), ← leU16, hlen]
  rw [saAttrBytes, if_neg (not_not.2 hmagic)]
  dsimp only
  rw [hinfo, h.layout, hname]
  dsimp only
  rw [← h.length, hid]
  exact saAttrWalk_of_sizesKnown hsizes hnot h.sum_lt

end Header

/-! ## Where the search is right -/

/-- A run of ones between zeros, behind a header. -/
theorem slice?_ones (header : Bytes) (p n m : Nat) (hp : header.length ≤ p) :
    let data := header ++ (zeros (p - header.length) ++ (List.replicate n 0xff ++ zeros m))
    (∀ q len, header.length ≤ q → q + len ≤ p → Part data q (zeros len)) ∧ Part data p (List.replicate n 0xff) ∧
      ∀ q len, p + n ≤ q → q + len ≤ p + n + m → Part data q (zeros len) := by
  intro data
  refine ⟨fun q len hq hend => ?_, ?_, fun q len hq hend => ?_⟩
  · rw [Octets.Part, length_zeros, slice?_append_right hq (by omega), slice?_append_left (by rw [length_zeros]; omega),
      slice?_zeros (by omega) (by omega)]
    congr 2
    omega
  · rw [Octets.Part, List.length_replicate]
    have hparts : data = (header ++ zeros (p - header.length)) ++ List.replicate n 0xff ++ zeros m := by
      simp only [data, List.append_assoc]
    rw [hparts]
    refine slice?_middle ?_ (by rw [List.length_replicate])
    rw [List.length_append, length_zeros]
    omega
  · have hparts : data = (header ++ zeros (p - header.length) ++ List.replicate n 0xff) ++ zeros m := by
      simp only [data, List.append_assoc]
    have hlen : (header ++ zeros (p - header.length) ++ List.replicate n (0xff : UInt8)).length = p + n := by
      rw [List.length_append, List.length_append, length_zeros, List.length_replicate]
      omega
    rw [hparts, Octets.Part, length_zeros, slice?_append_right (by omega) (by omega), slice?_zeros (by omega) (by omega)]
    congr 2
    omega

/-- One attribute of ones among attributes of zeros. -/
def onesAt (before : List (UInt16 × Nat)) (s : UInt16 × Nat) (after : List (UInt16 × Nat)) : List (UInt16 × Bytes) :=
  before.map (fun t => (t.1, zeros t.2)) ++ (s.1, List.replicate s.2 0xff) :: after.map fun t => (t.1, zeros t.2)

theorem shapeOf_zeros (shape : List (UInt16 × Nat)) : shapeOf (shape.map fun t => (t.1, zeros t.2)) = shape := by
  rw [shapeOf, List.map_map]
  refine (List.map_congr_left fun t _ => ?_).trans (List.map_id shape)
  exact Prod.ext rfl (length_zeros t.2)

theorem shapeOf_append (values values' : List (UInt16 × Bytes)) : shapeOf (values ++ values') = shapeOf values ++ shapeOf values' :=
  List.map_append

theorem shapeOf_onesAt (before : List (UInt16 × Nat)) (s : UInt16 × Nat) (after : List (UInt16 × Nat)) :
    shapeOf (onesAt before s after) = before ++ s :: after := by
  have hs : shapeOf ((s.1, List.replicate s.2 (0xff : UInt8)) :: after.map fun t => (t.1, zeros t.2)) = s :: after := by
    have htail := shapeOf_zeros after
    rw [shapeOf] at htail ⊢
    rw [List.map_cons, htail, List.length_replicate]
  rw [onesAt, shapeOf_append, shapeOf_zeros, hs]

/-- The places of attributes depend on their lengths. -/
theorem place_shapeOf (start : Nat) (values : List (UInt16 × Bytes)) :
    Align.place 8 start (values.map fun v => v.2.length) = Align.place 8 start ((shapeOf values).map Prod.snd) := by
  rw [shapeOf, List.map_map]
  rfl

/-- Attributes of zeros, and one of ones in its place among them, stand in some bytes. -/
theorem saStored_onesAt (header : Bytes) (before : List (UInt16 × Nat)) (s : UInt16 × Nat) (after : List (UInt16 × Nat)) (p m : Nat)
    (hp : p = Align.place 8 header.length (before.map Prod.snd)) (hle : header.length ≤ p)
    (hm : Align.place 8 header.length ((before ++ s :: after).map Prod.snd) ≤ m) :
    SaStored (header ++ (zeros (p - header.length) ++ (List.replicate s.2 0xff ++ zeros m))) header.length
      (onesAt before s after) := by
  obtain ⟨hfront, hones, hback⟩ := slice?_ones header p s.2 m hle
  have hbefore : (before.map fun t => (t.1, zeros t.2)).map (fun v => v.2.length) = before.map Prod.snd := by
    rw [List.map_map]
    exact List.map_congr_left fun t _ => length_zeros t.2
  refine (saStored_iff _ _ _).2 fun b v a hsplit => ?_
  -- every attribute ends in front of the place behind the last
  have hend : Align.place 8 header.length (b.map fun v => v.2.length) + v.2.length ≤
      Align.place 8 header.length ((before ++ s :: after).map Prod.snd) := by
    rw [← shapeOf_onesAt, ← place_shapeOf, hsplit, List.map_append, List.map_cons]
    exact Align.end_le_place (by omega) _ _ _ _
  rw [onesAt] at hsplit
  rcases List.append_eq_append_iff.1 hsplit with ⟨c, rfl, hc⟩ | ⟨c, hc, hv⟩
  · rcases c with _ | ⟨w, c⟩
    · obtain ⟨rfl, -⟩ := List.cons.inj hc
      rw [List.append_nil, hbefore, ← hp]
      exact hones
    · -- behind the ones
      obtain ⟨rfl, hmem⟩ := List.cons.inj hc
      obtain ⟨t, -, rfl⟩ : ∃ t ∈ after, (t.1, zeros t.2) = v :=
        List.mem_map.1 (hmem ▸ List.mem_append_right c List.mem_cons_self)
      have hbehind := Align.end_le_place (a := 8) (by omega) header.length (before.map Prod.snd) s.2 (c.map fun v => v.2.length)
      have hlens : ((before.map fun t => (t.1, zeros t.2)) ++ (s.1, List.replicate s.2 (0xff : UInt8)) :: c).map
          (fun v => v.2.length) = before.map Prod.snd ++ s.2 :: c.map fun v => v.2.length := by
        rw [List.map_append, hbefore, List.map_cons, List.length_replicate]
      rw [hlens] at hend ⊢
      rw [length_zeros] at hend
      rw [← hp] at hbehind
      exact hback _ _ hbehind (by omega)
  · rcases c with _ | ⟨w, c⟩
    · obtain ⟨rfl, -⟩ := List.cons.inj hv
      rw [List.append_nil] at hc
      rw [← hc, hbefore, ← hp]
      exact hones
    · -- in front of them
      obtain ⟨rfl, -⟩ := List.cons.inj hv
      obtain ⟨t, -, rfl⟩ : ∃ t ∈ before, (t.1, zeros t.2) = v :=
        List.mem_map.1 (hc ▸ List.mem_append_right b List.mem_cons_self)
      have hahead := Align.end_le_place (a := 8) (by omega) header.length (b.map fun v => v.2.length) t.2
        (c.map fun v => v.2.length)
      have hlens : before.map Prod.snd = (b.map fun v => v.2.length) ++ t.2 :: c.map fun v => v.2.length := by
        rw [← hbefore, hc, List.map_append, List.map_cons, length_zeros]
      rw [← hlens, ← hp] at hahead
      exact hfront _ _ ((Nat.le_add_right _ _).trans (Align.le_place (by omega) _ _)) hahead

/-- The search finds what is assigned to every name, in every bonus of a header, exactly where in front of every named attribute that is
not empty all lengths are multiples of eight. -/
theorem found_by_name_iff (registry : SaRegistry) (layouts : SaLayouts) (header : Bytes) (shape : List (UInt16 × Nat))
    (hheader : SaHeader registry layouts header shape) :
    FoundByName registry layouts header shape ↔
      ∀ before s after, shape = before ++ s :: after → 0 < s.2 →
        (∃ name desc, registry.byName name = some desc ∧ desc.id = s.1) → ∀ t ∈ before, 8 ∣ t.2 := by
  have hdvd : 8 ∣ header.length := hheader.length ▸ (saHdrsz_facts (leU16 header 4)).1
  constructor
  · rintro hfound before s after rfl hpos ⟨name, desc, hname, hid⟩
    obtain ⟨p, hp⟩ : ∃ p, p = Align.place 8 header.length (before.map Prod.snd) := ⟨_, rfl⟩
    have hsum := Align.le_place (a := 8) (by omega) header.length (before.map Prod.snd)
    rw [← hp] at hsum
    have hstored := saStored_onesAt header before s after p _ hp (by omega) le_rfl
    have hmem : (s.1, List.replicate s.2 (0xff : UInt8)) ∈ onesAt before s after :=
      List.mem_append_right _ List.mem_cons_self
    have hread := hfound _ _ (shapeOf_onesAt before s after) hstored _ hmem name desc hname hid
    rw [hheader.saAttrBytes_eq _ hname hid] at hread
    -- where the search looks in front of the place, it reads a zero for the first byte
    have hplace : p = header.length + (before.map Prod.snd).sum := by
      by_contra hne
      have hzero := (slice?_ones header p s.2 (Align.place 8 header.length ((before ++ s :: after).map Prod.snd)) (by omega)).1
        (header.length + (before.map Prod.snd).sum) 1 (by omega) (by omega)
      have hone := getElem?_of_slice? (i := 0) hread (by omega)
      rw [Octets.Part, length_zeros] at hzero
      have hnot := getElem?_of_slice? (i := 0) hzero (by omega)
      have hfirst : (List.replicate s.2 (0xff : UInt8))[0]? = some 0xff := by rw [List.getElem?_replicate, if_pos hpos]
      rw [← hone, hfirst] at hnot
      exact absurd hnot (by decide)
    have hmultiples := (Align.place_eq_iff (by omega) hdvd (before.map Prod.snd)).1 (by rw [← hp, hplace])
    exact fun t ht => hmultiples t.2 (List.mem_map_of_mem ht)
  · intro h values body hshape hstored v hv name desc hname hid
    obtain ⟨b, a, rfl⟩ := List.append_of_mem hv
    have hshapes : shape = shapeOf b ++ (v.1, v.2.length) :: shapeOf a := by
      rw [← hshape, shapeOf_append]
      rfl
    subst hshapes
    have hpart := (saStored_iff _ _ _).1 hstored b v a rfl
    rw [place_shapeOf] at hpart
    rw [hheader.saAttrBytes_eq body hname hid]
    by_cases hempty : v.2 = []
    · have hle := Align.le_place (a := 8) (by omega) header.length ((shapeOf b).map Prod.snd)
      have hend := hpart.end_le
      rw [hempty, List.length_nil, Nat.add_zero] at hend ⊢
      rw [slice?_of_le le_rfl (by omega), Nat.sub_self, List.take_zero]
    · have hmultiples := h (shapeOf b) (v.1, v.2.length) (shapeOf a) rfl (List.length_pos_of_ne_nil hempty) ⟨name, desc, hname, hid⟩
      have hplace := (Align.place_eq_iff (by omega) hdvd ((shapeOf b).map Prod.snd)).2 fun len hlen => by
        obtain ⟨t, ht, rfl⟩ := List.mem_map.1 hlen
        exact hmultiples t ht
      rw [hplace] at hpart
      exact hpart

/-! ## Two variable-length attributes -/

/-- A registry with two variable-length attributes. -/
def aclRegistry : SaRegistry := ⟨[(ascii "ZPL_DACL_ACES", ⟨20, 0, 0⟩), (ascii "ZPL_DXATTR", ⟨16, 0, 0⟩)]⟩

/-- A header of 16 bytes for layout 2, with the lengths of two attributes. -/
def aclHeader (aclLen xattrLen : Nat) : Bytes :=
  encode .little 4 saMagic.toNat ++ encodeWords .little 2 [0x0802, aclLen, xattrLen] ++ zeros 6

theorem saHeader_aclHeader {n : Nat} (hn : n = 12 ∨ n = 16) :
    SaHeader aclRegistry ⟨[(2, [20, 16])]⟩ (aclHeader n 4) [(20, n), (16, 4)] := by
  have hlengths : ∀ i len, [n, 4][i]? = some len →
      6 + i * 2 + 2 ≤ (aclHeader n 4).length ∧ (leU16 (aclHeader n 4) (6 + i * 2)).toNat = len := by
    rintro (_ | _ | i) len hi
    · obtain rfl := Option.some.inj hi
      rcases hn with rfl | rfl <;> decide
    · obtain rfl := Option.some.inj hi
      rcases hn with rfl | rfl <;> decide
    · cases hi
  have hvariable : variableLengths aclRegistry [(20, n), (16, 4)] = [n, 4] := by
    rcases hn with rfl | rfl <;> decide
  refine ⟨?_, ?_, ?_, ?_, ?_, ?_, by rw [hvariable]; exact hlengths⟩ <;> rcases hn with rfl | rfl <;> decide

/-- Behind an attribute of twelve bytes the search reads the padding instead of the extended attributes. -/
theorem xattr_behind_padding_shifted :
    SaHeader aclRegistry ⟨[(2, [20, 16])]⟩ (aclHeader 12 4) [(20, 12), (16, 4)] ∧
      SaStored (aclHeader 12 4 ++ (List.replicate 12 7 ++ zeros 4 ++ [1, 2, 3, 4])) 16
        [(20, List.replicate 12 7), (16, [1, 2, 3, 4])] ∧
      saAttrBytes (aclHeader 12 4 ++ (List.replicate 12 7 ++ zeros 4 ++ [1, 2, 3, 4])) aclRegistry ⟨[(2, [20, 16])]⟩
        (ascii "ZPL_DXATTR") = some (zeros 4) ∧
      ¬ FoundByName aclRegistry ⟨[(2, [20, 16])]⟩ (aclHeader 12 4) [(20, 12), (16, 4)] := by
  have hstored : SaStored (aclHeader 12 4 ++ (List.replicate 12 7 ++ zeros 4 ++ [1, 2, 3, 4])) 16
      [(20, List.replicate 12 7), (16, [1, 2, 3, 4])] := by
    refine ⟨?_, ?_, trivial⟩
    · rw [Octets.Part]
      decide
    · rw [Octets.Part]
      decide
  have hread : saAttrBytes (aclHeader 12 4 ++ (List.replicate 12 7 ++ zeros 4 ++ [1, 2, 3, 4])) aclRegistry ⟨[(2, [20, 16])]⟩
      (ascii "ZPL_DXATTR") = some (zeros 4) := by
    decide
  refine ⟨saHeader_aclHeader (Or.inl rfl), hstored, hread, fun hfound => ?_⟩
  have hlen : (aclHeader 12 4).length = 16 := by decide
  have hname : aclRegistry.byName (ascii "ZPL_DXATTR") = some ⟨16, 0, 0⟩ := by decide
  have hright := hfound [(20, List.replicate 12 7), (16, [1, 2, 3, 4])] (List.replicate 12 7 ++ zeros 4 ++ [1, 2, 3, 4]) rfl
    (by rw [hlen]; exact hstored) (16, [1, 2, 3, 4]) (List.mem_cons_of_mem _ List.mem_cons_self) _ _ hname rfl
  rw [hread] at hright
  exact absurd hright (by decide)

/-- Behind one of sixteen bytes it finds them. -/
theorem found_by_name_multiple :
    FoundByName aclRegistry ⟨[(2, [20, 16])]⟩ (aclHeader 16 4) [(20, 16), (16, 4)] := by
  refine (found_by_name_iff aclRegistry ⟨[(2, [20, 16])]⟩ (aclHeader 16 4) [(20, 16), (16, 4)]
    (saHeader_aclHeader (Or.inr rfl))).2 ?_
  rintro (_ | ⟨u, _ | ⟨w, before⟩⟩) s after hsplit - - t ht
  · exact absurd ht List.not_mem_nil
  · obtain rfl : (20, 16) = u := (List.cons.inj hsplit).1
    rw [List.mem_singleton.1 ht]
    decide
  · have htail := (List.cons.inj (List.cons.inj hsplit).2).2
    exact absurd htail.symm (List.append_ne_nil_of_right_ne_nil before (List.cons_ne_nil s after))

end ZfsForensic
