import ZfsForensic.Sa

/-!
# The walks over an attribute layout

The decoding of a bonus walks over the attributes of its layout and keeps the well-known ones; `Passed` is what it walks past. A core
attribute is one of the well-known ones, with its name, its field and the size it needs. The walk that looks for one attribute computes
the same offsets.
-/

namespace ZfsForensic

open Octets Checked

/-! ## Core attributes -/

/-- The attributes the decoding keeps. -/
inductive CoreAttr where
  | mode | size | links | uid | gid | gen | parent | flags | atime | mtime | ctime | crtime
deriving DecidableEq, Repr

namespace CoreAttr

/-- All of them. -/
def all : List CoreAttr := [mode, size, links, uid, gid, gen, parent, flags, atime, mtime, ctime, crtime]

/-- The registered name. -/
def name : CoreAttr → Bytes
  | mode => ascii "ZPL_MODE"
  | size => ascii "ZPL_SIZE"
  | links => ascii "ZPL_LINKS"
  | uid => ascii "ZPL_UID"
  | gid => ascii "ZPL_GID"
  | gen => ascii "ZPL_GEN"
  | parent => ascii "ZPL_PARENT"
  | flags => ascii "ZPL_FLAGS"
  | atime => ascii "ZPL_ATIME"
  | mtime => ascii "ZPL_MTIME"
  | ctime => ascii "ZPL_CTIME"
  | crtime => ascii "ZPL_CRTIME"

/-- Whether the value is a time, of two words. -/
def isTime : CoreAttr → Bool
  | atime | mtime | ctime | crtime => true
  | _ => false

/-- The size the decoding requires. -/
def need (c : CoreAttr) : Nat := if c.isTime then saTimeSize else 8

/-- The words of the field. -/
def field : CoreAttr → ZplAttrs → List UInt64
  | mode, a => [a.mode]
  | size, a => [a.size]
  | links, a => [a.links]
  | uid, a => [a.uid]
  | gid, a => [a.gid]
  | gen, a => [a.gen]
  | parent, a => [a.parent]
  | flags, a => [a.flags]
  | atime, a => [a.atime.1, a.atime.2]
  | mtime, a => [a.mtime.1, a.mtime.2]
  | ctime, a => [a.ctime.1, a.ctime.2]
  | crtime, a => [a.crtime.1, a.crtime.2]

/-- The words read at an offset of some bytes. -/
def read (c : CoreAttr) (rd : Reader) (data : Bytes) (off : Nat) : List UInt64 :=
  if c.isTime then [rd.u64 data off, rd.u64 data (off + 8)] else [rd.u64 data off]

/-- The words of a field nothing is stored in. -/
def zero (c : CoreAttr) : List UInt64 := if c.isTime then [0, 0] else [0]

/-- The id a registry gives the attribute. -/
def known : CoreAttr → KnownAttrs → Option UInt16
  | mode, k => k.mode
  | size, k => k.size
  | links, k => k.links
  | uid, k => k.uid
  | gid, k => k.gid
  | gen, k => k.gen
  | parent, k => k.parent
  | flags, k => k.flags
  | atime, k => k.atime
  | mtime, k => k.mtime
  | ctime, k => k.ctime
  | crtime, k => k.crtime

/-- Store the value at an offset of a bonus in the field. -/
def store (c : CoreAttr) (attrs : ZplAttrs) (rd : Reader) (bonus : Bytes) (off : Nat) : ZplAttrs :=
  let scalar := rd.u64 bonus off
  let time := (rd.u64 bonus off, rd.u64 bonus (off + 8))
  match c with
  | mode => { attrs with mode := scalar }
  | size => { attrs with size := scalar }
  | links => { attrs with links := scalar }
  | uid => { attrs with uid := scalar }
  | gid => { attrs with gid := scalar }
  | gen => { attrs with gen := scalar }
  | parent => { attrs with parent := scalar }
  | flags => { attrs with flags := scalar }
  | atime => { attrs with atime := time }
  | mtime => { attrs with mtime := time }
  | ctime => { attrs with ctime := time }
  | crtime => { attrs with crtime := time }

theorem mem_all (c : CoreAttr) : c ∈ all := by
  cases c <;> decide

theorem name_inj {c c' : CoreAttr} (h : c.name = c'.name) : c = c' :=
  List.inj_on_of_nodup_map (by decide : (all.map name).Nodup) (mem_all c) (mem_all c') h

theorem known_knownAttrs (c : CoreAttr) (registry : SaRegistry) :
    c.known (knownAttrs registry) = (registry.byName c.name).map SaAttrDesc.id := by
  cases c <;> rfl

theorem field_default (c : CoreAttr) : c.field ZplAttrs.default = c.zero := by
  cases c <;> rfl

theorem field_unknown (c : CoreAttr) (attrs : ZplAttrs) (ids : List UInt16) :
    c.field { attrs with unknownAttrIds := ids } = c.field attrs := by
  cases c <;> rfl

/-- Storing one attribute leaves the fields of the others. -/
theorem field_store (c c' : CoreAttr) (attrs : ZplAttrs) (rd : Reader) (bonus : Bytes) (off : Nat) :
    c.field (c'.store attrs rd bonus off) = if c = c' then c.read rd bonus off else c.field attrs := by
  cases c <;> cases c' <;> rfl

theorem unknownAttrIds_store (c : CoreAttr) (attrs : ZplAttrs) (rd : Reader) (bonus : Bytes) (off : Nat) :
    (c.store attrs rd bonus off).unknownAttrIds = attrs.unknownAttrIds := by
  cases c <;> rfl

end CoreAttr

/-- Store a value in the field of the attribute found, if any. -/
def storeFound (attrs : ZplAttrs) (rd : Reader) (bonus : Bytes) (off : Nat) : Option CoreAttr → ZplAttrs
  | none => attrs
  | some c => c.store attrs rd bonus off

theorem storeFound_cons (attrs : ZplAttrs) (rd : Reader) (bonus : Bytes) (off : Nat) (P : CoreAttr → Prop) [DecidablePred P]
    (c : CoreAttr) (cs : List CoreAttr) :
    storeFound attrs rd bonus off ((c :: cs).find? fun c => decide (P c)) =
      if P c then c.store attrs rd bonus off else storeFound attrs rd bonus off (cs.find? fun c => decide (P c)) := by
  rw [List.find?_cons]
  by_cases h : P c
  · rw [if_pos h, decide_eq_true h]
    rfl
  · rw [if_neg h, decide_eq_false h]

/-- An attribute's value is stored in the field of the first core attribute of that id and at most that size. -/
theorem assignKnown_eq (attrs : ZplAttrs) (k : KnownAttrs) (id : UInt16) (rd : Reader) (bonus : Bytes) (off size : Nat) :
    assignKnown attrs k id rd bonus off size =
      storeFound attrs rd bonus off (CoreAttr.all.find? fun c => decide (some id = c.known k ∧ c.need ≤ size)) := by
  rw [CoreAttr.all]
  simp only [storeFound_cons, List.find?_nil]
  rfl

theorem unknownAttrIds_assignKnown (attrs : ZplAttrs) (k : KnownAttrs) (id : UInt16) (rd : Reader) (bonus : Bytes)
    (off size : Nat) : (assignKnown attrs k id rd bonus off size).unknownAttrIds = attrs.unknownAttrIds := by
  rw [assignKnown_eq]
  cases CoreAttr.all.find? fun c => decide (some id = c.known k ∧ c.need ≤ size) with
  | none => rfl
  | some c => exact c.unknownAttrIds_store attrs rd bonus off

/-- The value of another id is not stored in a core attribute's field. -/
theorem field_assignKnown_of_ne {c : CoreAttr} {k : KnownAttrs} {id : UInt16} (hne : some id ≠ c.known k) (attrs : ZplAttrs)
    (rd : Reader) (bonus : Bytes) (off size : Nat) : c.field (assignKnown attrs k id rd bonus off size) = c.field attrs := by
  rw [assignKnown_eq]
  cases hfind : CoreAttr.all.find? fun c => decide (some id = c.known k ∧ c.need ≤ size) with
  | none => rfl
  | some c' =>
    have hfound := List.find?_some hfind
    rw [decide_eq_true_eq] at hfound
    have hcc : c ≠ c' := by
      rintro rfl
      exact hne hfound.1
    rw [storeFound, CoreAttr.field_store, if_neg hcc]

/-- The value of its own id is, when no other core attribute has that id and the size is enough. -/
theorem field_assignKnown_of_eq {c : CoreAttr} {k : KnownAttrs} {id : UInt16} {size : Nat} (heq : some id = c.known k)
    (honly : ∀ c' : CoreAttr, some id = c'.known k → c' = c) (hsize : c.need ≤ size) (attrs : ZplAttrs) (rd : Reader) (bonus : Bytes)
    (off : Nat) : c.field (assignKnown attrs k id rd bonus off size) = c.read rd bonus off := by
  rw [assignKnown_eq]
  cases hfind : CoreAttr.all.find? fun c => decide (some id = c.known k ∧ c.need ≤ size) with
  | none =>
    have hnone := List.find?_eq_none.1 hfind c c.mem_all
    rw [decide_eq_true_eq] at hnone
    exact absurd ⟨heq, hsize⟩ hnone
  | some c' =>
    have hfound := List.find?_some hfind
    rw [decide_eq_true_eq] at hfound
    rw [honly c' hfound.1, storeFound, CoreAttr.field_store, if_pos rfl]

/-! ## The walk of the decoding -/

/-- The registered size of an id; zero for a variable-length attribute and an unregistered id. -/
def SaRegistry.fixedSize (r : SaRegistry) (id : UInt16) : Nat := ((r.sizeOf id).getD 0).toNat

/-- The size of some attributes together. -/
def SaRegistry.totalSize (r : SaRegistry) (ids : List UInt16) : Nat := (ids.map r.fixedSize).sum

theorem SaRegistry.totalSize_cons (r : SaRegistry) (id : UInt16) (ids : List UInt16) :
    r.totalSize (id :: ids) = r.fixedSize id + r.totalSize ids := by
  rw [totalSize, List.map_cons, List.sum_cons, totalSize]

/-- The walk passes these attributes: each is registered with a size of its own and ends inside the bonus. -/
def Passed (registry : SaRegistry) (len : Nat) : Nat → List UInt16 → Prop
  | _, [] => True
  | off, id :: ids =>
    registry.fixedSize id ≠ 0 ∧ off + registry.fixedSize id ≤ len ∧ Passed registry len (off + registry.fixedSize id) ids

theorem SaRegistry.sizeOf_of_fixedSize_ne {r : SaRegistry} {id : UInt16} (h : r.fixedSize id ≠ 0) :
    ∃ size, r.sizeOf id = some size ∧ size ≠ 0 ∧ size.toNat = r.fixedSize id := by
  unfold fixedSize at h ⊢
  cases hsize : r.sizeOf id with
  | none =>
    rw [hsize] at h
    exact absurd rfl h
  | some size =>
    rw [hsize] at h
    refine ⟨size, rfl, ?_, rfl⟩
    rintro rfl
    exact h rfl

/-- What is passed is registered. -/
theorem Passed.registered {registry : SaRegistry} {len off : Nat} {ids : List UInt16} (h : Passed registry len off ids) :
    ∀ id ∈ ids, registry.sizeOf id ≠ none := by
  induction ids generalizing off with
  | nil =>
    intro id hid
    exact absurd hid List.not_mem_nil
  | cons id ids ih =>
    obtain ⟨hsize, -, hrest⟩ := h
    intro id' hid'
    rcases List.mem_cons.1 hid' with rfl | hid'
    · obtain ⟨size, hregistered, -⟩ := SaRegistry.sizeOf_of_fixedSize_ne hsize
      rw [hregistered]
      exact Option.some_ne_none size
    · exact ih hrest id' hid'

/-- The walk leaves the field of a core attribute that is not among the ids. -/
theorem field_saWalk_of_ne (bonus : Bytes) (registry : SaRegistry) (rd : Reader) {known : KnownAttrs} {c : CoreAttr} {ids : List UInt16}
    (hne : ∀ id ∈ ids, some id ≠ c.known known) (attrs : ZplAttrs) (off : Nat) :
    c.field (saWalk bonus registry rd known ids attrs off) = c.field attrs := by
  induction ids generalizing attrs off with
  | nil => rfl
  | cons id ids ih =>
    rw [saWalk]
    split
    · exact c.field_unknown attrs _
    · split
      · rfl
      · split
        · rfl
        · rw [ih fun id' hid' => hne id' (List.mem_cons_of_mem _ hid'), field_assignKnown_of_ne (hne id List.mem_cons_self)]

section Walk

variable {bonus : Bytes} (hlen : bonus.length < 2 ^ 63) (registry : SaRegistry) (rd : Reader) (known : KnownAttrs)
include hlen

/-- One attribute the walk passes. -/
theorem saWalk_cons_of_fits {id : UInt16} {off : Nat} (hsize : registry.fixedSize id ≠ 0)
    (hfits : off + registry.fixedSize id ≤ bonus.length) (ids : List UInt16) (attrs : ZplAttrs) :
    saWalk bonus registry rd known (id :: ids) attrs off =
      saWalk bonus registry rd known ids (assignKnown attrs known id rd bonus off (registry.fixedSize id))
        (off + registry.fixedSize id) := by
  obtain ⟨size, hregistered, hne, heq⟩ := SaRegistry.sizeOf_of_fixedSize_ne hsize
  have hfits' : ¬ bonus.length < satAdd off size.toNat := by
    rw [heq, satAdd]
    omega
  rw [saWalk, hregistered]
  dsimp only
  rw [if_neg hne, if_neg hfits', heq]

/-- One attribute that ends behind the bonus. -/
theorem saWalk_cons_of_not_fits {id : UInt16} {off : Nat} (hsize : registry.fixedSize id ≠ 0)
    (hfits : bonus.length < off + registry.fixedSize id) (ids : List UInt16) (attrs : ZplAttrs) :
    saWalk bonus registry rd known (id :: ids) attrs off = attrs := by
  obtain ⟨size, hregistered, hne, heq⟩ := SaRegistry.sizeOf_of_fixedSize_ne hsize
  have hfits' : bonus.length < satAdd off size.toNat := by
    rw [heq, satAdd]
    omega
  rw [saWalk, hregistered]
  dsimp only
  rw [if_neg hne, if_pos hfits']

/-- The walk over what it passes goes on behind it, with no id more surfaced. -/
theorem saWalk_of_passed {before : List UInt16} {off : Nat} (h : Passed registry bonus.length off before) (attrs : ZplAttrs) :
    ∃ attrs', attrs'.unknownAttrIds = attrs.unknownAttrIds ∧
      (∀ c : CoreAttr, (∀ id ∈ before, some id ≠ c.known known) → c.field attrs' = c.field attrs) ∧
      ∀ ids, saWalk bonus registry rd known (before ++ ids) attrs off =
        saWalk bonus registry rd known ids attrs' (off + registry.totalSize before) := by
  induction before generalizing off attrs with
  | nil => exact ⟨attrs, rfl, fun _ _ => rfl, fun ids => rfl⟩
  | cons id before ih =>
    obtain ⟨hsize, hfits, hrest⟩ := h
    obtain ⟨attrs', hunknown, hfield, hwalk⟩ := ih hrest (assignKnown attrs known id rd bonus off (registry.fixedSize id))
    refine ⟨attrs', ?_, fun c hc => ?_, fun ids => ?_⟩
    · rw [hunknown, unknownAttrIds_assignKnown]
    · rw [hfield c fun id' hid' => hc id' (List.mem_cons_of_mem _ hid'),
        field_assignKnown_of_ne (hc id List.mem_cons_self)]
    · rw [List.cons_append, saWalk_cons_of_fits hlen registry rd known hsize hfits, hwalk, SaRegistry.totalSize_cons,
        Nat.add_assoc]

/-- The walk surfaces no id, or the first it does not pass when that is unregistered. -/
theorem unknownAttrIds_saWalk (ids : List UInt16) (attrs : ZplAttrs) (off : Nat) :
    (saWalk bonus registry rd known ids attrs off).unknownAttrIds = attrs.unknownAttrIds ∨
      ∃ before id after, ids = before ++ id :: after ∧ Passed registry bonus.length off before ∧ registry.sizeOf id = none ∧
        (saWalk bonus registry rd known ids attrs off).unknownAttrIds = attrs.unknownAttrIds ++ [id] := by
  induction ids generalizing attrs off with
  | nil => exact Or.inl rfl
  | cons id ids ih =>
    by_cases hsize : registry.fixedSize id = 0
    · rw [saWalk]
      cases hregistered : registry.sizeOf id with
      | none => exact Or.inr ⟨[], id, ids, rfl, trivial, hregistered, rfl⟩
      | some size =>
        have hzero : size = 0 := by
          rw [SaRegistry.fixedSize, hregistered] at hsize
          exact UInt16.toNat_inj.1 hsize
        left
        dsimp only
        rw [if_pos hzero]
    · by_cases hfits : off + registry.fixedSize id ≤ bonus.length
      · rw [saWalk_cons_of_fits hlen registry rd known hsize hfits]
        rcases ih (assignKnown attrs known id rd bonus off (registry.fixedSize id)) (off + registry.fixedSize id) with h | h
        · left
          rw [h, unknownAttrIds_assignKnown]
        · right
          obtain ⟨before, id', after, rfl, hpassed, hregistered, hunknown⟩ := h
          refine ⟨id :: before, id', after, rfl, ⟨hsize, hfits, hpassed⟩, hregistered, ?_⟩
          rw [hunknown, unknownAttrIds_assignKnown]
      · left
        rw [saWalk_cons_of_not_fits hlen registry rd known hsize (Nat.lt_of_not_le hfits)]

/-- Behind attributes of sizes of their own, the walk stores a core attribute when it ends inside the bonus. -/
theorem field_saWalk_of_fixed {c : CoreAttr} {before : List UInt16}
    (hbefore : ∀ id ∈ before, registry.fixedSize id ≠ 0 ∧ some id ≠ c.known known) {want : UInt16}
    (hwant : some want = c.known known) (honly : ∀ c' : CoreAttr, some want = c'.known known → c' = c)
    (hneed : c.need ≤ registry.fixedSize want) (hsize : registry.fixedSize want ≠ 0) {after : List UInt16}
    (hafter : ∀ id ∈ after, some id ≠ c.known known) (attrs : ZplAttrs) (off : Nat) :
    c.field (saWalk bonus registry rd known (before ++ want :: after) attrs off) =
      if off + registry.totalSize before + registry.fixedSize want ≤ bonus.length then
        c.read rd bonus (off + registry.totalSize before)
      else c.field attrs := by
  induction before generalizing attrs off with
  | nil =>
    have hoff : off + registry.totalSize [] = off := rfl
    rw [List.nil_append, hoff]
    by_cases hfits : off + registry.fixedSize want ≤ bonus.length
    · rw [if_pos hfits, saWalk_cons_of_fits hlen registry rd known hsize hfits,
        field_saWalk_of_ne bonus registry rd hafter, field_assignKnown_of_eq hwant honly hneed]
    · rw [if_neg hfits, saWalk_cons_of_not_fits hlen registry rd known hsize (Nat.lt_of_not_le hfits)]
  | cons id before ih =>
    obtain ⟨hid, hne⟩ := hbefore id List.mem_cons_self
    rw [List.cons_append, SaRegistry.totalSize_cons, ← Nat.add_assoc]
    by_cases hfits : off + registry.fixedSize id ≤ bonus.length
    · rw [saWalk_cons_of_fits hlen registry rd known hid hfits,
        ih (fun id' hid' => hbefore id' (List.mem_cons_of_mem _ hid')), field_assignKnown_of_ne hne]
    · rw [saWalk_cons_of_not_fits hlen registry rd known hid (Nat.lt_of_not_le hfits), if_neg (by omega)]

end Walk

/-! ## The walk to one attribute -/

section Find

variable {sa : Bytes} (hlen : sa.length < 2 ^ 64) {registry : SaRegistry} {hdrsz : Nat} {want : UInt16}
include hlen

/-- Behind attributes of sizes of their own, one of its own size is read behind them, if it is there. -/
theorem saAttrWalk_of_fixed {before : List UInt16} (hbefore : ∀ id ∈ before, registry.fixedSize id ≠ 0) (hnot : want ∉ before)
    (hsize : registry.fixedSize want ≠ 0) (after : List UInt16) (varIdx off : Nat) :
    saAttrWalk sa registry hdrsz want (before ++ want :: after) varIdx off =
      slice? sa (off + registry.totalSize before) (off + registry.totalSize before + registry.fixedSize want) := by
  have hattr : ∀ id, registry.fixedSize id ≠ 0 →
      saAttrSize sa registry hdrsz id varIdx = some (registry.fixedSize id, varIdx) := by
    intro id hid
    obtain ⟨size, hregistered, hne, heq⟩ := SaRegistry.sizeOf_of_fixedSize_ne hid
    rw [saAttrSize, hregistered]
    dsimp only
    rw [if_neg hne, heq]
  induction before generalizing off with
  | nil =>
    rw [List.nil_append, saAttrWalk, hattr want hsize]
    dsimp only
    rw [checkedAdd]
    by_cases hlt : off + registry.fixedSize want < 2 ^ 64
    · rw [if_pos hlt]
      dsimp only
      rw [if_pos rfl]
      rfl
    · rw [if_neg hlt]
      exact (slice?_eq_none_of_lt (by change sa.length < off + 0 + registry.fixedSize want; omega)).symm
  | cons id before ih =>
    have hne : id ≠ want := fun h => hnot (h ▸ List.mem_cons_self)
    have hrest := ih (fun id' hid' => hbefore id' (List.mem_cons_of_mem _ hid')) (fun h => hnot (List.mem_cons_of_mem _ h))
      (off + registry.fixedSize id)
    rw [List.cons_append, saAttrWalk, hattr id (hbefore id List.mem_cons_self), SaRegistry.totalSize_cons]
    dsimp only
    rw [checkedAdd]
    by_cases hlt : off + registry.fixedSize id < 2 ^ 64
    · rw [if_pos hlt]
      dsimp only
      rw [if_neg hne, hrest, Nat.add_assoc off]
    · rw [if_neg hlt]
      exact (slice?_eq_none_of_lt (by omega)).symm

end Find

/-- An attribute that is not among the ids is not found. -/
theorem saAttrWalk_of_notMem {sa : Bytes} {registry : SaRegistry} {hdrsz : Nat} {want : UInt16} {ids : List UInt16}
    (h : want ∉ ids) (varIdx off : Nat) : saAttrWalk sa registry hdrsz want ids varIdx off = none := by
  induction ids generalizing varIdx off with
  | nil => rfl
  | cons id ids ih =>
    have hne : id ≠ want := fun heq => h (heq ▸ List.mem_cons_self)
    rw [saAttrWalk]
    split
    · rfl
    · split
      · rfl
      · rw [if_neg hne]
        exact ih (fun hmem => h (List.mem_cons_of_mem _ hmem)) _ _

end ZfsForensic
