import ZfsForensic.Nvlist
import ZfsForensic.Zpl

/-!
# Extended attributes

An object keeps its extended attributes in one of two ways: packed into an nvlist, the value of `ZPL_DXATTR` in its bonus, or as
the files of a hidden directory whose object id is the value of `ZPL_XATTR`.
-/

namespace ZfsForensic

open Octets Checked Checked.Run

/-- One extended attribute: its full name and its value. -/
@[ext] structure Xattr where
  name : Bytes
  value : Bytes
deriving DecidableEq, Repr

/-- The attribute a pair of the packed nvlist is: a pair whose value is not a byte array is none. -/
def dxattrPair (pair : Bytes × NvValue) : Option Xattr :=
  match pair.2 with
  | .bytes b => some { name := pair.1, value := b }
  | _ => none

/-- Decode a packed nvlist into attributes; one that does not parse has none. -/
def dxattrPairs (packed : Bytes) : List Xattr :=
  match nvlistParse packed with
  | .error _ => []
  | .ok nv => nv.filterMap dxattrPair

/-- The attributes of the packed nvlist in the bonus. -/
def saXattrs (disk : Disk) (zpl : ObjsetPhys) (dnode : Dnode) : Run (List Xattr) := do
  match ← zplSaContext disk zpl with
  | none => pure []
  | some (registry, layouts) =>
    match saAttrBytes dnode.bonus registry layouts (ascii "ZPL_DXATTR") with
    | none => pure []
    | some packed => pure (dxattrPairs packed)

/-- The directory a `ZPL_XATTR` value names: none when the value is shorter than a word, or zero. -/
def xattrDirObject (raw : Bytes) : Option UInt64 :=
  match slice? raw 0 8 with
  | none => none
  | some bytes => if leU64 bytes 0 = 0 then none else some (leU64 bytes 0)

/-- The files of the hidden directory as attributes: one whose content does not read is dropped. -/
def xattrFiles (disk : Disk) (zpl : ObjsetPhys) : List (Bytes × UInt64) → Run (List Xattr)
  | [] => pure []
  | (name, obj) :: entries => do
    let content ← zplReadFile disk zpl obj
    let rest ← xattrFiles disk zpl entries
    match content with
    | .error _ => pure rest
    | .ok value => pure ({ name := name, value := value } :: rest)

/-- The attributes of the hidden directory. -/
def dirXattrs (disk : Disk) (zpl : ObjsetPhys) (dnode : Dnode) : Run (List Xattr) := do
  match ← zplSaContext disk zpl with
  | none => pure []
  | some (registry, layouts) =>
    match (saAttrBytes dnode.bonus registry layouts (ascii "ZPL_XATTR")).bind xattrDirObject with
    | none => pure []
    | some dirObj =>
      let entries ← zplListDir disk zpl dirObj
      xattrFiles disk zpl entries

/-- List the extended attributes of an object: those of the bonus, and where it holds none those of the hidden directory. -/
def listXattrs (disk : Disk) (zpl : ObjsetPhys) (objectId : UInt64) : Run (List Xattr) := do
  match ← mosDnode disk zpl objectId with
  | none => pure []
  | some dnode =>
    let out ← saXattrs disk zpl dnode
    if out = [] then dirXattrs disk zpl dnode else pure out

/-! ## What the walks find -/

section Walks

variable {disk : Disk} {zpl : ObjsetPhys} {dnode : Dnode} {registry : SaRegistry} {layouts : SaLayouts}

/-- With a decoding context and a packed nvlist, the walk over the bonus is the pairs of the nvlist. -/
theorem value_saXattrs {packed : Bytes} (hcontext : (zplSaContext disk zpl).value = some (registry, layouts))
    (hpacked : saAttrBytes dnode.bonus registry layouts (ascii "ZPL_DXATTR") = some packed) :
    (saXattrs disk zpl dnode).value = dxattrPairs packed := by
  rw [saXattrs, value_bind, hcontext]
  dsimp only
  rw [hpacked]
  rfl

/-- With a decoding context and a hidden directory, the walk over it is its files. -/
theorem value_dirXattrs {dirObj : UInt64} (hcontext : (zplSaContext disk zpl).value = some (registry, layouts))
    (hdir : (saAttrBytes dnode.bonus registry layouts (ascii "ZPL_XATTR")).bind xattrDirObject = some dirObj) :
    (dirXattrs disk zpl dnode).value = (xattrFiles disk zpl (zplListDir disk zpl dirObj).value).value := by
  rw [dirXattrs, value_bind, hcontext]
  dsimp only
  rw [hdir]
  dsimp only
  rw [value_bind]

/-- The listing of an object that resolves: the first walk, and where it finds nothing the second. -/
theorem value_listXattrs {objectId : UInt64} (hdnode : (mosDnode disk zpl objectId).value = some dnode) :
    (listXattrs disk zpl objectId).value =
      if (saXattrs disk zpl dnode).value = [] then (dirXattrs disk zpl dnode).value else (saXattrs disk zpl dnode).value := by
  rw [listXattrs, value_bind, hdnode]
  dsimp only
  rw [value_bind]
  split_ifs <;> rfl

end Walks

theorem mem_dxattrPairs_iff {packed : Bytes} {x : Xattr} :
    x ∈ dxattrPairs packed ↔ ∃ nv, nvlistParse packed = .ok nv ∧ (x.name, NvValue.bytes x.value) ∈ nv := by
  unfold dxattrPairs
  cases nvlistParse packed with
  | error e => simp
  | ok nv =>
    simp only [List.mem_filterMap, Except.ok.injEq, exists_eq_left']
    constructor
    · rintro ⟨⟨name, v⟩, hpair, hx⟩
      cases v with
      | bytes b =>
        obtain rfl := Option.some.inj hx
        exact hpair
      | u64 _ => exact absurd hx (by simp [dxattrPair])
      | str _ => exact absurd hx (by simp [dxattrPair])
      | nvList _ => exact absurd hx (by simp [dxattrPair])
    · intro hpair
      exact ⟨_, hpair, rfl⟩

theorem mem_saXattrs_iff {disk : Disk} {zpl : ObjsetPhys} {dnode : Dnode} {x : Xattr} :
    x ∈ (saXattrs disk zpl dnode).value ↔ ∃ registry layouts packed,
      (zplSaContext disk zpl).value = some (registry, layouts) ∧
      saAttrBytes dnode.bonus registry layouts (ascii "ZPL_DXATTR") = some packed ∧ x ∈ dxattrPairs packed := by
  rw [saXattrs, value_bind]
  cases (zplSaContext disk zpl).value with
  | none => simp
  | some context =>
    obtain ⟨registry, layouts⟩ := context
    dsimp only
    cases hpacked : saAttrBytes dnode.bonus registry layouts (ascii "ZPL_DXATTR") with
    | none =>
      refine ⟨fun h => absurd h List.not_mem_nil, ?_⟩
      rintro ⟨r, l, packed, hcontext, hsome, -⟩
      cases hcontext
      rw [hpacked] at hsome
      exact absurd hsome (by simp)
    | some packed =>
      refine ⟨fun h => ⟨registry, layouts, packed, rfl, hpacked, h⟩, ?_⟩
      rintro ⟨r, l, packed', hcontext, hsome, hx⟩
      cases hcontext
      rw [hpacked, Option.some.injEq] at hsome
      rwa [← hsome] at hx

theorem mem_xattrFiles_iff {disk : Disk} {zpl : ObjsetPhys} {entries : List (Bytes × UInt64)} {x : Xattr} :
    x ∈ (xattrFiles disk zpl entries).value ↔
      ∃ obj, (x.name, obj) ∈ entries ∧ (zplReadFile disk zpl obj).value = .ok x.value := by
  induction entries with
  | nil => simp [xattrFiles]
  | cons entry entries ih =>
    obtain ⟨name, obj⟩ := entry
    have hstep : x ∈ (xattrFiles disk zpl ((name, obj) :: entries)).value ↔
        (x.name = name ∧ (zplReadFile disk zpl obj).value = .ok x.value) ∨ x ∈ (xattrFiles disk zpl entries).value := by
      rw [xattrFiles, value_bind, value_bind]
      cases (zplReadFile disk zpl obj).value with
      | error e => simp
      | ok value =>
        rw [value_pure, List.mem_cons, Except.ok.injEq, Xattr.ext_iff, eq_comm (a := value)]
    rw [hstep, ih]
    constructor
    · rintro (⟨hname, hread⟩ | ⟨obj', hmem, hread⟩)
      · exact ⟨obj, by rw [hname]; exact List.mem_cons_self, hread⟩
      · exact ⟨obj', List.mem_cons_of_mem _ hmem, hread⟩
    · rintro ⟨obj', hmem, hread⟩
      rcases List.mem_cons.1 hmem with heq | hmem
      · obtain ⟨hname, rfl⟩ := Prod.mk.inj heq
        exact Or.inl ⟨hname, hread⟩
      · exact Or.inr ⟨obj', hmem, hread⟩

end ZfsForensic
