import ZfsForensic.Zap

/-!
# System attributes

A file's metadata is a packed bonus: a header that names a layout, and the attribute values in the layout's order. The registry
gives each attribute its id and size, by name; the layouts give the order. A legacy bonus is the fixed `znode_phys_t`.
-/

namespace ZfsForensic

open Octets Checked

/-- The magic of a System Attributes bonus. -/
def saMagic : UInt32 := 0x2f505a

/-- The size of one packed timestamp. -/
def saTimeSize : Nat := 16

/-- The size of the legacy bonus. -/
def znodePhysSize : Nat := 264

/-- One attribute's registration. -/
structure SaAttrDesc where
  id : UInt16
  size : UInt16
  bswap : UInt8
deriving DecidableEq, Repr

/-- The attribute registry, in the order of its ZAP. -/
structure SaRegistry where
  entries : List (Bytes × SaAttrDesc)
deriving DecidableEq, Repr, Inhabited

/-- Look up an attribute by its registered name. -/
def SaRegistry.byName (r : SaRegistry) (name : Bytes) : Option SaAttrDesc :=
  (r.entries.find? (fun e => e.1 == name)).map Prod.snd

/-- The registered size of an attribute id. -/
def SaRegistry.sizeOf (r : SaRegistry) (id : UInt16) : Option UInt16 :=
  (r.entries.find? (fun e => e.2.id == id)).map (fun e => e.2.size)

/-- The layouts: layout number to ordered attribute ids. -/
structure SaLayouts where
  byNum : List (UInt64 × List UInt16)
deriving DecidableEq, Repr, Inhabited

/-- The attribute ids of a layout, if defined. -/
def SaLayouts.attrIds (l : SaLayouts) (num : UInt64) : Option (List UInt16) :=
  (l.byNum.find? (fun e => e.1 == num)).map Prod.snd

/-- Decoded file metadata. A time is its seconds and nanoseconds. -/
structure ZplAttrs where
  mode : UInt64
  size : UInt64
  links : UInt64
  uid : UInt64
  gid : UInt64
  gen : UInt64
  parent : UInt64
  flags : UInt64
  atime : UInt64 × UInt64
  mtime : UInt64 × UInt64
  ctime : UInt64 × UInt64
  crtime : UInt64 × UInt64
  unknownAttrIds : List UInt16
deriving DecidableEq, Repr, Inhabited

/-- The default metadata: all zero, no unknown id. -/
def ZplAttrs.default : ZplAttrs :=
  { mode := 0, size := 0, links := 0, uid := 0, gid := 0, gen := 0, parent := 0, flags := 0, atime := (0, 0),
    mtime := (0, 0), ctime := (0, 0), crtime := (0, 0), unknownAttrIds := [] }

/-- The registration a value of the registry packs: `[length : bswap : id]`. -/
def saAttrDesc (v : UInt64) : SaAttrDesc :=
  { id := (v &&& 0xffff).toUInt16, size := ((v >>> 24) &&& 0xffff).toUInt16, bswap := ((v >>> 16) &&& 0xff).toUInt8 }

/-- Parse the registry. -/
def parseSaRegistry (block : Bytes) : SaRegistry := ⟨(zapList block).map (fun e => (e.1, saAttrDesc e.2))⟩

/-! ## Layout numbers -/

/-- The value of decimal digits after `acc`, if all are digits and the value fits a 64-bit word. -/
def parseDigits : Bytes → Nat → Option Nat
  | [], acc => some acc
  | c :: cs, acc =>
    if 0x30 ≤ c ∧ c ≤ 0x39 then
      let acc := acc * 10 + (c.toNat - 0x30)
      if acc < 2 ^ 64 then parseDigits cs acc else none
    else none

/-- `str::parse::<u64>`: digits, behind an optional plus sign. -/
def parseU64 (s : Bytes) : Option UInt64 :=
  let digits := if s.head? = some 0x2b then s.drop 1 else s
  if digits = [] then none else (parseDigits digits 0).map UInt64.ofNat

/-- The big-endian 16-bit words of a byte string; a last odd byte is ignored. -/
def beU16s : Bytes → List UInt16
  | a :: b :: rest => beU16 [a, b] 0 :: beU16s rest
  | _ => []

/-- Parse the layouts: each name is a number, each value an array of big-endian ids. -/
def parseSaLayouts (block : Bytes) : SaLayouts :=
  ⟨(zapListArrays block).filterMap (fun e => (parseU64 e.1).map (fun num => (num, beU16s e.2)))⟩

/-! ## The bonus -/

/-- The ids of the well-known attributes in one registry. -/
structure KnownAttrs where
  mode : Option UInt16
  size : Option UInt16
  links : Option UInt16
  uid : Option UInt16
  gid : Option UInt16
  gen : Option UInt16
  parent : Option UInt16
  flags : Option UInt16
  atime : Option UInt16
  mtime : Option UInt16
  ctime : Option UInt16
  crtime : Option UInt16

/-- Resolve the well-known attributes by name. -/
def knownAttrs (registry : SaRegistry) : KnownAttrs :=
  let idOf (name : String) : Option UInt16 := (registry.byName (ascii name)).map SaAttrDesc.id
  { mode := idOf "ZPL_MODE"
    size := idOf "ZPL_SIZE"
    links := idOf "ZPL_LINKS"
    uid := idOf "ZPL_UID"
    gid := idOf "ZPL_GID"
    gen := idOf "ZPL_GEN"
    parent := idOf "ZPL_PARENT"
    flags := idOf "ZPL_FLAGS"
    atime := idOf "ZPL_ATIME"
    mtime := idOf "ZPL_MTIME"
    ctime := idOf "ZPL_CTIME"
    crtime := idOf "ZPL_CRTIME" }

/-- Store one attribute's value, when it is a well-known one of sufficient size. -/
def assignKnown (attrs : ZplAttrs) (known : KnownAttrs) (id : UInt16) (rd : Reader) (bonus : Bytes) (off size : Nat) :
    ZplAttrs :=
  let scalar := rd.u64 bonus off
  let time := (rd.u64 bonus off, rd.u64 bonus (off + 8))
  if some id = known.mode ∧ 8 ≤ size then { attrs with mode := scalar }
  else if some id = known.size ∧ 8 ≤ size then { attrs with size := scalar }
  else if some id = known.links ∧ 8 ≤ size then { attrs with links := scalar }
  else if some id = known.uid ∧ 8 ≤ size then { attrs with uid := scalar }
  else if some id = known.gid ∧ 8 ≤ size then { attrs with gid := scalar }
  else if some id = known.gen ∧ 8 ≤ size then { attrs with gen := scalar }
  else if some id = known.parent ∧ 8 ≤ size then { attrs with parent := scalar }
  else if some id = known.flags ∧ 8 ≤ size then { attrs with flags := scalar }
  else if some id = known.atime ∧ saTimeSize ≤ size then { attrs with atime := time }
  else if some id = known.mtime ∧ saTimeSize ≤ size then { attrs with mtime := time }
  else if some id = known.ctime ∧ saTimeSize ≤ size then { attrs with ctime := time }
  else if some id = known.crtime ∧ saTimeSize ≤ size then { attrs with crtime := time }
  else attrs

/-- The walk over a layout: it stops at an unregistered id, a variable-length attribute, or the end of the bonus. -/
def saWalk (bonus : Bytes) (registry : SaRegistry) (rd : Reader) (known : KnownAttrs) :
    List UInt16 → ZplAttrs → Nat → ZplAttrs
  | [], attrs, _ => attrs
  | id :: ids, attrs, off =>
    match registry.sizeOf id with
    | none => { attrs with unknownAttrIds := attrs.unknownAttrIds ++ [id] }
    | some size =>
      if size = 0 then attrs
      else if bonus.length < satAdd off size.toNat then attrs
      else saWalk bonus registry rd known ids (assignKnown attrs known id rd bonus off size.toNat) (off + size.toNat)

/-- The layout number of a header word: its low ten bits. -/
def saLayoutNum (info : UInt16) : UInt64 := (info &&& 0x3ff).toUInt64

/-- The header size of a header word: its high six bits, in units of eight bytes. -/
def saHdrsz (info : UInt16) : Nat := ((info >>> 10) &&& 0x3f).toNat <<< 3

/-- Decode a System Attributes bonus. The magic and the header word are read little-endian. -/
def decodeSaBonus (bonus : Bytes) (registry : SaRegistry) (layouts : SaLayouts) (endian : Endian) : Option ZplAttrs :=
  if leU32 bonus 0 ≠ saMagic then none
  else
    let info := leU16 bonus 4
    match layouts.attrIds (saLayoutNum info) with
    | none => none
    | some ids => some (saWalk bonus registry ⟨endian⟩ (knownAttrs registry) ids ZplAttrs.default (saHdrsz info))

/-- The size of the next attribute of a layout, and the number of variable-length ones passed: the registered size, or for a
variable-length one the length in the header, which has one for each of them from offset 6 on. -/
def saAttrSize (sa : Bytes) (registry : SaRegistry) (hdrsz : Nat) (id : UInt16) (varIdx : Nat) : Option (Nat × Nat) :=
  match registry.sizeOf id with
  | none => none
  | some registered =>
    if registered = 0 then
      let pos := 6 + varIdx * 2
      if min hdrsz sa.length < pos + 2 then none else some ((leU16 sa pos).toNat, varIdx + 1)
    else some (registered.toNat, varIdx)

/-- The walk of `saAttrBytes` over a layout: it stops at an unregistered id and at a length the header does not hold. -/
def saAttrWalk (sa : Bytes) (registry : SaRegistry) (hdrsz : Nat) (want : UInt16) : List UInt16 → Nat → Nat → Option Bytes
  | [], _, _ => none
  | id :: ids, varIdx, off =>
    match saAttrSize sa registry hdrsz id varIdx with
    | none => none
    | some (size, varIdx) =>
      match checkedAdd off size with
      | none => none
      | some stop => if id = want then slice? sa off stop else saAttrWalk sa registry hdrsz want ids varIdx stop

/-- One attribute's bytes, by its registered name. -/
def saAttrBytes (sa : Bytes) (registry : SaRegistry) (layouts : SaLayouts) (name : Bytes) : Option Bytes :=
  if leU32 sa 0 ≠ saMagic then none
  else
    let info := leU16 sa 4
    match layouts.attrIds (saLayoutNum info) with
    | none => none
    | some ids =>
      match registry.byName name with
      | none => none
      | some desc => saAttrWalk sa registry (saHdrsz info) desc.id ids 0 (saHdrsz info)

/-- Decode a legacy bonus. -/
def decodeZnodePhys (bonus : Bytes) (endian : Endian) : Option ZplAttrs :=
  if bonus.length < znodePhysSize then none
  else
    let rd : Reader := ⟨endian⟩
    let time (off : Nat) : UInt64 × UInt64 := (rd.u64 bonus off, rd.u64 bonus (off + 8))
    some
      { atime := time 0
        mtime := time 16
        ctime := time 32
        crtime := time 48
        gen := rd.u64 bonus 64
        mode := rd.u64 bonus 72
        size := rd.u64 bonus 80
        parent := rd.u64 bonus 88
        links := rd.u64 bonus 96
        uid := 0
        gid := 0
        flags := 0
        unknownAttrIds := [] }

end ZfsForensic
