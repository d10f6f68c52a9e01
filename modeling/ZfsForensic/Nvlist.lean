import ZfsForensic.Basic

/-!
# Packed nvlists

The pool configuration of a label: a four-byte header, then name and value pairs, every integer big-endian. A pair carries its
own encoded size, by which the pairs of other types are skipped. The counts and lengths are capped; running past the caps is an
error, running past the end of the buffer a short list.
-/

namespace ZfsForensic

open Octets Checked

/-- The encoding byte of a packed XDR nvlist. -/
def nvEncodeXdr : UInt8 := 1

/-- Upper bound on a pair's name length. -/
def maxNameLen : Nat := 4096

/-- Upper bound on a string value's length. -/
def maxStringLen : Nat := 65536

/-- Upper bound on the pairs of one list. -/
def maxPairs : Nat := 4096

/-- Upper bound on the nesting depth. -/
def maxDepth : Nat := 16

/-- A decoded value. -/
inductive NvValue where
  | u64 (v : UInt64)
  | str (s : Bytes)
  | nvList (pairs : List (Bytes × NvValue))
  | bytes (b : Bytes)
deriving Repr

/-- A decoded nvlist: its pairs, in order. -/
abbrev NvList := List (Bytes × NvValue)

/-- Look up a name: the first value. -/
def NvList.get (l : NvList) (name : Bytes) : Option NvValue := (l.find? (fun e => e.1 == name)).map Prod.snd

/-- Look up a `u64` value. -/
def NvList.getU64 (l : NvList) (name : Bytes) : Option UInt64 :=
  match NvList.get l name with
  | some (.u64 v) => some v
  | _ => none

/-- Look up a string value. -/
def NvList.getStr (l : NvList) (name : Bytes) : Option Bytes :=
  match NvList.get l name with
  | some (.str s) => some s
  | _ => none

/-- Look up a nested list. -/
def NvList.getNvlist (l : NvList) (name : Bytes) : Option NvList :=
  match NvList.get l name with
  | some (.nvList pairs) => some pairs
  | _ => none

/-- The fields of the nested `vdev_tree`. -/
structure VdevTree where
  vdevType : Bytes
  ashift : UInt64
  asize : UInt64
  guid : UInt64
deriving DecidableEq, Repr

/-- Extract the fields of a `vdev_tree`; a missing one is empty or zero. -/
def VdevTree.fromNvlist (nv : NvList) : VdevTree :=
  { vdevType := (NvList.getStr nv (ascii "type")).getD []
    ashift := (NvList.getU64 nv (ascii "ashift")).getD 0
    asize := (NvList.getU64 nv (ascii "asize")).getD 0
    guid := (NvList.getU64 nv (ascii "guid")).getD 0 }

/-- The nested `vdev_tree`, if present. -/
def NvList.vdevTree (l : NvList) : Option VdevTree :=
  (NvList.getNvlist l (ascii "vdev_tree")).map VdevTree.fromNvlist

/-- Whether a 32-bit word is negative as a signed integer. -/
def isNegative (v : UInt32) : Bool := 0x80000000 ≤ v

/-- The magnitude of a negative 32-bit word. -/
def unsignedAbs (v : UInt32) : Nat := 2 ^ 32 - v.toNat

/-- Read an XDR string: a length and that many bytes, padded to four. Returns the text and the offset behind it. -/
def readXdrString (data : Bytes) (off : Nat) (field : String) (cap : Nat) : Except ZfsError (Bytes × Nat) :=
  let word := beU32 data off
  if isNegative word then .error (.nvlistBomb field (unsignedAbs word) cap)
  else
    let len := word.toNat
    if cap < len then .error (.nvlistBomb field len cap)
    else
      let start := satAdd off 4
      if 2 ^ 64 ≤ start + len then .error (.truncated "xdr string" len (data.length - start))
      else
        match slice? data start (start + len) with
        | none => .error (.truncated "xdr string" len (data.length - start))
        | some raw => .ok (fromUtf8Lossy raw, satAdd start ((len + 3) / 4 * 4))

/-- The value of one pair, or `none` for a type that is skipped. `nested` parses a nested list. -/
def parseValue (data : Bytes) (nested : Nat → Except ZfsError (NvList × Nat)) (afterName : Nat) :
    Except ZfsError (Option NvValue) :=
  let dataType := (beU32 data afterName).toNat
  let valueOff := satAdd afterName 8
  if dataType = 8 then .ok (some (.u64 (beU64 data valueOff)))
  else if dataType = 9 then
    (readXdrString data valueOff "nvpair string" maxStringLen).map (fun s => some (.str s.1))
  else if dataType = 19 then (nested valueOff).map (fun l => some (.nvList l.1))
  else if dataType = 10 ∨ dataType = 26 then
    let n := (beU32 data (satAdd afterName 4)).toNat
    if maxStringLen < n then .error (.nvlistBomb "byte_array nelem" n maxStringLen)
    else .ok (some (.bytes ((slice? data valueOff (satAdd valueOff n)).getD [])))
  else .ok none

/-- The pairs of one list from `cur` on, at most `n` of them, after those of `list`. -/
def parsePairs (data : Bytes) (nested : Nat → Except ZfsError (NvList × Nat)) :
    Nat → Nat → NvList → Except ZfsError (NvList × Nat)
  | 0, _, _ => .error (.nvlistBomb "pair_count" maxPairs maxPairs)
  | n + 1, cur, list =>
    let encodedSize := beU32 data cur
    if encodedSize = 0 then .ok (list, satAdd cur 8)
    else if isNegative encodedSize then .error (.nvlistBomb "encoded_size" (unsignedAbs encodedSize) (2 ^ 31 - 1))
    else
      match readXdrString data (satAdd cur 8) "nvpair name" maxNameLen with
      | .error e => .error e
      | .ok (name, afterName) =>
        match parseValue data nested afterName with
        | .error e => .error e
        | .ok value =>
          let next := satAdd cur encodedSize.toNat
          match value with
          | none => parsePairs data nested n next list
          | some value =>
            let list := list ++ [(name, value)]
            if data.length ≤ next then .ok (list, next) else parsePairs data nested n next list

/-- Parse a list body at `off`: version and flags, then its pairs. The first argument is the nesting left; out of nesting, the
depth is one past its bound. -/
def parseBody (data : Bytes) : Nat → Nat → Except ZfsError (NvList × Nat)
  | 0, _ => .error (.nvlistBomb "depth" (maxDepth + 1) maxDepth)
  | left + 1, off =>
    if 2 ^ 64 ≤ off + 8 then .error (.truncated "nvlist body header" 8 (data.length - off))
    else parsePairs data (parseBody data left) maxPairs (off + 8) []

/-- Parse a packed nvlist. -/
def nvlistParse (data : Bytes) : Except ZfsError NvList :=
  let encoding := u8At data 0
  if encoding ≠ nvEncodeXdr then .error (.badNvlistEncoding encoding 0)
  else if data.length < 4 then .error (.truncated "nvlist header" 4 data.length)
  else (parseBody data (maxDepth + 1) 4).map Prod.fst

/-- A list ends at a pair of size zero. -/
theorem parsePairs_of_terminator {data : Bytes} {cur : Nat} (h : beU32 data cur = 0)
    (nested : Nat → Except ZfsError (NvList × Nat)) (n : Nat) (list : NvList) :
    parsePairs data nested (n + 1) cur list = .ok (list, satAdd cur 8) := by
  simp only [parsePairs, h, if_true]

theorem parseBody_eq (data : Bytes) (left : Nat) {off : Nat} (h : off + 8 < 2 ^ 64) :
    parseBody data (left + 1) off = parsePairs data (parseBody data left) maxPairs (off + 8) [] := by
  rw [parseBody, if_neg (by omega)]

end ZfsForensic
