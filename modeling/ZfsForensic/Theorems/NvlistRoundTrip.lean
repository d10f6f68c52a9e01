import ZfsForensic.Nvlist

/-!
# The nvlist parser inverts the packed form

`XdrList` is a list as it is written: its pairs in order, with the words the decoder passes over and the pairs of types it does
not know. `XdrList.encode` writes one, `XdrList.tree` is what of it a reader should see. The position inside a pair comes from
padded lengths and the position behind it from the encoded size; a part of the data (`Part`) carries both, so the induction on
the list never counts bytes of the data before it.
-/

namespace ZfsForensic

open Octets Checked

/-! ## The packed form -/

/-- A string with zeros up to the next multiple of four. -/
def xdrPad (s : Bytes) : Bytes := s ++ zeros ((s.length + 3) / 4 * 4 - s.length)

/-- A 32-bit word. -/
abbrev xdrWord (n : Nat) : Bytes := encode .big 4 n

/-- A string: its length, and its bytes padded. -/
def xdrString (s : Bytes) : Bytes := xdrWord s.length ++ xdrPad s

/-- The value of a pair that holds no list. A byte string is of one of two types. -/
inductive XdrLeaf where
  | u64 (v : UInt64)
  | str (s : Bytes)
  | byteArray (b : Bytes)
  | uint8Array (b : Bytes)
  | other (dataType nelem : UInt32) (raw : Bytes)

/-- The number of a value's type. -/
def XdrLeaf.dataType : XdrLeaf → Nat
  | .u64 _ => 8
  | .str _ => 9
  | .byteArray _ => 10
  | .uint8Array _ => 26
  | .other dataType _ _ => dataType.toNat

/-- The element count beside a value. -/
def XdrLeaf.nelem : XdrLeaf → Nat
  | .u64 _ => 1
  | .str _ => 1
  | .byteArray b => b.length
  | .uint8Array b => b.length
  | .other _ nelem _ => nelem.toNat

/-- The packed form of a value. -/
def XdrLeaf.encode : XdrLeaf → Bytes
  | .u64 v => Octets.encode .big 8 v.toNat
  | .str s => xdrString s
  | .byteArray b => xdrPad b
  | .uint8Array b => xdrPad b
  | .other _ _ raw => raw

/-- The decoded value, or `none` for a type that is skipped. -/
def XdrLeaf.value : XdrLeaf → Option NvValue
  | .u64 v => some (.u64 v)
  | .str s => some (.str s)
  | .byteArray b => some (.bytes b)
  | .uint8Array b => some (.bytes b)
  | .other _ _ _ => none

/-- What a value of its type may be: text is UTF-8, lengths are inside the caps, and another type is none of those decoded. -/
def XdrLeaf.Stored : XdrLeaf → Prop
  | .u64 _ => True
  | .str s => IsUtf8 s ∧ s.length ≤ maxStringLen
  | .byteArray b => b.length ≤ maxStringLen
  | .uint8Array b => b.length ≤ maxStringLen
  | .other dataType _ _ => dataType.toNat ∉ [8, 9, 10, 19, 26]

/-- A list as it is written: its pairs in order, with the words the decoder passes over. -/
inductive XdrList where
  | nil
  | leaf (name : Bytes) (decodedSize : UInt32) (value : XdrLeaf) (rest : XdrList)
  | nested (name : Bytes) (decodedSize version flags : UInt32) (inner rest : XdrList)

/-- What follows the two sizes of a pair. -/
def xdrPairBody (name : Bytes) (dataType nelem : Nat) (value : Bytes) : Bytes :=
  xdrString name ++ xdrWord dataType ++ xdrWord nelem ++ value

/-- A pair, with its encoded size. -/
def xdrPair (name : Bytes) (decodedSize : UInt32) (dataType nelem : Nat) (value : Bytes) : Bytes :=
  xdrWord (8 + (xdrPairBody name dataType nelem value).length) ++ xdrWord decodedSize.toNat ++
    xdrPairBody name dataType nelem value

/-- The packed form of a list behind its version and flags: its pairs and eight zeros. -/
def XdrList.encode : XdrList → Bytes
  | .nil => zeros 8
  | .leaf name decodedSize value rest =>
    xdrPair name decodedSize value.dataType value.nelem value.encode ++ rest.encode
  | .nested name decodedSize version flags inner rest =>
    xdrPair name decodedSize 19 1 (xdrWord version.toNat ++ xdrWord flags.toNat ++ inner.encode) ++ rest.encode

/-- The decoded list: the pairs in order, those of other types left out. -/
def XdrList.tree : XdrList → NvList
  | .nil => []
  | .leaf name _ value rest => (value.value.map (fun v => (name, v))).toList ++ rest.tree
  | .nested name _ _ _ inner rest => (name, .nvList inner.tree) :: rest.tree

/-- The number of pairs, those of other types included. -/
def XdrList.count : XdrList → Nat
  | .nil => 0
  | .leaf _ _ _ rest => rest.count + 1
  | .nested _ _ _ _ _ rest => rest.count + 1

/-- How deep lists nest below this one. -/
def XdrList.depth : XdrList → Nat
  | .nil => 0
  | .leaf _ _ _ rest => rest.depth
  | .nested _ _ _ _ inner rest => max (inner.depth + 1) rest.depth

/-- What a written list is: every name inside its cap, every decoded name UTF-8, every value one of its type, every nested list
of fewer pairs than the cap, and every encoded size a signed word. -/
def XdrList.Stored : XdrList → Prop
  | .nil => True
  | .leaf name _ value rest =>
    name.length ≤ maxNameLen ∧ (value.value.isSome → IsUtf8 name) ∧ value.Stored ∧
      8 + (xdrPairBody name value.dataType value.nelem value.encode).length < 2 ^ 31 ∧ rest.Stored
  | .nested name _ version flags inner rest =>
    name.length ≤ maxNameLen ∧ IsUtf8 name ∧ inner.Stored ∧ inner.count < maxPairs ∧
      8 + (xdrPairBody name 19 1 (xdrWord version.toNat ++ xdrWord flags.toNat ++ inner.encode)).length < 2 ^ 31 ∧
      rest.Stored

/-- A packed nvlist: the header, and the list with its version and flags. -/
def XdrList.pack (endian reserved0 reserved1 : UInt8) (version flags : UInt32) (l : XdrList) : Bytes :=
  [nvEncodeXdr, endian, reserved0, reserved1] ++ (xdrWord version.toNat ++ xdrWord flags.toNat ++ l.encode)


/-! ## Reading it back -/

@[simp] theorem length_xdrPad (s : Bytes) : (xdrPad s).length = (s.length + 3) / 4 * 4 := by
  rw [xdrPad, List.length_append, length_zeros]
  omega

@[simp] theorem length_xdrString (s : Bytes) : (xdrString s).length = 4 + (s.length + 3) / 4 * 4 := by
  rw [xdrString, List.length_append, length_encode, length_xdrPad]

/-- A word of a part is read. -/
theorem beU32_of_part {data : Bytes} {off n : Nat} (h : Part data off (xdrWord n)) (hn : n < 2 ^ 32) :
    (beU32 data off).toNat = n := by
  rw [beU32, h.readUint (by omega), UInt32.toNat_ofNat', Nat.mod_eq_of_lt hn]

theorem beU64_of_part {data : Bytes} {off : Nat} {v : UInt64} (h : Part data off (encode .big 8 v.toNat)) :
    beU64 data off = v := by
  rw [beU64, h.readUint (by have := v.toNat_lt; omega), UInt64.ofNat_toNat]

theorem isNegative_eq_false {w : UInt32} (h : w.toNat < 2 ^ 31) : isNegative w = false := by
  simp only [isNegative, decide_eq_false_iff_not, UInt32.le_iff_toNat_le, UInt32.reduceToNat]
  omega

/-- A written string inside its cap is read, up to the end of its padding. -/
theorem readXdrString_of_part {data s : Bytes} {off cap : Nat} (field : String) (h : Part data off (xdrString s))
    (hs : s.length ≤ cap) (hcap : cap < 2 ^ 31) (hfit : off + (xdrString s).length < 2 ^ 64) :
    readXdrString data off field cap = .ok (fromUtf8Lossy s, off + (xdrString s).length) := by
  rw [length_xdrString] at hfit ⊢
  have hword : (beU32 data off).toNat = s.length := beU32_of_part h.left (by omega)
  have hbytes := h.right.left.slice? rfl
  rw [length_encode] at hbytes
  unfold readXdrString
  dsimp only
  rw [isNegative_eq_false (by omega), if_neg Bool.false_ne_true, hword, if_neg (by omega), satAdd_eq (by omega),
    if_neg (by omega), hbytes]
  dsimp only
  rw [satAdd_eq (by omega), Nat.add_assoc]

/-- A byte string inside its cap, of either type, is read as its bytes. -/
theorem parseValue_bytes_of_part {data b : Bytes} {off dataType : Nat} (nested : Nat → Except ZfsError (NvList × Nat))
    (htype : dataType = 10 ∨ dataType = 26) (hb : b.length ≤ maxStringLen)
    (h : Part data off (xdrWord dataType ++ xdrWord b.length ++ xdrPad b))
    (hfit : off + 8 + (xdrPad b).length < 2 ^ 64) : parseValue data nested off = .ok (some (.bytes b)) := by
  have hcap : maxStringLen = 65536 := rfl
  have hword := beU32_of_part h.left.left (by omega)
  have hnelem := h.left.right
  rw [length_encode] at hnelem
  have hcount := beU32_of_part hnelem (by omega)
  have hvalue := h.right.left.slice? rfl
  rw [List.length_append, length_encode, length_encode] at hvalue
  rw [length_xdrPad] at hfit
  unfold parseValue
  dsimp only
  rw [hword, satAdd_eq (by omega), satAdd_eq (by omega), hcount, if_neg (by omega), if_neg (by omega), if_neg (by omega),
    if_pos htype, if_neg (by omega), satAdd_eq (by omega), hvalue]
  rfl

/-- A written value is read as what it decodes to. -/
theorem parseValue_of_part {data : Bytes} {off : Nat} (nested : Nat → Except ZfsError (NvList × Nat)) {v : XdrLeaf}
    (hv : v.Stored) (h : Part data off (xdrWord v.dataType ++ xdrWord v.nelem ++ v.encode))
    (hfit : off + 8 + v.encode.length < 2 ^ 64) : parseValue data nested off = .ok v.value := by
  have htype : v.dataType < 2 ^ 32 := by
    cases v with
    | other dataType nelem raw => exact dataType.toNat_lt
    | _ => simp [XdrLeaf.dataType]
  have hword := beU32_of_part h.left.left htype
  have hvalue := h.right
  rw [List.length_append, length_encode, length_encode] at hvalue
  cases v with
  | u64 v =>
    unfold parseValue
    dsimp only
    rw [hword, satAdd_eq (by omega), XdrLeaf.dataType, if_pos rfl, beU64_of_part hvalue]
    rfl
  | str s =>
    obtain ⟨hutf, hlen⟩ := hv
    unfold parseValue
    dsimp only
    rw [hword, satAdd_eq (by omega), XdrLeaf.dataType, if_neg (by omega), if_pos rfl,
      readXdrString_of_part _ hvalue hlen (by decide) hfit, (fromUtf8Lossy_eq_self_iff s).2 hutf]
    rfl
  | byteArray b => exact parseValue_bytes_of_part nested (Or.inl rfl) hv h hfit
  | uint8Array b => exact parseValue_bytes_of_part nested (Or.inr rfl) hv h hfit
  | other dataType nelem raw =>
    simp only [XdrLeaf.Stored, List.mem_cons, not_or] at hv
    obtain ⟨h8, h9, h10, h19, h26, -⟩ := hv
    unfold parseValue
    dsimp only
    rw [hword, XdrLeaf.dataType, if_neg h8, if_neg h9, if_neg h19, if_neg (by omega)]
    rfl

/-- A written nested list is read as its pairs, where the reading of its body gives them. -/
theorem parseValue_nested_of_part {data : Bytes} {off next nelem : Nat} {l : NvList} {value : Bytes}
    {nested : Nat → Except ZfsError (NvList × Nat)} (h : Part data off (xdrWord 19 ++ xdrWord nelem ++ value))
    (hfit : off + 8 < 2 ^ 64) (hnested : nested (off + 8) = .ok (l, next)) :
    parseValue data nested off = .ok (some (.nvList l)) := by
  have hword := beU32_of_part h.left.left (by omega)
  unfold parseValue
  dsimp only
  rw [hword, satAdd_eq hfit, if_neg (by omega), if_neg (by omega), if_pos rfl, hnested]
  rfl

/-- One step over a written pair: the pair is read and the walk goes on behind its encoded size, or stops at the end. -/
theorem parsePairs_of_part {data name value : Bytes} {decodedSize : UInt32} {off dataType nelem n : Nat} {list : NvList}
    {nested : Nat → Except ZfsError (NvList × Nat)} {v : Option NvValue}
    (h : Part data off (xdrPair name decodedSize dataType nelem value)) (hname : name.length ≤ maxNameLen)
    (hsize : 8 + (xdrPairBody name dataType nelem value).length < 2 ^ 31)
    (hfit : off + (xdrPair name decodedSize dataType nelem value).length < 2 ^ 64)
    (hend : off + (xdrPair name decodedSize dataType nelem value).length < data.length)
    (hvalue : parseValue data nested (off + 8 + (xdrString name).length) = .ok v) :
    parsePairs data nested (n + 1) off list =
      parsePairs data nested n (off + (xdrPair name decodedSize dataType nelem value).length)
        (list ++ (v.map (fun v => (fromUtf8Lossy name, v))).toList) := by
  have hlen : (xdrPair name decodedSize dataType nelem value).length =
      8 + (xdrPairBody name dataType nelem value).length := by
    simp only [xdrPair, List.length_append, length_encode]
  have hbody : (xdrString name).length ≤ (xdrPairBody name dataType nelem value).length := by
    simp only [xdrPairBody, List.length_append]
    omega
  have hword := beU32_of_part h.left.left (by omega)
  have hpart := h.right
  rw [List.length_append, length_encode, length_encode] at hpart
  have hread := readXdrString_of_part "nvpair name" hpart.left.left.left hname (by decide) (by omega)
  rw [hlen] at hfit hend ⊢
  have hpos : beU32 data off ≠ 0 := by
    intro h0
    rw [h0, UInt32.toNat_zero] at hword
    omega
  rw [parsePairs]
  dsimp only
  rw [if_neg hpos, isNegative_eq_false (by omega), if_neg Bool.false_ne_true, satAdd_eq (by omega), hread]
  dsimp only
  rw [hvalue]
  dsimp only
  rw [hword, satAdd_eq hfit]
  cases v with
  | none => simp only [Option.map_none, Option.toList_none, List.append_nil]
  | some v =>
    dsimp only
    rw [if_neg (by omega)]
    rfl

theorem XdrList.eight_le_length (l : XdrList) : 8 ≤ l.encode.length := by
  induction l with
  | nil => simp [encode]
  | leaf name decodedSize value rest ih =>
    rw [encode, List.length_append]
    omega
  | nested name decodedSize version flags inner rest ihi ih =>
    rw [encode, List.length_append]
    omega

/-- What follows the name of a pair lies behind the two sizes and the name. -/
theorem Part.xdrPair_value {data name value : Bytes} {decodedSize : UInt32} {off dataType nelem : Nat}
    (h : Part data off (xdrPair name decodedSize dataType nelem value)) :
    Part data (off + 8 + (xdrString name).length) (xdrWord dataType ++ xdrWord nelem ++ value) := by
  have hpart := h.right
  rw [List.length_append, length_encode, length_encode, xdrPairBody, List.append_assoc, List.append_assoc] at hpart
  have htail := hpart.right
  rwa [← List.append_assoc] at htail

theorem length_xdrPair (name value : Bytes) (decodedSize : UInt32) (dataType nelem : Nat) :
    (xdrPair name decodedSize dataType nelem value).length = 16 + (xdrString name).length + value.length := by
  simp only [xdrPair, xdrPairBody, List.length_append, length_encode]
  omega

/-- The walk over a written list gives its tree, and ends behind it. -/
theorem parsePairs_of_list {data : Bytes} (l : XdrList) (left n off : Nat) (list : NvList) (hl : l.Stored)
    (hdepth : l.depth ≤ left) (hcount : l.count < n) (h : Part data off l.encode) (hfit : off + l.encode.length < 2 ^ 64) :
    parsePairs data (parseBody data left) n off list = .ok (list ++ l.tree, off + l.encode.length) := by
  induction l generalizing left n off list with
  | nil =>
    obtain ⟨n, rfl⟩ := Nat.exists_eq_succ_of_ne_zero (n := n) (by omega)
    have hzero : beU32 data off = 0 := by
      refine UInt32.toNat_inj.1 ?_
      rw [UInt32.toNat_zero]
      exact beU32_of_part (Part.left (t := zeros 4) h) (by omega)
    have hfit8 : off + 8 < 2 ^ 64 := hfit
    rw [parsePairs_of_terminator hzero, XdrList.tree, List.append_nil, satAdd_eq hfit8]
    rfl
  | leaf name decodedSize value rest ih =>
    obtain ⟨hname, hutf, hvalue, hsize, hrest⟩ := hl
    obtain ⟨n, rfl⟩ := Nat.exists_eq_succ_of_ne_zero (n := n) (by rw [XdrList.count] at hcount; omega)
    have hmin := rest.eight_le_length
    have hend := h.end_le
    have hlen := length_xdrPair name value.encode decodedSize value.dataType value.nelem
    rw [XdrList.encode] at h hfit hend ⊢
    rw [List.length_append] at hfit hend ⊢
    rw [parsePairs_of_part h.left hname hsize (by omega) (by omega)
      (parseValue_of_part _ hvalue (Part.xdrPair_value h.left) (by omega)),
      ih left n _ _ hrest hdepth (by rw [XdrList.count] at hcount; omega) h.right (by omega), Nat.add_assoc]
    cases hv : value.value with
    | none => simp [XdrList.tree, hv]
    | some v =>
      have hself := (fromUtf8Lossy_eq_self_iff name).2 (hutf (by rw [hv]; rfl))
      simp [XdrList.tree, hv, hself]
  | nested name decodedSize version flags inner rest ihi ih =>
    obtain ⟨hname, hutf, hinner, hpairs, hsize, hrest⟩ := hl
    rw [XdrList.depth] at hdepth
    rw [XdrList.count] at hcount
    obtain ⟨n, rfl⟩ := Nat.exists_eq_succ_of_ne_zero (n := n) (by omega)
    obtain ⟨left, rfl⟩ := Nat.exists_eq_succ_of_ne_zero (n := left) (by omega)
    have hmin := rest.eight_le_length
    have hend := h.end_le
    have hlen := length_xdrPair name (xdrWord version.toNat ++ xdrWord flags.toNat ++ inner.encode) decodedSize 19 1
    rw [List.length_append, List.length_append, length_encode, length_encode] at hlen
    rw [XdrList.encode] at h hfit hend ⊢
    rw [List.length_append] at hfit hend ⊢
    have hvalue := Part.xdrPair_value h.left
    have hbody : parseBody data (left + 1) (off + 8 + (xdrString name).length + 8) =
        .ok (inner.tree, off + 8 + (xdrString name).length + 16 + inner.encode.length) := by
      have hpart := hvalue.right.right
      rw [List.length_append, List.length_append, length_encode, length_encode, length_encode, length_encode] at hpart
      rw [parseBody_eq _ _ (by omega)]
      exact ihi left maxPairs _ [] hinner (by omega) hpairs hpart (by omega)
    rw [parsePairs_of_part h.left hname hsize (by omega) (by omega)
      (parseValue_nested_of_part hvalue (by omega) hbody),
      ih (left + 1) n _ _ hrest (by omega) (by omega) h.right (by omega), Nat.add_assoc]
    simp [XdrList.tree, (fromUtf8Lossy_eq_self_iff name).2 hutf]

/-- A written list is at most its pairs' sizes long. -/
theorem XdrList.length_le (l : XdrList) (hl : l.Stored) : l.encode.length ≤ l.count * 2 ^ 31 + 8 := by
  induction l with
  | nil => simp [encode]
  | leaf name decodedSize value rest ih =>
    obtain ⟨-, -, -, hsize, hrest⟩ := hl
    have hle := ih hrest
    simp only [xdrPairBody, List.length_append, length_encode] at hsize
    rw [encode, count, List.length_append, length_xdrPair]
    omega
  | nested name decodedSize version flags inner rest ihi ih =>
    obtain ⟨-, -, -, -, hsize, hrest⟩ := hl
    have hle := ih hrest
    simp only [xdrPairBody, List.length_append, length_encode] at hsize
    rw [encode, count, List.length_append, length_xdrPair]
    simp only [List.length_append, length_encode]
    omega

/-- The body of a written list is read as its tree, wherever it lies. -/
theorem parseBody_of_part {data : Bytes} {version flags : UInt32} {l : XdrList} {left off : Nat} (hl : l.Stored)
    (hdepth : l.depth ≤ left) (hcount : l.count < maxPairs) (hoff : off < 2 ^ 63)
    (h : Part data off (xdrWord version.toNat ++ xdrWord flags.toNat ++ l.encode)) :
    parseBody data (left + 1) off = .ok (l.tree, off + 8 + l.encode.length) := by
  have hpairs : maxPairs = 4096 := rfl
  have hlen := l.length_le hl
  have hpart := h.right
  rw [List.length_append, length_encode, length_encode] at hpart
  rw [parseBody_eq _ _ (by omega)]
  exact parsePairs_of_list l left maxPairs _ [] hl hdepth hcount hpart (by omega)

/-- A list behind a four-byte header is read as its tree. -/
theorem nvlistParse_of_part {data : Bytes} {version flags : UInt32} {l : XdrList} (hencoding : u8At data 0 = nvEncodeXdr)
    (hl : l.Stored) (hdepth : l.depth ≤ maxDepth) (hcount : l.count < maxPairs)
    (h : Part data 4 (xdrWord version.toNat ++ xdrWord flags.toNat ++ l.encode)) : nvlistParse data = .ok l.tree := by
  have hend := h.end_le
  unfold nvlistParse
  dsimp only
  rw [if_neg (fun hne => hne hencoding), if_neg (by omega), parseBody_of_part hl hdepth hcount (by omega) h]
  rfl

/-- A packed list parses to its tree, whatever follows it: the pairs in order, with exactly those of other types left out. -/
theorem nvlistParse_pack (endian reserved0 reserved1 : UInt8) (version flags : UInt32) (l : XdrList) (trailing : Bytes)
    (hl : l.Stored) (hcount : l.count < maxPairs) (hdepth : l.depth ≤ maxDepth) :
    nvlistParse (l.pack endian reserved0 reserved1 version flags ++ trailing) = .ok l.tree :=
  nvlistParse_of_part rfl hl hdepth hcount (part_middle [nvEncodeXdr, endian, reserved0, reserved1] _ trailing)

/-- A configuration with a pair of a type the parser does not know, and a nested list. -/
def sampleConfig : XdrList :=
  .leaf (ascii "pool_guid") 32 (.u64 7) (.leaf (ascii "features") 24 (.other 1 0 [0, 0, 0, 1])
    (.nested (ascii "vdev_tree") 48 0 1 (.leaf (ascii "type") 32 (.str (ascii "disk")) .nil) .nil))

theorem nvlistParse_sampleConfig :
    nvlistParse (sampleConfig.pack 1 0 0 0 1 ++ [0xff]) =
      .ok [(ascii "pool_guid", .u64 7), (ascii "vdev_tree", .nvList [(ascii "type", .str (ascii "disk"))])] := by
  have hguid : IsUtf8 (ascii "pool_guid") := (fromUtf8Lossy_eq_self_iff _).1 (by decide)
  have htree : IsUtf8 (ascii "vdev_tree") := (fromUtf8Lossy_eq_self_iff _).1 (by decide)
  have htype : IsUtf8 (ascii "type") := (fromUtf8Lossy_eq_self_iff _).1 (by decide)
  have hdisk : IsUtf8 (ascii "disk") := (fromUtf8Lossy_eq_self_iff _).1 (by decide)
  refine nvlistParse_pack 1 0 0 0 1 sampleConfig [0xff] ?_ (by decide) (by decide)
  have hother : (XdrLeaf.other 1 0 [0, 0, 0, 1]).Stored := by simp [XdrLeaf.Stored]
  refine ⟨by decide, fun _ => hguid, trivial, by decide, by decide, fun h => absurd h Bool.false_ne_true, hother, by decide,
    by decide, htree, ?_, by decide, by decide, trivial⟩
  exact ⟨by decide, fun _ => htype, ⟨hdisk, by decide⟩, by decide, trivial⟩

end ZfsForensic
