import ZfsForensic.Theorems.NvlistRoundTrip

/-!
# A packed nvlist cut short

An integer past the end of the data reads as zero, a byte string past it as the empty one, and a string past it fails. So a list cut
short is read as an error, as its first pairs, or, where the cut lies behind the type of a pair and before the end of its value, with a
zero or an empty byte string in place of that value. `XdrList.Exposed` is where: in every other place a cut is harmless.
-/

namespace ZfsForensic

open Octets Checked

/-- The first list is the second cut short: its pairs are the first of the other's, and the last may be a list that is itself cut short. -/
inductive IsTruncation : NvList → NvList → Prop where
  | nil (l : NvList) : IsTruncation [] l
  | cons (e : Bytes × NvValue) {l l' : NvList} (h : IsTruncation l l') : IsTruncation (e :: l) (e :: l')
  | last (name : Bytes) {inner inner' : NvList} (rest : NvList) (h : IsTruncation inner inner') :
    IsTruncation [(name, .nvList inner)] ((name, .nvList inner') :: rest)

theorem IsTruncation.refl (l : NvList) : IsTruncation l l := by
  induction l with
  | nil => exact nil []
  | cons e l ih => exact cons e ih

theorem isTruncation_cons_iff (e : Bytes × NvValue) (l l' : NvList) : IsTruncation (e :: l) (e :: l') ↔ IsTruncation l l' := by
  constructor
  · intro h
    cases h with
    | cons _ h => exact h
    | last name rest h => exact .nil _
  · exact .cons e

theorem isTruncation_last_iff (name : Bytes) (inner inner' rest : NvList) :
    IsTruncation [(name, .nvList inner)] ((name, .nvList inner') :: rest) ↔ IsTruncation inner inner' := by
  constructor
  · intro h
    cases h with
    | cons _ h => exact .refl _
    | last _ _ h => exact h
  · exact .last name rest

theorem isTruncation_append_iff (p l l' : NvList) : IsTruncation (p ++ l) (p ++ l') ↔ IsTruncation l l' := by
  induction p with
  | nil => exact Iff.rfl
  | cons e p ih =>
    rw [List.cons_append, List.cons_append, isTruncation_cons_iff]
    exact ih

/-- A pair with another value, which is not a list, is no truncation. -/
theorem not_isTruncation_of_ne {name : Bytes} {v w : NvValue} {rest : NvList} (hne : v ≠ w) (hlist : ∀ l, v ≠ .nvList l) :
    ¬ IsTruncation [(name, v)] ((name, w) :: rest) := by
  intro h
  cases h with
  | cons _ h => exact hne rfl
  | last name rest h => exact hlist _ rfl

/-! ## Where a cut forges -/

/-- How many bytes of a value are read as nothing when the value is cut: those of a word other than zero, and those of a byte string. -/
def XdrLeaf.exposed : XdrLeaf → Nat
  | .u64 v => if v = 0 then 0 else 8
  | .byteArray b => b.length
  | .uint8Array b => b.length
  | _ => 0

/-- The cut `n` is behind the type of a pair and before the end of its exposed value. The type is at `off`. -/
def XdrLeaf.ExposedAt (v : XdrLeaf) (off n : Nat) : Prop := 0 < v.exposed ∧ off + 4 ≤ n ∧ n < off + 8 + v.exposed

/-- The cut `n` is in an exposed value of a list at `off`, at any depth. -/
def XdrList.Exposed : XdrList → Nat → Nat → Prop
  | .nil, _, _ => False
  | .leaf name decodedSize value rest, off, n =>
    value.ExposedAt (off + 8 + (xdrString name).length) n ∨
      rest.Exposed (off + (xdrPair name decodedSize value.dataType value.nelem value.encode).length) n
  | .nested name decodedSize version flags inner rest, off, n =>
    inner.Exposed (off + 24 + (xdrString name).length) n ∨
      rest.Exposed (off + (xdrPair name decodedSize 19 1 (xdrWord version.toNat ++ xdrWord flags.toNat ++ inner.encode)).length) n

theorem XdrLeaf.exposed_le (v : XdrLeaf) : v.exposed ≤ v.encode.length := by
  cases v with
  | u64 v =>
    rw [exposed, encode, length_encode]
    split <;> omega
  | byteArray b =>
    rw [exposed, encode, length_xdrPad]
    omega
  | uint8Array b =>
    rw [exposed, encode, length_xdrPad]
    omega
  | _ => exact Nat.zero_le _

/-- An exposed value lies inside the list. -/
theorem XdrList.Exposed.bounds {l : XdrList} {off n : Nat} (h : l.Exposed off n) : off < n ∧ n < off + l.encode.length := by
  induction l generalizing off with
  | nil => exact absurd h id
  | leaf name decodedSize value rest ih =>
    have hmin := rest.eight_le_length
    have hle := value.exposed_le
    rw [encode, List.length_append]
    rcases h with h | h
    · obtain ⟨-, hlo, hhi⟩ := h
      rw [length_xdrPair]
      omega
    · have := ih h
      omega
  | nested name decodedSize version flags inner rest ihi ih =>
    have hmin := rest.eight_le_length
    rw [encode, List.length_append]
    rcases h with h | h
    · have := ihi h
      rw [length_xdrPair, List.length_append, List.length_append, length_encode, length_encode]
      omega
    · have := ih h
      omega

/-! ## Reading up to the cut -/

theorem beU32_take_of_lt {data : Bytes} {off n : Nat} (h : n < off + 4) : beU32 (data.take n) off = 0 := by
  rw [beU32, readUint_take, if_neg (by omega)]
  rfl

theorem beU32_take_of_le {data : Bytes} {off n : Nat} (h : off + 4 ≤ n) : beU32 (data.take n) off = beU32 data off := by
  rw [beU32, readUint_take, if_pos h]
  rfl

/-- A string cut before the end of its bytes fails. -/
theorem readXdrString_cut {data s : Bytes} {off cap n : Nat} (field : String) (h : Part data off (xdrString s)) (hs : s.length ≤ cap)
    (hcap : cap < 2 ^ 31) (hfit : off + (xdrString s).length < 2 ^ 64) (hcut : n < off + 4 + s.length) :
    ∃ e, readXdrString (data.take n) off field cap = .error e := by
  rw [length_xdrString] at hfit
  by_cases hword : n < off + 4
  · refine ⟨.truncated "xdr string" 0 ((data.take n).length - (off + 4)), ?_⟩
    unfold readXdrString
    dsimp only
    rw [beU32_take_of_lt hword, isNegative_eq_false (by decide), if_neg Bool.false_ne_true, UInt32.toNat_zero, if_neg (by omega),
      satAdd_eq (by omega), if_neg (by omega), slice?_take, if_neg (by omega)]
  · have hlen : (beU32 data off).toNat = s.length := beU32_of_part h.left (by omega)
    refine ⟨.truncated "xdr string" s.length ((data.take n).length - (off + 4)), ?_⟩
    unfold readXdrString
    dsimp only
    rw [beU32_take_of_le (by omega), isNegative_eq_false (by omega), if_neg Bool.false_ne_true, hlen, if_neg (by omega),
      satAdd_eq (by omega), if_neg (by omega), slice?_take, if_neg (by omega)]

/-- A string whose bytes lie before the cut is read. -/
theorem readXdrString_take {data s : Bytes} {off cap n : Nat} (field : String) (h : Part data off (xdrString s)) (hs : s.length ≤ cap)
    (hcap : cap < 2 ^ 31) (hfit : off + (xdrString s).length < 2 ^ 64) (hcut : off + 4 + s.length ≤ n) :
    readXdrString (data.take n) off field cap = .ok (fromUtf8Lossy s, off + (xdrString s).length) := by
  rw [length_xdrString] at hfit ⊢
  have hlen : (beU32 data off).toNat = s.length := beU32_of_part h.left (by omega)
  have hbytes := h.right.left.slice? rfl
  rw [length_encode] at hbytes
  unfold readXdrString
  dsimp only
  rw [beU32_take_of_le (by omega), isNegative_eq_false (by omega), if_neg Bool.false_ne_true, hlen, if_neg (by omega),
    satAdd_eq (by omega), if_neg (by omega), slice?_take, if_pos hcut, hbytes]
  dsimp only
  rw [satAdd_eq (by omega), Nat.add_assoc]

/-- A byte string is read before the cut, and is empty behind it. -/
theorem parseValue_bytes_cut {data b : Bytes} {off dataType n : Nat} (nested : Nat → Except ZfsError (NvList × Nat))
    (hkind : dataType = 10 ∨ dataType = 26) (hb : b.length ≤ maxStringLen)
    (h : Part data off (xdrWord dataType ++ xdrWord b.length ++ xdrPad b)) (hfit : off + 8 + (xdrPad b).length < 2 ^ 64)
    (htype : off + 4 ≤ n) :
    parseValue (data.take n) nested off = .ok (some (.bytes (if off + 8 + b.length ≤ n then b else []))) := by
  have hcap : maxStringLen = 65536 := rfl
  have hword : (beU32 (data.take n) off).toNat = dataType := by
    rw [beU32_take_of_le htype]
    exact beU32_of_part h.left.left (by omega)
  have hnelem := h.left.right
  rw [length_encode] at hnelem
  have hcount := beU32_of_part hnelem (by omega)
  have hvalue := h.right.left.slice? rfl
  rw [List.length_append, length_encode, length_encode] at hvalue
  rw [length_xdrPad] at hfit
  have hbytes : dataType ≠ 8 ∧ dataType ≠ 9 ∧ dataType ≠ 19 := by omega
  unfold parseValue
  dsimp only
  rw [hword, if_neg hbytes.1, if_neg hbytes.2.1, if_neg hbytes.2.2, if_pos hkind, satAdd_eq (by omega), satAdd_eq (by omega)]
  by_cases hcountCut : off + 8 ≤ n
  · rw [beU32_take_of_le (by omega), hcount, if_neg (by omega), satAdd_eq (by omega), slice?_take]
    by_cases hcut : off + 8 + b.length ≤ n
    · rw [if_pos hcut, if_pos hcut, hvalue]
      rfl
    · rw [if_neg hcut, if_neg hcut]
      rfl
  · -- the count is cut as well, and the empty range is behind the cut
    rw [beU32_take_of_lt (by omega), UInt32.toNat_zero, if_neg (by omega), satAdd_eq (by omega), slice?_take, if_neg (by omega),
      if_neg (by omega)]
    rfl

/-- What is read of a value before the cut, or cut, behind its type: it fails, or is what it decodes to, or, where it is exposed, another value of
its type. -/
inductive ValueCut (v : XdrLeaf) (off n : Nat) : Except ZfsError (Option NvValue) → Prop
  | fails (e : ZfsError) (hexp : ¬ v.ExposedAt off n) : ValueCut v off n (.error e)
  | kept (hexp : ¬ v.ExposedAt off n) : ValueCut v off n (.ok v.value)
  | changed {w u : NvValue} (hw : v.value = some w) (hne : u ≠ w) (hlist : ∀ l, u ≠ .nvList l) (hexp : v.ExposedAt off n) :
      ValueCut v off n (.ok (some u))

section Value

variable {data : Bytes} {off n : Nat} (nested : Nat → Except ZfsError (NvList × Nat)) (htype : off + 4 ≤ n)
include htype

/-- The type of a value is read where it lies before the cut. -/
theorem dataType_take {v : XdrLeaf} (h : Part data off (xdrWord v.dataType ++ xdrWord v.nelem ++ v.encode)) :
    (beU32 (data.take n) off).toNat = v.dataType := by
  rw [beU32_take_of_le htype]
  refine beU32_of_part h.left.left ?_
  cases v with
  | other dataType nelem raw => exact dataType.toNat_lt
  | _ => simp [XdrLeaf.dataType]

/-- A word is read before the cut, and is zero behind it. -/
theorem parseValue_u64_cut {w : UInt64}
    (h : Part data off (xdrWord (XdrLeaf.u64 w).dataType ++ xdrWord (XdrLeaf.u64 w).nelem ++ (XdrLeaf.u64 w).encode))
    (hfit : off + 16 < 2 ^ 64) : ValueCut (.u64 w) off n (parseValue (data.take n) nested off) := by
  have hvalue := h.right
  rw [List.length_append, length_encode, length_encode] at hvalue
  unfold parseValue
  dsimp only
  rw [dataType_take htype h, satAdd_eq (by omega), satAdd_eq (by omega), XdrLeaf.dataType, if_pos rfl]
  by_cases hcut : off + 16 ≤ n
  · have hread : beU64 (data.take n) (off + 8) = w := by
      refine beU64_of_part (hvalue.take ?_)
      rw [XdrLeaf.encode, length_encode]
      exact hcut
    rw [hread]
    refine .kept ?_
    rintro ⟨-, -, hlt⟩
    simp only [XdrLeaf.exposed] at hlt
    split at hlt <;> omega
  · have hread : beU64 (data.take n) (off + 8) = 0 := by
      rw [beU64, readUint_take, if_neg (by omega)]
      rfl
    rw [hread]
    by_cases hzero : w = 0
    · rw [hzero]
      refine .kept ?_
      rintro ⟨hpos, -, -⟩
      exact absurd hpos (by simp [XdrLeaf.exposed])
    · refine .changed rfl (fun heq => hzero (NvValue.u64.inj heq).symm) (fun l heq => absurd heq (by simp)) ?_
      rw [XdrLeaf.ExposedAt, XdrLeaf.exposed, if_neg hzero]
      omega

/-- A string is read before the cut, and fails behind it. -/
theorem parseValue_str_cut {s : Bytes} (hutf : IsUtf8 s) (hlen : s.length ≤ maxStringLen)
    (h : Part data off (xdrWord (XdrLeaf.str s).dataType ++ xdrWord (XdrLeaf.str s).nelem ++ (XdrLeaf.str s).encode))
    (hfit : off + 8 + (XdrLeaf.str s).encode.length < 2 ^ 64) : ValueCut (.str s) off n (parseValue (data.take n) nested off) := by
  have hvalue := h.right
  rw [List.length_append, length_encode, length_encode] at hvalue
  have hexposed : ¬ (XdrLeaf.str s).ExposedAt off n := fun h => absurd h.1 (by simp [XdrLeaf.exposed])
  unfold parseValue
  dsimp only
  rw [dataType_take htype h, satAdd_eq (by omega), satAdd_eq (by omega), XdrLeaf.dataType, if_neg (by omega), if_pos rfl]
  by_cases hcut : off + 8 + 4 + s.length ≤ n
  · rw [readXdrString_take _ hvalue hlen (by decide) hfit hcut, (fromUtf8Lossy_eq_self_iff s).2 hutf]
    exact .kept hexposed
  · obtain ⟨e, he⟩ := readXdrString_cut "nvpair string" hvalue hlen (by decide) hfit (Nat.lt_of_not_le hcut)
    rw [he]
    exact .fails e hexposed

/-- A byte string is read before the cut, and is empty behind it: of both types of byte strings. -/
theorem valueCut_bytes {v : XdrLeaf} {b : Bytes} (hkind : v.dataType = 10 ∨ v.dataType = 26) (hb : b.length ≤ maxStringLen)
    (h : Part data off (xdrWord v.dataType ++ xdrWord b.length ++ xdrPad b)) (hfit : off + 8 + (xdrPad b).length < 2 ^ 64)
    (hval : v.value = some (.bytes b)) (hexp : v.exposed = b.length) : ValueCut v off n (parseValue (data.take n) nested off) := by
  rw [parseValue_bytes_cut nested hkind hb h hfit htype]
  by_cases hcut : off + 8 + b.length ≤ n
  · rw [if_pos hcut, ← hval]
    refine .kept ?_
    rw [XdrLeaf.ExposedAt, hexp]
    omega
  · rw [if_neg hcut]
    cases b with
    | nil =>
      rw [← hval]
      refine .kept fun h => ?_
      rw [XdrLeaf.ExposedAt, hexp] at h
      exact absurd h.1 (Nat.lt_irrefl 0)
    | cons x b =>
      refine .changed hval (fun heq => absurd (NvValue.bytes.inj heq) (by simp)) (fun l heq => absurd heq (by simp)) ?_
      rw [XdrLeaf.ExposedAt, hexp]
      exact ⟨Nat.zero_lt_succ _, htype, Nat.lt_of_not_le hcut⟩

/-- A value of another type is passed over, cut or not. -/
theorem parseValue_other_cut {dataType nelem : UInt32} {raw : Bytes} (hv : (XdrLeaf.other dataType nelem raw).Stored)
    (h : Part data off (xdrWord (XdrLeaf.other dataType nelem raw).dataType ++ xdrWord (XdrLeaf.other dataType nelem raw).nelem ++
      (XdrLeaf.other dataType nelem raw).encode)) : ValueCut (.other dataType nelem raw) off n (parseValue (data.take n) nested off) := by
  simp only [XdrLeaf.Stored, List.mem_cons, not_or] at hv
  obtain ⟨h8, h9, h10, h19, h26, -⟩ := hv
  unfold parseValue
  dsimp only
  rw [dataType_take htype h, XdrLeaf.dataType, if_neg h8, if_neg h9, if_neg h19, if_neg (by omega)]
  exact .kept fun h => absurd h.1 (by simp [XdrLeaf.exposed])

/-- Every value, by its type. -/
theorem parseValue_cut {v : XdrLeaf} (hv : v.Stored) (h : Part data off (xdrWord v.dataType ++ xdrWord v.nelem ++ v.encode))
    (hfit : off + 8 + v.encode.length < 2 ^ 64) : ValueCut v off n (parseValue (data.take n) nested off) := by
  cases v with
  | u64 w =>
    rw [XdrLeaf.encode, length_encode] at hfit
    exact parseValue_u64_cut nested htype h hfit
  | str s => exact parseValue_str_cut nested htype hv.1 hv.2 h hfit
  | byteArray b => exact valueCut_bytes nested htype (Or.inl rfl) hv h hfit rfl rfl
  | uint8Array b => exact valueCut_bytes nested htype (Or.inr rfl) hv h hfit rfl rfl
  | other dataType nelem raw => exact parseValue_other_cut nested htype hv h

end Value

/-! ## The walk up to the cut -/

/-- A walk at the end of the data ends there. -/
theorem parsePairs_of_end {data : Bytes} {off : Nat} (h : data.length < off + 4) (nested : Nat → Except ZfsError (NvList × Nat))
    (n : Nat) (list : NvList) : parsePairs data nested (n + 1) off list = .ok (list, satAdd off 8) := by
  refine parsePairs_of_terminator ?_ nested n list
  rw [beU32, readUint, slice?_eq_none_of_lt h]
  rfl

/-- One step of the walk, when it has another to go: whether it stops at the end of the data or reads the end there is the same. -/
theorem fst_parsePairs_step {data name : Bytes} {nested : Nat → Except ZfsError (NvList × Nat)} {off afterName n : Nat} {list : NvList}
    {v : Option NvValue} (hsize : beU32 data off ≠ 0) (hneg : isNegative (beU32 data off) = false)
    (hname : readXdrString data (satAdd off 8) "nvpair name" maxNameLen = .ok (name, afterName))
    (hvalue : parseValue data nested afterName = .ok v) :
    (parsePairs data nested (n + 2) off list).map Prod.fst =
      (parsePairs data nested (n + 1) (satAdd off (beU32 data off).toNat) (list ++ (v.map fun v => (name, v)).toList)).map Prod.fst := by
  rw [parsePairs]
  dsimp only
  rw [if_neg hsize, hneg, if_neg Bool.false_ne_true, hname]
  dsimp only
  rw [hvalue]
  cases v with
  | none => simp only [Option.map_none, Option.toList_none, List.append_nil]
  | some v =>
    dsimp only [Option.map_some, Option.toList_some]
    split
    · rw [parsePairs_of_end (by omega)]
      rfl
    · rfl

section Pair

variable {data name value : Bytes} {decodedSize : UInt32} {off dataType nelem n : Nat}
  (h : Part data off (xdrPair name decodedSize dataType nelem value)) (hname : name.length ≤ maxNameLen)
  (hsize : 8 + (xdrPairBody name dataType nelem value).length < 2 ^ 31)
  (hfit : off + (xdrPair name decodedSize dataType nelem value).length < 2 ^ 64)

include h hname hsize hfit

/-- The size and the name of a pair, as far as the cut leaves them. -/
theorem pair_head_take (hcut : off + 12 + name.length ≤ n) :
    beU32 (data.take n) off ≠ 0 ∧ isNegative (beU32 (data.take n) off) = false ∧
      satAdd off (beU32 (data.take n) off).toNat = off + (xdrPair name decodedSize dataType nelem value).length ∧
      readXdrString (data.take n) (satAdd off 8) "nvpair name" maxNameLen = .ok (fromUtf8Lossy name, off + 8 + (xdrString name).length) := by
  have hcap : maxNameLen = 4096 := rfl
  have hlen : (xdrPair name decodedSize dataType nelem value).length = 8 + (xdrPairBody name dataType nelem value).length := by
    simp only [xdrPair, List.length_append, length_encode]
  have hpart := h.right.left.left.left
  rw [List.length_append, length_encode, length_encode] at hpart
  have hbody : (xdrString name).length ≤ (xdrPairBody name dataType nelem value).length := by
    simp only [xdrPairBody, List.length_append]
    omega
  have hword : (beU32 data off).toNat = 8 + (xdrPairBody name dataType nelem value).length := beU32_of_part h.left.left (by omega)
  rw [beU32_take_of_le (by omega), hword, satAdd_eq (by omega), satAdd_eq (by omega), hlen]
  refine ⟨?_, isNegative_eq_false (by omega), rfl, readXdrString_take _ hpart hname (by omega) (by omega) (by omega)⟩
  intro h0
  rw [h0, UInt32.toNat_zero] at hword
  omega

/-- A whole pair before the cut: the walk goes on behind it. -/
theorem fst_parsePairs_of_pair {nested : Nat → Except ZfsError (NvList × Nat)} {v : Option NvValue} (k : Nat) (list : NvList)
    (hcut : off + 12 + name.length ≤ n)
    (hvalue : parseValue (data.take n) nested (off + 8 + (xdrString name).length) = .ok v) :
    (parsePairs (data.take n) nested (k + 2) off list).map Prod.fst =
      (parsePairs (data.take n) nested (k + 1) (off + (xdrPair name decodedSize dataType nelem value).length)
        (list ++ (v.map fun v => (fromUtf8Lossy name, v)).toList)).map Prod.fst := by
  obtain ⟨hzero, hneg, hnext, hread⟩ := pair_head_take h hname hsize hfit hcut
  rw [fst_parsePairs_step hzero hneg hread hvalue, hnext]

/-- A pair cut behind its name: the walk ends with its value. -/
theorem fst_parsePairs_of_cut {nested : Nat → Except ZfsError (NvList × Nat)} {v : Option NvValue} (k : Nat) (list : NvList)
    (hcut : off + 12 + name.length ≤ n) (hend : n < off + (xdrPair name decodedSize dataType nelem value).length)
    (hvalue : parseValue (data.take n) nested (off + 8 + (xdrString name).length) = .ok v) :
    (parsePairs (data.take n) nested (k + 2) off list).map Prod.fst =
      .ok (list ++ (v.map fun v => (fromUtf8Lossy name, v)).toList) := by
  rw [fst_parsePairs_of_pair h hname hsize hfit k list hcut hvalue, parsePairs_of_end (by rw [List.length_take]; omega)]
  rfl

/-- A pair whose value fails: the walk fails. -/
theorem parsePairs_of_value_error {nested : Nat → Except ZfsError (NvList × Nat)} {e : ZfsError} (k : Nat) (list : NvList)
    (hcut : off + 12 + name.length ≤ n)
    (hvalue : parseValue (data.take n) nested (off + 8 + (xdrString name).length) = .error e) :
    parsePairs (data.take n) nested (k + 1) off list = .error e := by
  obtain ⟨hzero, hneg, -, hread⟩ := pair_head_take h hname hsize hfit hcut
  rw [parsePairs]
  dsimp only
  rw [if_neg hzero, hneg, if_neg Bool.false_ne_true, hread]
  dsimp only
  rw [hvalue]

/-- A pair cut before its type is read: the walk fails in the name, or ends with the pairs before. -/
theorem fst_parsePairs_of_cut_head (nested : Nat → Except ZfsError (NvList × Nat)) (k : Nat) (list : NvList)
    (hcut : n < off + 12 + (xdrString name).length) :
    (∃ e, (parsePairs (data.take n) nested (k + 2) off list).map Prod.fst = .error e) ∨
      (parsePairs (data.take n) nested (k + 2) off list).map Prod.fst = .ok list := by
  have hcap : maxNameLen = 4096 := rfl
  have hpart := h.right.left.left.left
  rw [List.length_append, length_encode, length_encode] at hpart
  have hlen := length_xdrPair name value decodedSize dataType nelem
  by_cases hsz : n < off + 4
  · right
    rw [parsePairs_of_end (by rw [List.length_take]; omega)]
    rfl
  · by_cases hnm : n < off + 12 + name.length
    · left
      obtain ⟨e, he⟩ := readXdrString_cut "nvpair name" hpart hname (by omega) (by omega) (show n < off + (4 + 4) + 4 + name.length by omega)
      have hbody : (xdrPair name decodedSize dataType nelem value).length = 8 + (xdrPairBody name dataType nelem value).length := by
        simp only [xdrPair, List.length_append, length_encode]
      have hword : (beU32 data off).toNat = 8 + (xdrPairBody name dataType nelem value).length :=
        beU32_of_part h.left.left (by omega)
      have hzero : beU32 data off ≠ 0 := by
        intro h0
        rw [h0, UInt32.toNat_zero] at hword
        omega
      refine ⟨e, ?_⟩
      rw [parsePairs]
      dsimp only
      rw [beU32_take_of_le (by omega), if_neg hzero, isNegative_eq_false (by omega), if_neg Bool.false_ne_true, satAdd_eq (by omega), he]
      rfl
    · right
      have hnone : parseValue (data.take n) nested (off + 8 + (xdrString name).length) = .ok none := by
        unfold parseValue
        dsimp only
        rw [beU32_take_of_lt (by omega), UInt32.toNat_zero, if_neg (by omega), if_neg (by omega), if_neg (by omega), if_neg (by omega)]
      rw [fst_parsePairs_of_cut h hname hsize hfit k list (by omega) (by omega) hnone]
      simp

end Pair

/-- What a walk over a list cut at `n` gives behind the pairs of `list`: an error, where nothing is exposed, or pairs that are a
truncation exactly where nothing is. -/
def ReadCut (l : XdrList) (off n : Nat) (list : NvList) (r : Except ZfsError NvList) : Prop :=
  ((∃ e, r = .error e) ∧ ¬ l.Exposed off n) ∨ ∃ l', r = .ok (list ++ l') ∧ (IsTruncation l' l.tree ↔ ¬ l.Exposed off n)

/-- A walk that ends with the pairs before. -/
theorem readCut_of_end {l : XdrList} {off n : Nat} {list : NvList} {r : Except ZfsError NvList} (hexp : ¬ l.Exposed off n)
    (h : (∃ e, r = .error e) ∨ r = .ok list) : ReadCut l off n list r := by
  rcases h with h | h
  · exact Or.inl ⟨h, hexp⟩
  · exact Or.inr ⟨[], by rw [h, List.append_nil], iff_of_true (.nil _) hexp⟩

/-- A pair before the cut is kept, and the rest decides. -/
theorem ReadCut.of_rest {l rest : XdrList} {off next n : Nat} {list p : NvList} {r : Except ZfsError NvList}
    (h : ReadCut rest next n (list ++ p) r) (htree : l.tree = p ++ rest.tree) (hexp : l.Exposed off n ↔ rest.Exposed next n) :
    ReadCut l off n list r := by
  rcases h with ⟨herr, hrest⟩ | ⟨l', hok, hiff⟩
  · exact Or.inl ⟨herr, fun h => hrest (hexp.1 h)⟩
  · refine Or.inr ⟨p ++ l', by rw [hok, List.append_assoc], ?_⟩
    rw [htree, isTruncation_append_iff, hiff, hexp]

/-- The pairs a walk over the data gives, cut at `n`. -/
def cutPairs (data : Bytes) (left k off n : Nat) (list : NvList) : Except ZfsError NvList :=
  (parsePairs (data.take n) (parseBody (data.take n) left) k off list).map Prod.fst

/-- The name of a value that is decoded is kept as it is. -/
theorem leaf_name_kept {name : Bytes} {value : XdrLeaf} (hutf : value.value.isSome = true → IsUtf8 name) :
    (value.value.map fun v => (fromUtf8Lossy name, v)).toList = (value.value.map fun v => (name, v)).toList := by
  cases hv : value.value with
  | none => rfl
  | some v => rw [(fromUtf8Lossy_eq_self_iff name).2 (hutf (by rw [hv]; rfl))]

section Leaf

variable {data name : Bytes} {decodedSize : UInt32} {value : XdrLeaf} {rest : XdrList} {off n : Nat} (left k : Nat) (list : NvList)
  (hl : (XdrList.leaf name decodedSize value rest).Stored) (h : Part data off (XdrList.leaf name decodedSize value rest).encode)
  (hfit : off + (XdrList.leaf name decodedSize value rest).encode.length < 2 ^ 64)

include hl h hfit

/-- A value before the cut is kept, and the rest of the list decides. -/
theorem readCut_leaf_whole
    (hwhole : off + (xdrPair name decodedSize value.dataType value.nelem value.encode).length ≤ n)
    (hrest : ReadCut rest (off + (xdrPair name decodedSize value.dataType value.nelem value.encode).length) n
      (list ++ (value.value.map fun v => (name, v)).toList)
      (cutPairs data left (k + 1) (off + (xdrPair name decodedSize value.dataType value.nelem value.encode).length) n
        (list ++ (value.value.map fun v => (name, v)).toList))) :
    ReadCut (.leaf name decodedSize value rest) off n list (cutPairs data left (k + 2) off n list) := by
  obtain ⟨hname, hutf, hvalue, hsize, -⟩ := hl
  have hkept := leaf_name_kept hutf
  rw [XdrList.encode] at h hfit
  rw [List.length_append] at hfit
  have hlen := length_xdrPair name value.encode decodedSize value.dataType value.nelem
  have hxs := length_xdrString name
  have hle := value.exposed_le
  have hin := (Part.xdrPair_value h.left).take (n := n) (by
    simp only [List.length_append, length_encode]
    omega)
  have hread := parseValue_of_part (parseBody (data.take n) left) hvalue hin (by omega)
  rw [cutPairs, fst_parsePairs_of_pair h.left hname hsize (by omega) k list (by omega) hread, hkept]
  refine hrest.of_rest rfl ⟨?_, Or.inr⟩
  rintro (⟨-, -, hlt⟩ | hexp)
  · omega
  · exact hexp

/-- A pair that is cut ends the walk, with what is read of its value. -/
theorem readCut_leaf_cut (hcut : n < off + (xdrPair name decodedSize value.dataType value.nelem value.encode).length) :
    ReadCut (.leaf name decodedSize value rest) off n list (cutPairs data left (k + 2) off n list) := by
  obtain ⟨hname, hutf, hvalue, hsize, -⟩ := hl
  have hkept := leaf_name_kept hutf
  rw [XdrList.encode] at h hfit
  rw [List.length_append] at hfit
  have hlen := length_xdrPair name value.encode decodedSize value.dataType value.nelem
  have hxs := length_xdrString name
  have hpart := Part.xdrPair_value h.left
  have hnotrest : ¬ rest.Exposed (off + (xdrPair name decodedSize value.dataType value.nelem value.encode).length) n := by
    intro hexp
    have := hexp.bounds
    omega
  have hiff : (XdrList.leaf name decodedSize value rest).Exposed off n ↔ value.ExposedAt (off + 8 + (xdrString name).length) n :=
    or_iff_left hnotrest
  by_cases hhead : n < off + 12 + (xdrString name).length
  · refine readCut_of_end ?_ (fst_parsePairs_of_cut_head h.left hname hsize (by omega) _ k list hhead)
    rw [hiff]
    rintro ⟨-, hlo, -⟩
    omega
  · have hvaluecut := parseValue_cut (n := n) (parseBody (data.take n) left) (by omega) hvalue hpart (by omega)
    generalize hresult : parseValue (data.take n) (parseBody (data.take n) left) (off + 8 + (xdrString name).length) = result at hvaluecut
    rw [cutPairs]
    cases hvaluecut with
    | fails e hexp =>
      rw [parsePairs_of_value_error h.left hname hsize (by omega) (k + 1) list (by omega) hresult]
      exact Or.inl ⟨⟨e, rfl⟩, fun h => hexp (hiff.1 h)⟩
    | kept hexp =>
      rw [fst_parsePairs_of_cut h.left hname hsize (by omega) k list (by omega) (by omega) hresult, hkept]
      refine Or.inr ⟨_, rfl, iff_of_true ?_ (fun h => hexp (hiff.1 h))⟩
      rw [XdrList.tree]
      nth_rewrite 1 [← List.append_nil (value.value.map fun v => (name, v)).toList]
      rw [isTruncation_append_iff]
      exact .nil _
    | changed hw hne hlist hexp =>
      rw [fst_parsePairs_of_cut h.left hname hsize (by omega) k list (by omega) (by omega) hresult]
      refine Or.inr ⟨_, rfl, iff_of_false ?_ (fun h => h (hiff.2 hexp))⟩
      rw [XdrList.tree, hw, (fromUtf8Lossy_eq_self_iff name).2 (hutf (by rw [hw]; rfl))]
      exact not_isTruncation_of_ne hne hlist

end Leaf

/-- Where a nested list lies in its pair, which it ends. -/
theorem part_nested_inner {data name : Bytes} {decodedSize version flags : UInt32} {inner rest : XdrList} {off : Nat}
    (h : Part data off (XdrList.nested name decodedSize version flags inner rest).encode) :
    Part data (off + 24 + (xdrString name).length) inner.encode ∧
      (xdrPair name decodedSize 19 1 (xdrWord version.toNat ++ xdrWord flags.toNat ++ inner.encode)).length =
        24 + (xdrString name).length + inner.encode.length := by
  rw [XdrList.encode] at h
  have hlen := length_xdrPair name (xdrWord version.toNat ++ xdrWord flags.toNat ++ inner.encode) decodedSize 19 1
  have hbody := (Part.xdrPair_value h.left).right.right
  simp only [List.length_append, length_encode] at hlen hbody
  have hoff : off + 8 + (xdrString name).length + (4 + 4) + (4 + 4) = off + 24 + (xdrString name).length := by omega
  rw [hoff] at hbody
  exact ⟨hbody, by rw [hlen]; omega⟩

/-- A nested list whose type is read is walked up to the same cut. -/
theorem parseValue_nested_take {data : Bytes} {off n : Nat} (left : Nat) (htype : (beU32 (data.take n) off).toNat = 19)
    (hfit : off + 16 < 2 ^ 64) : parseValue (data.take n) (parseBody (data.take n) (left + 1)) off =
      (cutPairs data left maxPairs (off + 16) n []).map (fun l => some (.nvList l)) := by
  unfold parseValue cutPairs
  dsimp only
  rw [htype, if_neg (by omega), if_neg (by omega), if_pos rfl, satAdd_eq (by omega), parseBody_eq _ _ (by omega)]
  cases parsePairs (data.take n) (parseBody (data.take n) left) maxPairs (off + 16) [] with
  | error e => rfl
  | ok r => rfl

section Nested

variable {data name : Bytes} {decodedSize version flags : UInt32} {inner rest : XdrList} {off n : Nat} (left k : Nat) (list : NvList)
  (hl : (XdrList.nested name decodedSize version flags inner rest).Stored)
  (h : Part data off (XdrList.nested name decodedSize version flags inner rest).encode)
  (hfit : off + (XdrList.nested name decodedSize version flags inner rest).encode.length < 2 ^ 64)

include hl h hfit

/-- A nested list before the cut is kept, and the rest of the list decides. -/
theorem readCut_nested_whole (hdepth : inner.depth ≤ left)
    (hwhole : off + (xdrPair name decodedSize 19 1 (xdrWord version.toNat ++ xdrWord flags.toNat ++ inner.encode)).length ≤ n)
    (hrest : ReadCut rest (off + (xdrPair name decodedSize 19 1 (xdrWord version.toNat ++ xdrWord flags.toNat ++ inner.encode)).length) n
      (list ++ [(name, .nvList inner.tree)])
      (cutPairs data (left + 1) (k + 1)
        (off + (xdrPair name decodedSize 19 1 (xdrWord version.toNat ++ xdrWord flags.toNat ++ inner.encode)).length) n
        (list ++ [(name, .nvList inner.tree)]))) :
    ReadCut (.nested name decodedSize version flags inner rest) off n list (cutPairs data (left + 1) (k + 2) off n list) := by
  obtain ⟨hname, hutf, hinner, hpairs, hsize, -⟩ := hl
  obtain ⟨hbody, hlen⟩ := part_nested_inner h
  rw [XdrList.encode] at h hfit
  rw [List.length_append] at hfit
  have hxs := length_xdrString name
  have hself := (fromUtf8Lossy_eq_self_iff name).2 hutf
  have hpart := Part.xdrPair_value h.left
  have hin := hpart.take (n := n) (by
    simp only [List.length_append, length_encode]
    omega)
  have hread : parseBody (data.take n) (left + 1) (off + 8 + (xdrString name).length + 8) =
      .ok (inner.tree, off + 24 + (xdrString name).length + inner.encode.length) := by
    have hoff : off + 8 + (xdrString name).length + 8 + 8 = off + 24 + (xdrString name).length := by omega
    rw [parseBody_eq _ _ (by omega), hoff]
    exact parsePairs_of_list inner left maxPairs _ [] hinner hdepth hpairs (hbody.take (by omega)) (by omega)
  rw [cutPairs, fst_parsePairs_of_pair h.left hname hsize (by omega) k list (by omega) (parseValue_nested_of_part hin (by omega) hread)]
  rw [hself]
  refine hrest.of_rest ?_ ⟨?_, Or.inr⟩
  · rw [XdrList.tree]
    rfl
  · rintro (hexp | hexp)
    · have := hexp.bounds
      omega
    · exact hexp

/-- A nested list that is cut ends the walk, with what is read of it. -/
theorem readCut_nested_cut
    (hcut : n < off + (xdrPair name decodedSize 19 1 (xdrWord version.toNat ++ xdrWord flags.toNat ++ inner.encode)).length)
    (hwalk : ReadCut inner (off + 24 + (xdrString name).length) n [] (cutPairs data left maxPairs (off + 24 + (xdrString name).length) n [])) :
    ReadCut (.nested name decodedSize version flags inner rest) off n list (cutPairs data (left + 1) (k + 2) off n list) := by
  obtain ⟨hname, hutf, -, -, hsize, -⟩ := hl
  obtain ⟨-, hlen⟩ := part_nested_inner h
  rw [XdrList.encode] at h hfit
  rw [List.length_append] at hfit
  have hxs := length_xdrString name
  have hself := (fromUtf8Lossy_eq_self_iff name).2 hutf
  have hpart := Part.xdrPair_value h.left
  have hnotrest : ¬ rest.Exposed
      (off + (xdrPair name decodedSize 19 1 (xdrWord version.toNat ++ xdrWord flags.toNat ++ inner.encode)).length) n := by
    intro hexp
    have := hexp.bounds
    omega
  have hiff : (XdrList.nested name decodedSize version flags inner rest).Exposed off n ↔
      inner.Exposed (off + 24 + (xdrString name).length) n := or_iff_left hnotrest
  by_cases hhead : n < off + 12 + (xdrString name).length
  · refine readCut_of_end ?_ (fst_parsePairs_of_cut_head h.left hname hsize (by omega) _ k list hhead)
    rw [hiff]
    intro hexp
    have := hexp.bounds
    omega
  · have hword : (beU32 (data.take n) (off + 8 + (xdrString name).length)).toNat = 19 := by
      rw [beU32_take_of_le (by omega)]
      exact beU32_of_part hpart.left.left (by omega)
    have hoff : off + 8 + (xdrString name).length + 16 = off + 24 + (xdrString name).length := by omega
    have hvalue := parseValue_nested_take left hword (by omega)
    rw [hoff] at hvalue
    rw [cutPairs]
    rcases hwalk with ⟨⟨e, he⟩, hexp⟩ | ⟨l', hok, htrunc⟩
    · rw [he] at hvalue
      rw [parsePairs_of_value_error h.left hname hsize (by omega) (k + 1) list (by omega) hvalue]
      exact Or.inl ⟨⟨e, rfl⟩, fun h => hexp (hiff.1 h)⟩
    · rw [hok, List.nil_append] at hvalue
      rw [fst_parsePairs_of_cut h.left hname hsize (by omega) k list (by omega) (by omega) hvalue, hself]
      refine Or.inr ⟨_, rfl, ?_⟩
      rw [hiff, ← htrunc]
      exact isTruncation_last_iff _ _ _ _

end Nested

/-- The end of a list is where its pairs end, cut or not. -/
theorem readCut_nil {data : Bytes} {off n : Nat} (left k : Nat) (list : NvList) (h : Part data off XdrList.nil.encode) :
    ReadCut .nil off n list (cutPairs data left (k + 1) off n list) := by
  have hzero : beU32 (data.take n) off = 0 := by
    by_cases hword : off + 4 ≤ n
    · rw [beU32_take_of_le hword]
      refine UInt32.toNat_inj.1 ?_
      rw [UInt32.toNat_zero]
      exact beU32_of_part (Part.left (t := zeros 4) h) (by omega)
    · exact beU32_take_of_lt (by omega)
  rw [cutPairs, parsePairs_of_terminator hzero]
  exact readCut_of_end id (Or.inr rfl)

/-- The walk over a list cut short: by the pairs of the list, each before the cut or cut itself. -/
theorem parsePairs_cut {data : Bytes} (l : XdrList) (left k off n : Nat) (list : NvList) (hl : l.Stored) (hdepth : l.depth ≤ left)
    (hcount : l.count < k) (h : Part data off l.encode) (hfit : off + l.encode.length < 2 ^ 64) (hcut : n < off + l.encode.length) :
    ReadCut l off n list (cutPairs data left k off n list) := by
  induction l generalizing left k off list with
  | nil =>
    obtain ⟨k, rfl⟩ := Nat.exists_eq_succ_of_ne_zero (Nat.pos_iff_ne_zero.1 (Nat.zero_lt_of_lt hcount))
    exact readCut_nil left k list h
  | leaf name decodedSize value rest ih =>
    rw [XdrList.count] at hcount
    obtain ⟨k, rfl⟩ : ∃ k', k = k' + 2 := ⟨k - 2, by omega⟩
    by_cases hwhole : off + (xdrPair name decodedSize value.dataType value.nelem value.encode).length ≤ n
    · refine readCut_leaf_whole left k list hl h hfit hwhole ?_
      rw [XdrList.encode] at h hfit hcut
      rw [List.length_append] at hfit hcut
      exact ih left (k + 1) _ _ hl.2.2.2.2 hdepth (by omega) h.right (by omega) (by omega)
    · exact readCut_leaf_cut left k list hl h hfit (Nat.lt_of_not_le hwhole)
  | nested name decodedSize version flags inner rest ihi ih =>
    rw [XdrList.depth] at hdepth
    rw [XdrList.count] at hcount
    obtain ⟨k, rfl⟩ : ∃ k', k = k' + 2 := ⟨k - 2, by omega⟩
    obtain ⟨left, rfl⟩ := Nat.exists_eq_succ_of_ne_zero (Nat.pos_iff_ne_zero.1 (show 0 < left by omega))
    by_cases hwhole : off + (xdrPair name decodedSize 19 1 (xdrWord version.toNat ++ xdrWord flags.toNat ++ inner.encode)).length ≤ n
    · refine readCut_nested_whole left k list hl h hfit (by omega) hwhole ?_
      rw [XdrList.encode] at h hfit hcut
      rw [List.length_append] at hfit hcut
      exact ih (left + 1) (k + 1) _ _ hl.2.2.2.2.2 (by omega) (by omega) h.right (by omega) (by omega)
    · refine readCut_nested_cut left k list hl h hfit (Nat.lt_of_not_le hwhole) ?_
      obtain ⟨hinner, hlen⟩ := part_nested_inner h
      rw [XdrList.encode, List.length_append] at hfit
      exact ihi left maxPairs _ [] hl.2.2.1 (by omega) hl.2.2.2.1 hinner (by omega) (by omega)

/-- A packed list cut short parses to an error or to a truncation of its tree. -/
def CutIsHarmless (packed : Bytes) (l : XdrList) (n : Nat) : Prop :=
  ∀ l', nvlistParse (packed.take n) = .ok l' → IsTruncation l' l.tree

/-- A cut behind the header is harmless exactly where it is in no exposed value. -/
theorem cutIsHarmless_iff (endian reserved0 reserved1 : UInt8) (version flags : UInt32) (l : XdrList) (hl : l.Stored)
    (hcount : l.count < maxPairs) (hdepth : l.depth ≤ maxDepth) {n : Nat} (hn : 4 ≤ n)
    (hcut : n < (l.pack endian reserved0 reserved1 version flags).length) :
    CutIsHarmless (l.pack endian reserved0 reserved1 version flags) l n ↔ ¬ l.Exposed 12 n := by
  have hmax : maxPairs = 4096 := rfl
  have hlen := l.length_le hl
  have hpack : (l.pack endian reserved0 reserved1 version flags).length = 12 + l.encode.length := by
    simp only [XdrList.pack, List.length_append, length_encode, List.length_cons, List.length_nil]
    omega
  have hpart : Part (l.pack endian reserved0 reserved1 version flags) 12 l.encode := by
    have hbody := part_middle [nvEncodeXdr, endian, reserved0, reserved1] (xdrWord version.toNat ++ xdrWord flags.toNat ++ l.encode) []
    rw [List.append_nil] at hbody
    have hlist := hbody.right
    rwa [List.length_append, length_encode, length_encode] at hlist
  have hwalk := parsePairs_cut l maxDepth maxPairs 12 n [] hl hdepth hcount hpart (by omega) (by omega)
  have hparse : nvlistParse ((l.pack endian reserved0 reserved1 version flags).take n) =
      cutPairs (l.pack endian reserved0 reserved1 version flags) maxDepth maxPairs 12 n [] := by
    have hhead : u8At ((l.pack endian reserved0 reserved1 version flags).take n) 0 = nvEncodeXdr := by
      rw [u8At, List.getElem?_take_of_lt (by omega)]
      rfl
    unfold nvlistParse cutPairs
    dsimp only
    rw [if_neg (fun hne => hne hhead), if_neg (by rw [List.length_take]; omega), parseBody_eq _ _ (by omega)]
  rw [CutIsHarmless, hparse]
  rcases hwalk with ⟨⟨e, he⟩, hexp⟩ | ⟨l', hok, hiff⟩
  · rw [he]
    exact iff_of_true (fun l' h => absurd h (by simp)) hexp
  · rw [hok, ← hiff]
    constructor
    · intro h
      exact h l' rfl
    · intro h l'' heq
      rw [List.nil_append, Except.ok.injEq] at heq
      rwa [← heq]

/-- A configuration of a word and a byte string. -/
def shortConfig : XdrList :=
  .leaf (ascii "guid") 32 (.u64 7) (.leaf (ascii "acl") 32 (.byteArray [1, 2, 3]) .nil)

theorem shortConfig_stored : shortConfig.Stored := by
  have hguid : IsUtf8 (ascii "guid") := (fromUtf8Lossy_eq_self_iff _).1 (by decide)
  have hacl : IsUtf8 (ascii "acl") := (fromUtf8Lossy_eq_self_iff _).1 (by decide)
  have hbytes : (XdrLeaf.byteArray [1, 2, 3]).Stored := by
    rw [XdrLeaf.Stored]
    decide
  exact ⟨by decide, fun _ => hguid, trivial, by decide, by decide, fun _ => hacl, hbytes, by decide, trivial⟩

/-- Cut in the name of its second pair, it is harmless. -/
theorem cutIsHarmless_shortConfig :
    shortConfig.count < maxPairs ∧ shortConfig.depth ≤ maxDepth ∧ 56 < (shortConfig.pack 1 0 0 0 1).length ∧
      (CutIsHarmless (shortConfig.pack 1 0 0 0 1) shortConfig 56 ↔ ¬ shortConfig.Exposed 12 56) :=
  ⟨by decide, by decide, by decide, cutIsHarmless_iff 1 0 0 0 1 shortConfig shortConfig_stored (by decide) (by decide) (by decide) (by decide)⟩

/-- Cut in the word, or in the byte string, it has a zero, or an empty byte string, in its place. -/
theorem shortConfig_forged :
    nvlistParse ((shortConfig.pack 1 0 0 0 1).take 40) = .ok [(ascii "guid", .u64 0)] ∧
      nvlistParse ((shortConfig.pack 1 0 0 0 1).take 70) = .ok [(ascii "guid", .u64 7), (ascii "acl", .bytes [])] ∧
      ¬ CutIsHarmless (shortConfig.pack 1 0 0 0 1) shortConfig 40 ∧ ¬ CutIsHarmless (shortConfig.pack 1 0 0 0 1) shortConfig 70 := by
  have hword : nvlistParse ((shortConfig.pack 1 0 0 0 1).take 40) = .ok [(ascii "guid", .u64 0)] := rfl
  have hbytes : nvlistParse ((shortConfig.pack 1 0 0 0 1).take 70) = .ok [(ascii "guid", .u64 7), (ascii "acl", .bytes [])] := rfl
  refine ⟨hword, hbytes, fun h => ?_, fun h => ?_⟩
  · have htrunc := h _ hword
    refine not_isTruncation_of_ne ?_ ?_ htrunc
    · intro heq
      exact absurd (NvValue.u64.inj heq) (by decide)
    · intro l heq
      exact absurd heq (by simp)
  · have htrunc := (isTruncation_cons_iff _ _ _).1 (h _ hbytes)
    refine not_isTruncation_of_ne ?_ ?_ htrunc
    · intro heq
      exact absurd (NvValue.bytes.inj heq) (by decide)
    · intro l heq
      exact absurd heq (by simp)

end ZfsForensic
