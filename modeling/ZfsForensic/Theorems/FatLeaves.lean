import ZfsForensic.Lemmas.Leaves

/-!
# The leaves of a fat-ZAP are listed

A fat-ZAP is a header block and blocks of the same size, some of them leaves. A leaf keeps its entries in chunks behind its hash table,
in any order and placement. Where the block behind the header is a leaf the listing is every entry of every leaf; where it is another
block and a leaf follows, the size of the blocks is not found.
-/

namespace ZfsForensic

open Octets Checked

/-! ## A leaf -/

/-- Where the chunks of a leaf of size `2 ^ k` begin: behind the header and a hash table of `2 ^ (k - 5)` links of two bytes. -/
def leafChunkArea (k : Nat) : Nat := 48 + 2 * 2 ^ (k - 5)

/-- The number of chunks of a leaf of size `2 ^ k`. -/
def leafChunkCount (k : Nat) : Nat := (2 ^ k - leafChunkArea k) / 24

/-- Where a chunk of a leaf begins. -/
def leafChunkOffset (k chunk : Nat) : Nat := leafChunkArea k + chunk * 24

/-- An entry of a leaf: its chunk, its name without the closing NUL, the bytes of its value, and the chunks both lie on. -/
structure LeafEntry where
  chunk : Nat
  name : Bytes
  value : Bytes
  nameChunks : List Nat
  valueChunks : List Nat

/-- What the listing makes of an entry. -/
def LeafEntry.listed (e : LeafEntry) : Bytes × UInt64 := (e.name, foldValue e.value)

/-- A leaf of size `2 ^ k` stores an entry: its chunk tells the lengths and the first links, and its name and its value lie on chains of
array chunks. -/
structure LeafEntry.StoredIn (e : LeafEntry) (k : Nat) (leaf : Bytes) : Prop where
  name_ne : e.name ≠ []
  name_utf8 : IsUtf8 e.name
  name_length : (leU16 leaf (leafChunkOffset k e.chunk + 6)).toNat = e.name.length + 1
  value_length : (u8At leaf (leafChunkOffset k e.chunk + 1)).toNat * (leU16 leaf (leafChunkOffset k e.chunk + 10)).toNat =
    e.value.length
  name_chain : ArrayChain leaf (leafChunkArea k) (leafChunkCount k) (leU16 leaf (leafChunkOffset k e.chunk + 4)) (e.name ++ [0])
    e.nameChunks
  value_chain : ArrayChain leaf (leafChunkArea k) (leafChunkCount k) (leU16 leaf (leafChunkOffset k e.chunk + 8)) e.value
    e.valueChunks

/-- A leaf of size `2 ^ k` with these entries, in the order of their chunks; no chunk is on two chains or twice on one. -/
structure WellFormedLeaf (k : Nat) (leaf : Bytes) (entries : List LeafEntry) : Prop where
  length : leaf.length = 2 ^ k
  signature : leafAt leaf 0 = true
  chunks : (List.range (leafChunkCount k)).filter (fun ci => u8At leaf (leafChunkOffset k ci) == zapChunkEntry) =
    entries.map LeafEntry.chunk
  stored : ∀ e ∈ entries, e.StoredIn k leaf
  disjoint : (entries.flatMap fun e => e.nameChunks ++ e.valueChunks).Nodup

/-- The header block of a fat-ZAP of block size `2 ^ k`, which shows no leaf where a size is probed. -/
structure FatHeader (k : Nat) (header : Bytes) : Prop where
  length : header.length = 2 ^ k
  signature : leU64 header 0 = zbtHeader
  no_leaf : ∀ j, 9 ≤ j → j < k → leafAt header (2 ^ j) = false

/-- The chunks fit behind the hash table, and are fewer than the end marker of a chain. -/
theorem leafChunkCount_lt {k : Nat} (hk : 9 ≤ k ∧ k ≤ 17) : leafChunkArea k < 2 ^ k ∧ leafChunkCount k < 0xffff := by
  obtain ⟨j, rfl⟩ : ∃ j, k = j + 5 := ⟨k - 5, by omega⟩
  have hlow : 2 ^ 4 ≤ 2 ^ j := Nat.pow_le_pow_right (by omega) (by omega)
  have hhigh : 2 ^ j ≤ 2 ^ 12 := Nat.pow_le_pow_right (by omega) (by omega)
  have hpow : 2 ^ (j + 5) = 32 * 2 ^ j := by rw [Nat.pow_add]; omega
  rw [leafChunkCount, leafChunkArea, Nat.add_sub_cancel, hpow]
  constructor
  · omega
  · omega

section Leaf

variable {k : Nat} {leaf : Bytes}

/-- The entry of a chunk is listed with its name and its value. -/
theorem fatLeafEntry_of_stored (hk : 9 ≤ k ∧ k ≤ 17) {e : LeafEntry} (h : e.StoredIn k leaf)
    (hentry : u8At leaf (leafChunkOffset k e.chunk) = zapChunkEntry) (hname : e.nameChunks.Nodup) (hvalue : e.valueChunks.Nodup) :
    fatLeafEntry foldValue leaf (leafChunkArea k) (leafChunkCount k) e.chunk = some e.listed := by
  have hcount : leafChunkCount k ≤ 0xffff := (leafChunkCount_lt hk).2.le
  have hco : leafChunkArea k + e.chunk * zapLeafChunksize = leafChunkOffset k e.chunk := rfl
  have hlen : (e.name ++ [(0 : UInt8)]).length = (leU16 leaf (leafChunkOffset k e.chunk + 6)).toNat := by
    rw [List.length_append, h.name_length]
    rfl
  have hnameBytes := arrayBytes_of_chain hcount h.name_chain hname
  have hvalueBytes := arrayBytes_of_chain hcount h.value_chain hvalue
  have hleName : leName (e.name ++ [0]) = e.name := by
    rw [leName, List.getLast?_append, List.getLast?_singleton, Option.some_or, if_pos rfl, List.dropLast_concat,
      (fromUtf8Lossy_eq_self_iff e.name).2 h.name_utf8]
  rw [hlen] at hnameBytes
  rw [fatLeafEntry, hco, if_neg (not_not.2 hentry), h.value_length, hnameBytes, hvalueBytes, hleName]
  dsimp only
  rw [if_neg h.name_ne]
  rfl

/-- A well-formed leaf lists its entries, in the order of their chunks. -/
theorem leafEntries_of_wellFormed (hk : 9 ≤ k ∧ k ≤ 17) {entries : List LeafEntry} (h : WellFormedLeaf k leaf entries) :
    leafEntries foldValue leaf (2 ^ k) = entries.map LeafEntry.listed := by
  have harea : zapLeafHdrSize + 1 <<< (trailingZeros 64 (2 ^ k) - 5) * 2 = leafChunkArea k := by
    rw [trailingZeros_two_pow (by omega), Nat.shiftLeft_eq, Nat.one_mul, leafChunkArea, Nat.mul_comm]
    rfl
  have hcount : (leaf.length - leafChunkArea k) / zapLeafChunksize = leafChunkCount k := by
    rw [h.length]
    rfl
  have hskip : ∀ ci, ¬ (u8At leaf (leafChunkOffset k ci) == zapChunkEntry) = true →
      fatLeafEntry foldValue leaf (leafChunkArea k) (leafChunkCount k) ci = none := by
    intro ci hci
    have hother : u8At leaf (leafChunkArea k + ci * zapLeafChunksize) ≠ zapChunkEntry := fun heq => hci (beq_iff_eq.2 heq)
    rw [fatLeafEntry, if_pos hother]
  have hlisted : ∀ e ∈ entries,
      (fatLeafEntry foldValue leaf (leafChunkArea k) (leafChunkCount k) ∘ LeafEntry.chunk) e = some e.listed := by
    intro e he
    have hmem : e.chunk ∈ entries.map LeafEntry.chunk := List.mem_map_of_mem he
    rw [← h.chunks, List.mem_filter] at hmem
    have hnodup := (List.nodup_flatMap.1 h.disjoint).1 e he
    exact fatLeafEntry_of_stored hk (h.stored e he) (beq_iff_eq.1 hmem.2) hnodup.of_append_left hnodup.of_append_right
  have hin : ¬ leaf.length ≤ leafChunkArea k := by
    rw [h.length]
    have harea_lt := (leafChunkCount_lt hk).1
    omega
  rw [leafEntries, harea]
  dsimp only
  rw [if_neg hin, hcount]
  calc (List.range (leafChunkCount k)).filterMap (fatLeafEntry foldValue leaf (leafChunkArea k) (leafChunkCount k))
      = ((List.range (leafChunkCount k)).filter fun ci => u8At leaf (leafChunkOffset k ci) == zapChunkEntry).filterMap
          (fatLeafEntry foldValue leaf (leafChunkArea k) (leafChunkCount k)) := by
        rw [List.filterMap_filter]
        refine List.filterMap_congr fun ci _ => ?_
        split
        · rfl
        · rename_i hci
          exact hskip ci hci
    _ = entries.map LeafEntry.listed := by
        rw [h.chunks, List.filterMap_map, List.filterMap_congr hlisted]
        exact congrFun List.filterMap_eq_map entries

end Leaf

/-! ## The object -/

section Object

variable {k : Nat} {header : Bytes}

/-- A read of the header is one of the object. -/
theorem leU64_header (hk : 9 ≤ k) (hheader : FatHeader k header) (rest : Bytes) :
    leU64 (header ++ rest) 0 = zbtHeader := by
  have hpow : 2 ^ 9 ≤ 2 ^ k := Nat.pow_le_pow_right (by omega) hk
  have hlen := hheader.length
  rw [leU64, readUint_append_left (by omega), ← leU64, hheader.signature]

/-- The object shows no leaf inside the header, and shows one behind it where its next block does. -/
theorem leafAt_object (hheader : FatHeader k header) (rest : Bytes) :
    (∀ j, 9 ≤ j → j < k → leafAt (header ++ rest) (2 ^ j) = false) ∧ leafAt (header ++ rest) (2 ^ k) = leafAt rest 0 := by
  constructor
  · intro j hj hjk
    have hlow : 2 ^ 9 ≤ 2 ^ j := Nat.pow_le_pow_right (by omega) hj
    have hnext : 2 ^ (j + 1) ≤ 2 ^ k := Nat.pow_le_pow_right (by omega) hjk
    have hlen := hheader.length
    rw [Nat.pow_succ] at hnext
    rw [← hheader.no_leaf j hj hjk, leafAt, leafAt, leU64, leU32, readUint_append_left (by omega),
      readUint_append_left (by omega), ← leU64, ← leU32]
  · have hlen := hheader.length
    rw [leafAt, leafAt, leU64, leU32, readUint_append_right (by omega), readUint_append_right (by omega), ← leU64, ← leU32,
      hlen, Nat.sub_self, Nat.add_sub_cancel_left]

/-- Where the block behind the header is a leaf, its place is the block size found. -/
theorem fatBlockSize_object (hk : 9 ≤ k ∧ k ≤ 17) (hheader : FatHeader k header) {rest : Bytes} (hleaf : leafAt rest 0 = true)
    (hrest : 0 < rest.length) : fatBlockSize (header ++ rest) = 2 ^ k := by
  obtain ⟨hbefore, hat⟩ := leafAt_object hheader rest
  refine fatBlockSizeFrom_of_first ?_ (hat.trans hleaf) (by decide) ?_ fun j hj hjk => hbefore j ?_ hjk
  · rw [List.length_append, hheader.length]
    omega
  · simp only [List.mem_cons, List.not_mem_nil, or_false]
    omega
  · simp only [List.mem_cons, List.not_mem_nil, or_false] at hj
    omega

/-- At the object's block size the listing is that of its blocks. -/
theorem zapList_object (hk : 9 ≤ k ∧ k ≤ 17) (hheader : FatHeader k header) {blocks : List Bytes}
    (hblocks : ∀ b ∈ blocks, b.length = 2 ^ k) (hsize : fatBlockSize (header ++ blocks.flatten) = 2 ^ k) :
    zapList (header ++ blocks.flatten) = blocks.flatMap (blockEntries foldValue (2 ^ k)) := by
  have hpos : 2 ^ 9 ≤ 2 ^ k := Nat.pow_le_pow_right (by omega) hk.1
  have hhdr : zapLeafHdrSize = 48 := rfl
  have hne : zbtHeader ≠ zbtMicro := by decide
  have htotal : blocks.flatten.length = blocks.length * 2 ^ k := by
    rw [List.length_flatten, List.map_congr_left hblocks, List.map_const', List.sum_replicate_nat]
  have hfuel : blocks.length ≤ (header ++ blocks.flatten).length / 2 ^ k := by
    rw [List.length_append, htotal, Nat.le_div_iff_mul_le (by omega)]
    omega
  have hsector : zapLeafHdrSize ≤ 2 ^ k := by omega
  have hwalk := leavesLoop_blocks foldValue hsector hblocks header hfuel
  rw [hheader.length] at hwalk
  rw [zapList, leU64_header hk.1 hheader, if_neg hne, if_pos rfl, fatList_eq_leavesOf, leavesOf, hsize,
    if_neg (by omega), hwalk]

end Object

/-- A fat-ZAP of a header and one well-formed leaf lists exactly the entries of the leaf, in the order of their chunks, each with its
name and its value folded. -/
theorem fat_leaf_listed (k : Nat) (hk : 9 ≤ k ∧ k ≤ 17) (header leaf : Bytes) (entries : List LeafEntry)
    (hheader : FatHeader k header) (hleaf : WellFormedLeaf k leaf entries) :
    zapList (header ++ leaf) = entries.map fun e => (e.name, foldValue e.value) := by
  have hpos : 2 ^ 9 ≤ 2 ^ k := Nat.pow_le_pow_right (by omega) hk.1
  have hlen := hleaf.length
  have hsize := fatBlockSize_object hk hheader hleaf.signature (by omega)
  have hobject : header ++ leaf = header ++ [leaf].flatten := by rw [List.flatten_cons, List.flatten_nil, List.append_nil]
  have hblocks : ∀ b ∈ [leaf], b.length = 2 ^ k := by
    intro b hb
    rw [List.mem_singleton.1 hb, hlen]
  rw [hobject] at hsize ⊢
  rw [zapList_object hk hheader hblocks hsize, List.flatMap_singleton, blockEntries, if_pos hleaf.signature,
    leafEntries_of_wellFormed hk hleaf]
  rfl

/-! ## A header, a leaf and another block -/

/-- An entry chunk: the size of an integer of its value, the first chunk and the length of its name, those of its value. -/
def entryChunk (intSize nameChunk nameLen valueChunk valueLen : Nat) : Bytes :=
  [zapChunkEntry, UInt8.ofNat intSize] ++ zeros 2 ++ encodeWords .little 2 [nameChunk, nameLen, valueChunk, valueLen] ++ zeros 12

/-- An array chunk: up to 21 bytes, and the next chunk. -/
def arrayChunk (bytes : Bytes) (next : Nat) : Bytes :=
  [zapChunkArray] ++ resize bytes zapLeafArrayBytes ++ encode .little 2 next

/-- A header block of 512 bytes. -/
def sectorHeader : Bytes := encode .little 8 zbtHeader.toNat ++ zeros 504

/-- A leaf of 512 bytes with two entries. The value of the first is three words, on the chunks 6 and 1. -/
def sectorLeaf : Bytes :=
  [encode .little 8 zbtLeaf.toNat, zeros 16, encode .little 4 zapLeafMagic.toNat, zeros 52,
    arrayChunk [0x63, 0] 0xffff, arrayChunk [22, 23, 24] 0xffff, arrayChunk [0, 9] 0xffff, entryChunk 8 4 3 6 3,
    arrayChunk [0x61, 0x62, 0] 0xffff, entryChunk 2 0 2 2 1,
    arrayChunk [1, 2, 3, 4, 5, 6, 7, 8, 9, 10, 11, 12, 13, 14, 15, 16, 17, 18, 19, 20, 21] 1, zeros 264].flatten

/-- Its entries. -/
def sectorEntries : List LeafEntry :=
  [⟨3, [0x61, 0x62], (List.range 24).map fun i => UInt8.ofNat (i + 1), [4], [6, 1]⟩, ⟨5, [0x63], [0, 9], [0], [2]⟩]

theorem fatHeader_sectorHeader : FatHeader 9 sectorHeader :=
  ⟨by decide +kernel, by decide +kernel, fun j hj hjk => absurd hjk (by omega)⟩

theorem wellFormedLeaf_sectorLeaf : WellFormedLeaf 9 sectorLeaf sectorEntries := by
  refine ⟨by decide +kernel, by decide +kernel, by decide +kernel, ?_, by decide +kernel⟩
  intro e he
  rcases List.mem_pair.1 he with rfl | rfl
  · exact
      { name_ne := by decide
        name_utf8 := (fromUtf8Lossy_eq_self_iff _).1 (by decide)
        name_length := by decide +kernel
        value_length := by decide +kernel
        name_chain := arrayChain_of_isArrayChain (by decide +kernel)
        value_chain := arrayChain_of_isArrayChain (by decide +kernel) }
  · exact
      { name_ne := by decide
        name_utf8 := (fromUtf8Lossy_eq_self_iff _).1 (by decide)
        name_length := by decide +kernel
        value_length := by decide +kernel
        name_chain := arrayChain_of_isArrayChain (by decide +kernel)
        value_chain := arrayChain_of_isArrayChain (by decide +kernel) }

/-- The two entries are listed, the longer value by its first eight bytes. -/
theorem fat_leaf_listed_sectorLeaf :
    zapList (sectorHeader ++ sectorLeaf) = [([0x61, 0x62], 0x0102030405060708), ([0x63], 9)] := by
  rw [fat_leaf_listed 9 (by decide) sectorHeader sectorLeaf sectorEntries fatHeader_sectorHeader wellFormedLeaf_sectorLeaf]
  decide

/-! ## Blocks in front of the first leaf -/

/-- Every entry of every leaf of an object is listed, and the block size of an object with a leaf is found. -/
structure ListsEveryLeaf (k : Nat) (header : Bytes) (blocks : List Bytes) : Prop where
  listed : ∀ b ∈ blocks, ∀ entries, WellFormedLeaf k b entries → ∀ e ∈ entries,
    (e.name, foldValue e.value) ∈ zapList (header ++ blocks.flatten)
  block_size : (∃ b ∈ blocks, leafAt b 0 = true) → fatBlockSize (header ++ blocks.flatten) = 2 ^ k

/-- A block in front of others begins as a leaf where the whole does. -/
theorem leafAt_flatten_cons {b : Bytes} (hb : 28 ≤ b.length) (rest : List Bytes) :
    leafAt (b :: rest).flatten 0 = leafAt b 0 := by
  rw [List.flatten_cons, leafAt, leafAt, leU64, leU32, readUint_append_left (by omega), readUint_append_left (by omega), ← leU64,
    ← leU32]

/-- Every leaf of an object is listed exactly where the object has no leaf, or its first block behind the header is one. -/
theorem every_leaf_listed_iff (k : Nat) (hk : 9 ≤ k ∧ k ≤ 17) (header : Bytes) (blocks : List Bytes) (hheader : FatHeader k header)
    (hblocks : ∀ b ∈ blocks, b.length = 2 ^ k ∧ ((∃ entries, WellFormedLeaf k b entries) ∨ leafAt b 0 = false)) :
    ListsEveryLeaf k header blocks ↔
      (∀ b ∈ blocks, leafAt b 0 = false) ∨ ∃ b rest, blocks = b :: rest ∧ leafAt b 0 = true := by
  have hpow : 2 ^ 9 ≤ 2 ^ k := Nat.pow_le_pow_right (by omega) hk.1
  constructor
  · intro h
    by_cases hleaf : ∃ b ∈ blocks, leafAt b 0 = true
    · right
      obtain ⟨b, rest, rfl⟩ : ∃ b rest, blocks = b :: rest := by
        obtain ⟨b, hb, -⟩ := hleaf
        exact List.exists_cons_of_ne_nil (List.ne_nil_of_mem hb)
      have hb : b.length = 2 ^ k := (hblocks b List.mem_cons_self).1
      refine ⟨b, rest, rfl, ?_⟩
      have hsize := h.block_size hleaf
      rcases leafAt_fatBlockSizeFrom (header ++ (b :: rest).flatten) [9, 10, 11, 12, 13, 14, 15, 16, 17] with hat | hend
      · rw [← fatBlockSize, hsize, (leafAt_object hheader _).2, leafAt_flatten_cons (by omega)] at hat
        exact hat
      · rw [← fatBlockSize, hsize, List.length_append, hheader.length, List.flatten_cons, List.length_append] at hend
        omega
    · left
      intro b hb
      by_contra hne
      exact hleaf ⟨b, hb, by simpa using hne⟩
  · rintro (hnone | ⟨b, rest, rfl, hb⟩)
    · refine ⟨fun b hb entries hleaf => ?_, fun ⟨b, hb, hleaf⟩ => ?_⟩
      · exact absurd hleaf.signature (by rw [hnone b hb]; simp)
      · exact absurd hleaf (by rw [hnone b hb]; simp)
    · have hlen : ∀ c ∈ b :: rest, c.length = 2 ^ k := fun c hc => (hblocks c hc).1
      have hfirst : b.length = 2 ^ k := hlen b List.mem_cons_self
      have hsize : fatBlockSize (header ++ (b :: rest).flatten) = 2 ^ k := by
        refine fatBlockSize_object hk hheader ?_ ?_
        · rw [leafAt_flatten_cons (by omega), hb]
        · rw [List.flatten_cons, List.length_append]
          omega
      refine ⟨fun c hc entries hleaf e he => ?_, fun _ => hsize⟩
      rw [zapList_object hk hheader hlen hsize, List.mem_flatMap]
      refine ⟨c, hc, ?_⟩
      rw [blockEntries, if_pos hleaf.signature, leafEntries_of_wellFormed hk hleaf]
      exact List.mem_map_of_mem he

/-- Behind a block that is no leaf, such as one of the pointer table, a leaf of 512 bytes is listed as one of 1024, and its entries are
not. -/
theorem leaf_behind_table_lost :
    FatHeader 9 sectorHeader ∧ leafAt (zeros 512) 0 = false ∧ WellFormedLeaf 9 sectorLeaf sectorEntries ∧
      fatBlockSize (sectorHeader ++ [zeros 512, sectorLeaf].flatten) = 1024 ∧
      zapList (sectorHeader ++ [zeros 512, sectorLeaf].flatten) = [] ∧
      ¬ ListsEveryLeaf 9 sectorHeader [zeros 512, sectorLeaf] := by
  have hlist : zapList (sectorHeader ++ [zeros 512, sectorLeaf].flatten) = [] := by decide +kernel
  refine ⟨fatHeader_sectorHeader, by decide +kernel, wellFormedLeaf_sectorLeaf, by decide +kernel, hlist, fun h => ?_⟩
  have hmem := h.listed sectorLeaf (by simp) sectorEntries wellFormedLeaf_sectorLeaf _ List.mem_cons_self
  rw [hlist] at hmem
  exact List.not_mem_nil hmem

/-- With the leaf in front of the other block every entry is listed. -/
theorem every_leaf_listed_in_front :
    ListsEveryLeaf 9 sectorHeader [sectorLeaf, zeros 512] ↔
      (∀ b ∈ [sectorLeaf, zeros 512], leafAt b 0 = false) ∨
        ∃ b rest, [sectorLeaf, zeros 512] = b :: rest ∧ leafAt b 0 = true := by
  refine every_leaf_listed_iff 9 (by decide) sectorHeader [sectorLeaf, zeros 512] fatHeader_sectorHeader ?_
  intro b hb
  rcases List.mem_pair.1 hb with rfl | rfl
  · exact ⟨wellFormedLeaf_sectorLeaf.length, Or.inl ⟨_, wellFormedLeaf_sectorLeaf⟩⟩
  · exact ⟨length_zeros 512, Or.inr (by decide +kernel)⟩

end ZfsForensic
