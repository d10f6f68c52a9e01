import ZfsForensic.Zap

/-!
# The leaves of a fat-ZAP

The two walks over the leaves are one walk that is told what to make of a value's bytes. A leaf keeps the bytes of a name or a value on
a chain of array chunks, 21 to a chunk; following the chain gives them back.
-/

namespace ZfsForensic

open Octets Checked

/-! ## One walk -/

/-- The entry at chunk `ci` of a leaf, its value bytes read by `value`. -/
def fatLeafEntry {α : Type} (value : Bytes → α) (leaf : Bytes) (chunkArea nchunks ci : Nat) : Option (Bytes × α) :=
  let co := chunkArea + ci * zapLeafChunksize
  if u8At leaf co ≠ zapChunkEntry then none
  else
    let name := leName (arrayBytes leaf chunkArea nchunks (leU16 leaf (co + 4)) (leU16 leaf (co + 6)).toNat)
    let valueBytes := arrayBytes leaf chunkArea nchunks (leU16 leaf (co + 8))
      ((u8At leaf (co + 1)).toNat * (leU16 leaf (co + 10)).toNat)
    if name = [] then none else some (name, value valueBytes)

/-- The entries of one leaf, in chunk order. -/
def leafEntries {α : Type} (value : Bytes → α) (leaf : Bytes) (blockSize : Nat) : List (Bytes × α) :=
  let nhash := 1 <<< (trailingZeros 64 blockSize - 5)
  let chunkArea := zapLeafHdrSize + nhash * 2
  if leaf.length ≤ chunkArea then []
  else
    let nchunks := (leaf.length - chunkArea) / zapLeafChunksize
    (List.range nchunks).filterMap (fatLeafEntry value leaf chunkArea nchunks)

/-- The entries of a block, when it begins as a leaf. -/
def blockEntries {α : Type} (value : Bytes → α) (blockSize : Nat) (block : Bytes) : List (Bytes × α) :=
  if leafAt block 0 then leafEntries value block blockSize else []

/-- The loop over the blocks of a fat-ZAP from `off` on: every block that begins as a leaf is listed. -/
def leavesLoop {α : Type} (value : Bytes → α) (block : Bytes) (blockSize : Nat) : Nat → Nat → List (Bytes × α)
  | 0, _ => []
  | fuel + 1, off =>
    if off + zapLeafHdrSize ≤ block.length then
      blockEntries value blockSize ((block.drop off).take (min (off + blockSize) block.length - off)) ++
        leavesLoop value block blockSize fuel (off + blockSize)
    else []

/-- Every entry of a fat-ZAP. -/
def leavesOf {α : Type} (value : Bytes → α) (block : Bytes) : List (Bytes × α) :=
  let blockSize := fatBlockSize block
  if blockSize = 0 then [] else leavesLoop value block blockSize (block.length / blockSize) blockSize

/-- The length of a value is below the saturation of its product. -/
theorem satMul_value (a : UInt8) (b : UInt16) : satMul a.toNat b.toNat = a.toNat * b.toNat := by
  have ha := a.toNat_lt
  have hb := b.toNat_lt
  have hle : a.toNat * b.toNat ≤ 2 ^ 8 * 2 ^ 16 := Nat.mul_le_mul ha.le hb.le
  exact satMul_eq (by omega)

/-- A loop over chunks that appends what it makes of each is the list of what it makes of all. -/
theorem loop_eq_filterMap {β : Type} {loop : Nat → Nat → List β → List β} {entry : Nat → Option β}
    (hzero : ∀ ci out, loop ci 0 out = out)
    (hsucc : ∀ ci n out, loop ci (n + 1) out = loop (ci + 1) n (out ++ (entry ci).toList)) (ci n : Nat) (out : List β) :
    loop ci n out = out ++ (List.range' ci n).filterMap entry := by
  induction n generalizing ci out with
  | zero =>
    rw [hzero]
    simp
  | succ n ih =>
    rw [hsucc, ih, List.range'_succ, List.filterMap_cons]
    cases entry ci with
    | none => simp
    | some e => simp

/-- A loop over blocks that appends the entries of each is the walk. -/
theorem loop_eq_leavesLoop {α : Type} {value : Bytes → α} {block : Bytes} {blockSize : Nat}
    {loop : Nat → Nat → List (Bytes × α) → List (Bytes × α)} (hzero : ∀ off out, loop 0 off out = out)
    (hsucc : ∀ fuel off out, loop (fuel + 1) off out =
      if off + zapLeafHdrSize ≤ block.length then
        loop fuel (off + blockSize)
          (out ++ blockEntries value blockSize ((block.drop off).take (min (off + blockSize) block.length - off)))
      else out) (fuel off : Nat) (out : List (Bytes × α)) :
    loop fuel off out = out ++ leavesLoop value block blockSize fuel off := by
  induction fuel generalizing off out with
  | zero =>
    rw [hzero, leavesLoop, List.append_nil]
  | succ fuel ih =>
    rw [hsucc, leavesLoop]
    by_cases hin : off + zapLeafHdrSize ≤ block.length
    · rw [if_pos hin, if_pos hin, ih, List.append_assoc]
    · rw [if_neg hin, if_neg hin, List.append_nil]

theorem fatLeafEntriesLoop_succ (leaf : Bytes) (chunkArea nchunks ci n : Nat) (out : List (Bytes × UInt64)) :
    fatLeafEntriesLoop leaf chunkArea nchunks ci (n + 1) out =
      fatLeafEntriesLoop leaf chunkArea nchunks (ci + 1) n
        (out ++ (fatLeafEntry foldValue leaf chunkArea nchunks ci).toList) := by
  rw [fatLeafEntriesLoop, fatLeafEntry]
  by_cases hentry : u8At leaf (chunkArea + ci * zapLeafChunksize) ≠ zapChunkEntry
  · rw [if_pos hentry, if_pos hentry, Option.toList_none, List.append_nil]
  · rw [if_neg hentry, if_neg hentry]
    dsimp only
    rw [satMul_value]
    generalize leName _ = name
    by_cases hname : name = []
    · rw [if_neg (not_not.2 hname), if_pos hname, Option.toList_none, List.append_nil]
    · rw [if_pos hname, if_neg hname, Option.toList_some]

theorem fatLeafEntriesArraysLoop_succ (leaf : Bytes) (chunkArea nchunks ci n : Nat) (out : List (Bytes × Bytes)) :
    fatLeafEntriesArraysLoop leaf chunkArea nchunks ci (n + 1) out =
      fatLeafEntriesArraysLoop leaf chunkArea nchunks (ci + 1) n
        (out ++ (fatLeafEntry id leaf chunkArea nchunks ci).toList) := by
  rw [fatLeafEntriesArraysLoop, fatLeafEntry]
  by_cases hentry : u8At leaf (chunkArea + ci * zapLeafChunksize) ≠ zapChunkEntry
  · rw [if_pos hentry, if_pos hentry, Option.toList_none, List.append_nil]
  · rw [if_neg hentry, if_neg hentry]
    dsimp only
    rw [satMul_value]
    generalize leName _ = name
    by_cases hname : name = []
    · rw [if_neg (not_not.2 hname), if_pos hname, Option.toList_none, List.append_nil]
    · rw [if_pos hname, if_neg hname, Option.toList_some]
      rfl

theorem fatLeafEntries_eq (leaf : Bytes) (blockSize : Nat) (out : List (Bytes × UInt64)) :
    fatLeafEntries leaf blockSize out = out ++ leafEntries foldValue leaf blockSize := by
  rw [fatLeafEntries, leafEntries]
  dsimp only
  split
  · rw [List.append_nil]
  · rw [List.range_eq_range']
    exact loop_eq_filterMap (fun _ _ => rfl) (fatLeafEntriesLoop_succ leaf _ _) 0 _ out

theorem fatLeafEntriesArrays_eq (leaf : Bytes) (blockSize : Nat) (out : List (Bytes × Bytes)) :
    fatLeafEntriesArrays leaf blockSize out = out ++ leafEntries id leaf blockSize := by
  rw [fatLeafEntriesArrays, leafEntries]
  dsimp only
  split
  · rw [List.append_nil]
  · rw [List.range_eq_range']
    exact loop_eq_filterMap (fun _ _ => rfl) (fatLeafEntriesArraysLoop_succ leaf _ _) 0 _ out

theorem leafAt_eq_true_iff (block : Bytes) (off : Nat) :
    leafAt block off = true ↔ leU64 block off = zbtLeaf ∧ leU32 block (off + 24) = zapLeafMagic := by
  rw [leafAt, Bool.and_eq_true, beq_iff_eq, beq_iff_eq]

/-- The listing of values walks the leaves and folds each value. -/
theorem fatList_eq_leavesOf (block : Bytes) : fatList block = leavesOf foldValue block := by
  rw [fatList, leavesOf]
  split
  · rfl
  · refine loop_eq_leavesLoop (fun _ _ => rfl) (fun fuel off out => ?_) _ _ []
    rw [fatListLoop, blockEntries]
    simp only [leafAt_eq_true_iff, fatLeafEntries_eq]
    split <;> [skip; rfl]
    split <;> simp

/-- The listing of value bytes walks the leaves and keeps each value. -/
theorem fatListArrays_eq_leavesOf (block : Bytes) : fatListArrays block = leavesOf id block := by
  rw [fatListArrays, leavesOf]
  split
  · rfl
  · refine loop_eq_leavesLoop (fun _ _ => rfl) (fun fuel off out => ?_) _ _ []
    rw [fatListArraysLoop, blockEntries]
    simp only [leafAt_eq_true_iff, fatLeafEntriesArrays_eq]
    split <;> [skip; rfl]
    split <;> simp

/-! ## What is made of a value -/

section Value

variable {α : Type} (value : Bytes → α)

theorem fatLeafEntry_map (leaf : Bytes) (chunkArea nchunks ci : Nat) :
    fatLeafEntry value leaf chunkArea nchunks ci =
      (fatLeafEntry id leaf chunkArea nchunks ci).map fun e => (e.1, value e.2) := by
  unfold fatLeafEntry
  dsimp only
  split
  · rfl
  · split
    · rfl
    · rfl

theorem leafEntries_map (leaf : Bytes) (blockSize : Nat) :
    leafEntries value leaf blockSize = (leafEntries id leaf blockSize).map fun e => (e.1, value e.2) := by
  unfold leafEntries
  dsimp only
  split
  · rfl
  · rw [List.map_filterMap]
    exact List.filterMap_congr fun ci _ => fatLeafEntry_map value leaf _ _ ci

theorem blockEntries_map (blockSize : Nat) (block : Bytes) :
    blockEntries value blockSize block = (blockEntries id blockSize block).map fun e => (e.1, value e.2) := by
  unfold blockEntries
  split
  · exact leafEntries_map value block blockSize
  · rfl

theorem leavesLoop_map (block : Bytes) (blockSize fuel off : Nat) :
    leavesLoop value block blockSize fuel off = (leavesLoop id block blockSize fuel off).map fun e => (e.1, value e.2) := by
  induction fuel generalizing off with
  | zero => rfl
  | succ fuel ih =>
    rw [leavesLoop, leavesLoop]
    split
    · rw [List.map_append, ← blockEntries_map, ← ih]
    · rfl

/-- Walking the leaves and making something of each value is making it of the values of the walk. -/
theorem leavesOf_map (block : Bytes) : leavesOf value block = (leavesOf id block).map fun e => (e.1, value e.2) := by
  unfold leavesOf
  dsimp only
  split
  · rfl
  · exact leavesLoop_map value block _ _ _

end Value

/-! ## Blocks of one size -/

/-- Over blocks of one size behind a first part, the walk lists block after block. -/
theorem leavesLoop_blocks {α : Type} (value : Bytes → α) {blockSize : Nat} (hsize : zapLeafHdrSize ≤ blockSize)
    {blocks : List Bytes} (hblocks : ∀ b ∈ blocks, b.length = blockSize) (front : Bytes) {fuel : Nat} (hfuel : blocks.length ≤ fuel) :
    leavesLoop value (front ++ blocks.flatten) blockSize fuel front.length = blocks.flatMap (blockEntries value blockSize) := by
  induction blocks generalizing front fuel with
  | nil =>
    cases fuel with
    | zero => rfl
    | succ fuel =>
      have hout : ¬ front.length + zapLeafHdrSize ≤ (front ++ List.flatten []).length := by
        rw [List.flatten_nil, List.append_nil, zapLeafHdrSize]
        omega
      rw [leavesLoop, if_neg hout]
      rfl
  | cons b blocks ih =>
    obtain ⟨fuel, rfl⟩ : ∃ n, fuel = n + 1 := ⟨fuel - 1, by rw [List.length_cons] at hfuel; omega⟩
    have hb : b.length = blockSize := hblocks b List.mem_cons_self
    have hparts : front ++ (b :: blocks).flatten = (front ++ b) ++ blocks.flatten := by
      rw [List.flatten_cons, List.append_assoc]
    have hlen : (front ++ (b :: blocks).flatten).length = front.length + blockSize + blocks.flatten.length := by
      rw [hparts, List.length_append, List.length_append, hb]
    have hleaf : ((front ++ (b :: blocks).flatten).drop front.length).take
        (min (front.length + blockSize) (front ++ (b :: blocks).flatten).length - front.length) = b := by
      rw [List.drop_left, hlen, List.flatten_cons]
      rw [show min (front.length + blockSize) (front.length + blockSize + blocks.flatten.length) - front.length = b.length by omega]
      exact List.take_left
    rw [leavesLoop, if_pos (by omega), hleaf, List.flatMap_cons, hparts]
    have hrest : blocks.length ≤ fuel := by
      rw [List.length_cons] at hfuel
      omega
    have hnext := ih (fun c hc => hblocks c (List.mem_cons_of_mem _ hc)) (front ++ b) hrest
    rw [List.length_append, hb] at hnext
    rw [hnext]

/-- The smallest candidate size at which a leaf begins is the size found. -/
theorem fatBlockSizeFrom_of_first {block : Bytes} {k : Nat} (hlen : 2 ^ k < block.length) (hleaf : leafAt block (2 ^ k) = true)
    {shifts : List Nat} (hsorted : shifts.Pairwise (· < ·)) (hmem : k ∈ shifts)
    (hsmaller : ∀ j ∈ shifts, j < k → leafAt block (2 ^ j) = false) : fatBlockSizeFrom block shifts = 2 ^ k := by
  induction shifts with
  | nil => exact absurd hmem List.not_mem_nil
  | cons j shifts ih =>
    obtain ⟨hlt, hsorted⟩ := List.pairwise_cons.1 hsorted
    have hshift : ∀ i, 1 <<< i = 2 ^ i := fun i => by rw [Nat.shiftLeft_eq, Nat.one_mul]
    rw [fatBlockSizeFrom]
    rw [hshift]
    rcases List.mem_cons.1 hmem with rfl | hmem
    · rw [if_neg (by omega), hleaf, if_pos rfl]
    · have hjk := hlt k hmem
      have hpow : 2 ^ j ≤ 2 ^ k := Nat.pow_le_pow_right (by omega) hjk.le
      rw [if_neg (by omega), hsmaller j List.mem_cons_self hjk, if_neg (by simp)]
      exact ih hsorted hmem fun i hi => hsmaller i (List.mem_cons_of_mem _ hi)

/-- The size found is one at which a leaf begins, or the length of the object. -/
theorem leafAt_fatBlockSizeFrom (block : Bytes) (shifts : List Nat) :
    leafAt block (fatBlockSizeFrom block shifts) = true ∨ fatBlockSizeFrom block shifts = block.length := by
  induction shifts with
  | nil => exact Or.inr rfl
  | cons j shifts ih =>
    rw [fatBlockSizeFrom]
    split
    · exact Or.inr rfl
    · split
      · rename_i hleaf
        exact Or.inl hleaf
      · exact ih

/-! ## Chains of array chunks -/

/-- Some bytes lie on a chain of array chunks, 21 to a chunk, from a link on: the chunks, and the end at `0xffff`. -/
inductive ArrayChain (leaf : Bytes) (chunkArea nchunks : Nat) : UInt16 → Bytes → List Nat → Prop where
  | done : ArrayChain leaf chunkArea nchunks 0xffff [] []
  | link {nc : UInt16} {bytes payload : Bytes} {chunks : List Nat} (co : Nat) : co = chunkArea + nc.toNat * zapLeafChunksize →
      nc.toNat < nchunks → bytes ≠ [] → u8At leaf co = zapChunkArray →
      slice? leaf (co + 1) (co + 1 + zapLeafArrayBytes) = some payload →
      payload.take bytes.length = bytes.take zapLeafArrayBytes →
      ArrayChain leaf chunkArea nchunks (leU16 leaf (co + 1 + zapLeafArrayBytes)) (bytes.drop zapLeafArrayBytes) chunks →
      ArrayChain leaf chunkArea nchunks nc bytes (nc.toNat :: chunks)

section Chain

variable {leaf : Bytes} {chunkArea nchunks : Nat}

/-- A chain of no bytes is its end. -/
theorem ArrayChain.end_of_nil {nc : UInt16} {bytes : Bytes} {chunks : List Nat}
    (h : ArrayChain leaf chunkArea nchunks nc bytes chunks) (hnil : bytes = []) : nc = 0xffff := by
  cases h with
  | done => rfl
  | link co _ _ hne => exact absurd hnil hne

theorem ArrayChain.lt {nc : UInt16} {bytes : Bytes} {chunks : List Nat}
    (h : ArrayChain leaf chunkArea nchunks nc bytes chunks) : ∀ c ∈ chunks, c < nchunks := by
  induction h with
  | done =>
    intro c hc
    exact absurd hc List.not_mem_nil
  | link co _ hlt _ _ _ _ _ ih =>
    intro c hc
    rcases List.mem_cons.1 hc with rfl | hc
    · exact hlt
    · exact ih c hc

/-- Whether some bytes lie on a chain of these chunks. -/
def isArrayChain (leaf : Bytes) (chunkArea nchunks : Nat) : UInt16 → Bytes → List Nat → Bool
  | nc, bytes, [] => nc == 0xffff && bytes == []
  | nc, bytes, c :: chunks =>
    let co := chunkArea + nc.toNat * zapLeafChunksize
    match slice? leaf (co + 1) (co + 1 + zapLeafArrayBytes) with
    | none => false
    | some payload =>
      c == nc.toNat && decide (nc.toNat < nchunks) && bytes != [] && u8At leaf co == zapChunkArray &&
        payload.take bytes.length == bytes.take zapLeafArrayBytes &&
        isArrayChain leaf chunkArea nchunks (leU16 leaf (co + 1 + zapLeafArrayBytes)) (bytes.drop zapLeafArrayBytes) chunks

theorem arrayChain_of_isArrayChain {nc : UInt16} {bytes : Bytes} {chunks : List Nat}
    (h : isArrayChain leaf chunkArea nchunks nc bytes chunks = true) : ArrayChain leaf chunkArea nchunks nc bytes chunks := by
  induction chunks generalizing nc bytes with
  | nil =>
    simp only [isArrayChain, Bool.and_eq_true, beq_iff_eq] at h
    obtain ⟨rfl, rfl⟩ := h
    exact .done
  | cons c chunks ih =>
    rw [isArrayChain] at h
    split at h
    · cases h
    · rename_i payload hslice
      simp only [Bool.and_eq_true, beq_iff_eq, bne_iff_ne, decide_eq_true_eq] at h
      obtain ⟨⟨⟨⟨⟨rfl, hlt⟩, hne⟩, htype⟩, hpiece⟩, hrest⟩ := h
      exact .link _ rfl hlt hne htype hslice hpiece (ih hrest)

/-- At the end marker the loop stops. -/
theorem arrayBytesLoop_end (want hops : Nat) (out : Bytes) : arrayBytesLoop leaf chunkArea nchunks want hops 0xffff out = out := by
  cases hops with
  | zero => rfl
  | succ hops => rw [arrayBytesLoop, if_neg fun h => h.1 rfl]

/-- Following a chain appends its bytes: no guard of the loop cuts it before its end. -/
theorem arrayBytesLoop_of_chain (hnchunks : nchunks ≤ 0xffff) {nc : UInt16} {bytes : Bytes} {chunks : List Nat}
    (h : ArrayChain leaf chunkArea nchunks nc bytes chunks) {hops : Nat} (hhops : chunks.length ≤ hops) (out : Bytes) :
    (arrayBytesLoop leaf chunkArea nchunks (out.length + bytes.length) hops nc out).take (out.length + bytes.length) =
      out ++ bytes := by
  induction h generalizing hops out with
  | done => rw [arrayBytesLoop_end, List.append_nil, List.length_nil, Nat.add_zero, List.take_length]
  | @link nc bytes payload chunks co hco hlt hne htype hslice hpiece hrest ih =>
    obtain ⟨hops, rfl⟩ : ∃ n, hops = n + 1 := ⟨hops - 1, by rw [List.length_cons] at hhops; omega⟩
    have hpos : 0 < bytes.length := List.length_pos_of_ne_nil hne
    have hnot : nc ≠ 0xffff := by
      rintro rfl
      have hend : (0xffff : UInt16).toNat = 0xffff := rfl
      omega
    have hturn : arrayBytesLoop leaf chunkArea nchunks (out.length + bytes.length) (hops + 1) nc out =
        arrayBytesLoop leaf chunkArea nchunks (out.length + bytes.length) hops (leU16 leaf (co + 1 + zapLeafArrayBytes))
          (out ++ payload) := by
      rw [arrayBytesLoop, if_pos ⟨hnot, hlt, by omega⟩, ← hco]
      dsimp only
      rw [if_neg (not_not.2 htype), hslice]
    have hpayload : payload.length = zapLeafArrayBytes := by
      rw [slice?_length hslice]
      omega
    rw [hturn]
    by_cases hlong : zapLeafArrayBytes < bytes.length
    · -- the chunk is full, and the chain goes on
      have hfull : payload = bytes.take zapLeafArrayBytes := by
        rw [← hpiece, List.take_of_length_le (by omega)]
      have hlen : (out ++ payload).length + (bytes.drop zapLeafArrayBytes).length = out.length + bytes.length := by
        rw [List.length_append, List.length_drop, hpayload]
        omega
      have hleft : chunks.length ≤ hops := by
        rw [List.length_cons] at hhops
        omega
      have hnext := ih hleft (out ++ payload)
      rw [hlen] at hnext
      rw [hnext, List.append_assoc, hfull, List.take_append_drop]
    · -- the last chunk, filled up behind the bytes
      have hend := hrest.end_of_nil (List.drop_eq_nil_of_le (by omega))
      rw [hend, arrayBytesLoop_end, List.take_length_add_append, hpiece, List.take_of_length_le (by omega)]

/-- The bytes on a chain of distinct chunks are read back. -/
theorem arrayBytes_of_chain (hnchunks : nchunks ≤ 0xffff) {nc : UInt16} {bytes : Bytes} {chunks : List Nat}
    (h : ArrayChain leaf chunkArea nchunks nc bytes chunks) (hnodup : chunks.Nodup) :
    arrayBytes leaf chunkArea nchunks nc bytes.length = bytes := by
  have hsub : chunks ⊆ List.range nchunks := fun c hc => List.mem_range.2 (h.lt c hc)
  have hhops : chunks.length ≤ nchunks := by
    have hle := (List.subperm_of_subset hnodup hsub).length_le
    rwa [List.length_range] at hle
  have hread := arrayBytesLoop_of_chain hnchunks h hhops []
  rw [List.length_nil, Nat.zero_add, List.nil_append] at hread
  exact hread

end Chain

end ZfsForensic
