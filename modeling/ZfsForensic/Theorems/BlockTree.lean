import ZfsForensic.Lemmas.Image
import ZfsForensic.Lemmas.Walk
import ZfsForensic.Lib.Radix

/-!
# Block ids enumerate the block tree

Where every indirect block holds its full count of pointers, the level-0 pointers of an object stand in one list, left to right
over `dn_blkptr[]`, and `readDnodeData` reads block `blkid` from the `blkid`-th of them. Each stands at an address of its own.
-/

namespace ZfsForensic

open Octets Checked Checked.Run

/-- The pointers in the block a pointer names, in the object's byte order; none where the block does not read. -/
def childPtrs (disk : Disk) (d : Dnode) (bp : Blkptr) : List Blkptr :=
  match disk bp with
  | .error _ => []
  | .ok block =>
    (List.range (block.data.length / blkptrSize)).map
      (fun i => Blkptr.parse ((block.data.drop (i * blkptrSize)).take blkptrSize) d.endian)

/-- Whether every pointer above level 0 is no hole and reads as exactly one full indirect block. -/
def TreeFull (disk : Disk) (d : Dnode) : Nat → Blkptr → Prop
  | 0, _ => True
  | level + 1, bp => bp.isHole = false ∧
      (∃ block, disk bp = .ok block ∧ block.data.length = d.ptrsPerIndirect * blkptrSize) ∧
      ∀ child ∈ childPtrs disk d bp, TreeFull disk d level child

/-- The level-0 pointers of an object, left to right, each with its address: its entry in `dn_blkptr[]` and the child indices
below it. -/
def leafPointers (disk : Disk) (d : Dnode) : List (List Nat × Blkptr) :=
  Radix.forestSlots (childPtrs disk d) d.topLevel d.blkptrs

/-- The `i`-th pointer of a block that reads. -/
theorem getElem?_childPtrs {disk : Disk} {d : Dnode} {bp : Blkptr} {block : Block} (h : disk bp = .ok block) (i : Nat) :
    (childPtrs disk d bp)[i]? =
      (slice? block.data (i * blkptrSize) (i * blkptrSize + blkptrSize)).map (fun c => Blkptr.parse c d.endian) := by
  rw [childPtrs, h]
  dsimp only
  rw [List.getElem?_map]
  by_cases hi : i < block.data.length / blkptrSize
  · have hfit : i * blkptrSize + blkptrSize ≤ block.data.length := by
      rw [← Nat.succ_mul]
      exact (Nat.le_div_iff_mul_le (by decide)).1 hi
    rw [List.getElem?_range hi, slice?_of_le (Nat.le_add_right _ _) hfit, Nat.add_sub_cancel_left]
    rfl
  · have hout : block.data.length < i * blkptrSize + blkptrSize := by
      rw [← Nat.succ_mul]
      exact Nat.lt_of_not_le fun hle => hi ((Nat.le_div_iff_mul_le (by decide)).2 hle)
    rw [slice?_eq_none_of_lt hout, List.getElem?_eq_none (by simpa using Nat.not_lt.1 hi)]
    rfl

theorem length_childPtrs {disk : Disk} {d : Dnode} {bp : Blkptr} {block : Block} (h : disk bp = .ok block) {n : Nat}
    (hlen : block.data.length = n * blkptrSize) : (childPtrs disk d bp).length = n := by
  rw [childPtrs, h]
  dsimp only
  rw [List.length_map, List.length_range, hlen, Nat.mul_div_cancel _ (by decide)]

/-- A full tree has one fan-out. -/
theorem TreeFull.full {disk : Disk} {d : Dnode} {level : Nat} {bp : Blkptr} (h : TreeFull disk d level bp) :
    Radix.Full (childPtrs disk d) d.ptrsPerIndirect level bp := by
  induction level generalizing bp with
  | zero => trivial
  | succ level ih =>
    obtain ⟨-, ⟨block, hread, hlen⟩, hchildren⟩ := h
    exact ⟨length_childPtrs hread hlen, fun child hc => ih (hchildren child hc)⟩

/-- The digit of the walk is the digit of the enumeration. -/
theorem Dnode.digit_eq (d : Dnode) (n level : Nat) :
    d.digit n level = n / d.ptrsPerIndirect ^ level % d.ptrsPerIndirect := by
  rw [digit, ptrsPerIndirect_eq_two_pow, ← Nat.pow_mul, Nat.mul_comm]

/-- In a full tree the walk reads the leaf its digits lead to. -/
theorem walk_eq_follow {disk : Disk} {d : Dnode} (n : Nat) {level : Nat} {bp : Blkptr} (h : TreeFull disk d level bp) :
    ∃ leaf, Radix.follow (childPtrs disk d) d.ptrsPerIndirect level n bp = some leaf ∧ walk disk d n level bp = disk leaf := by
  induction level generalizing bp with
  | zero => exact ⟨bp, rfl, rfl⟩
  | succ level ih =>
    obtain ⟨-, ⟨block, hread, hlen⟩, hchildren⟩ := h
    have hpos : 0 < d.ptrsPerIndirect := by
      rw [Dnode.ptrsPerIndirect_eq]
      exact Nat.pow_pos (by omega)
    have hdigit : d.digit n level < d.ptrsPerIndirect := by
      rw [Dnode.digit_eq]
      exact Nat.mod_lt _ hpos
    have hfit : d.digit n level * blkptrSize + blkptrSize ≤ block.data.length := by
      rw [hlen, ← Nat.succ_mul]
      exact Nat.mul_le_mul_right _ hdigit
    obtain ⟨child, hchild⟩ : ∃ child,
        slice? block.data (d.digit n level * blkptrSize) (d.digit n level * blkptrSize + blkptrSize) = some child :=
      ⟨_, slice?_of_le (Nat.le_add_right _ _) hfit⟩
    have hget : (childPtrs disk d bp)[d.digit n level]? = some (Blkptr.parse child d.endian) := by
      rw [getElem?_childPtrs hread, hchild]
      rfl
    have hfull := hchildren _ (List.mem_of_getElem? hget)
    obtain ⟨leaf, hfollow, hwalk⟩ := ih hfull
    refine ⟨leaf, ?_, ?_⟩
    · rw [Radix.follow, ← Dnode.digit_eq, hget, Option.bind_some, hfollow]
    · rw [walk, hread]
      dsimp only
      rw [hchild]
      dsimp only
      by_cases hhole : (Blkptr.parse child d.endian).isHole = true
      · -- a hole can only stand at level 0, where it is the leaf itself
        rw [if_pos hhole]
        cases level with
        | zero => exact hwalk
        | succ level => exact absurd hhole (by rw [hfull.1]; decide)
      · rw [if_neg hhole, hwalk]

/-- Reading block `blkid` is reading the `blkid`-th level-0 pointer, and an error where there is none; the level-0 pointers stand
at distinct addresses. -/
theorem readDnodeData_enumerates (Γ : Ctx) (image : Bytes) (d : Dnode) (blkid : UInt64)
    (hlevels : 1 ≤ d.dnNlevels.toNat ∧ d.dnNlevels.toNat ≤ 8)
    (hshift : 7 ≤ d.dnIndblkshift.toNat ∧ d.dnIndblkshift.toNat ≤ 24)
    (hfit : (d.dnIndblkshift.toNat - 7) * (d.dnNlevels.toNat - 1) < 64)
    (htree : ∀ bp ∈ d.blkptrs, TreeFull (readBlock Γ image) d (d.dnNlevels.toNat - 1) bp)
    (hblkid : blkid ≤ d.dnMaxblkid) :
    (readDnodeData (readBlock Γ image) d blkid =
      pure (match (leafPointers (readBlock Γ image) d)[blkid.toNat]? with
        | some leaf => readBlock Γ image leaf.2
        | none => .error (.outOfRange "top blkptr index"
            (blkid.toNat / 2 ^ ((d.dnNlevels.toNat - 1) * (d.dnIndblkshift.toNat - 7))) d.blkptrs.length))) ∧
    (leafPointers (readBlock Γ image) d).map Prod.snd =
      d.blkptrs.flatMap (Radix.leaves (childPtrs (readBlock Γ image) d) (d.dnNlevels.toNat - 1)) ∧
    ((leafPointers (readBlock Γ image) d).map Prod.fst).Nodup := by
  have htop : d.topLevel = d.dnNlevels.toNat - 1 := by
    rw [Dnode.topLevel_eq]
    omega
  have hsh : d.levelShift.toNat = d.dnIndblkshift.toNat - 7 := by
    rw [Dnode.levelShift_toNat]
    omega
  have hne : d.dnNlevels ≠ 0 := by
    intro hz
    rw [hz] at hlevels
    exact absurd hlevels.1 (by decide)
  have hs : d.ShiftsFit := by
    rw [Dnode.ShiftsFit, htop, hsh, Nat.mul_comm]
    exact hfit
  have hpos : 0 < d.ptrsPerIndirect := by
    rw [Dnode.ptrsPerIndirect_eq]
    exact Nat.pow_pos (by omega)
  rw [← htop] at htree
  have hsnd := @Radix.map_snd_forestSlots _ (childPtrs (readBlock Γ image) d) d.topLevel d.blkptrs
  refine ⟨?_, by rw [← htop]; exact hsnd, Radix.nodup_forestSlots d.topLevel d.blkptrs⟩
  have hpow : d.ptrsPerIndirect ^ d.topLevel = 2 ^ (d.topLevel * d.levelShift.toNat) := by
    rw [Dnode.ptrsPerIndirect_eq_two_pow, ← Nat.pow_mul, Nat.mul_comm]
  have hforest := Radix.getElem?_forest hpos (fun bp hbp => (htree bp hbp).full) blkid.toNat
  rw [← hsnd, List.getElem?_map, hpow] at hforest
  rw [readDnodeData_eq (readBlock Γ image) hne hblkid hs, topRead, ← htop, ← hsh]
  congr 1
  cases hroot : d.blkptrs[blkid.toNat / 2 ^ (d.topLevel * d.levelShift.toNat)]? with
  | none =>
    rw [hroot, Option.bind_none, Option.map_eq_none_iff] at hforest
    simp only [leafPointers, hforest]
  | some bp =>
    obtain ⟨leaf, hfollow, hwalk⟩ := walk_eq_follow blkid.toNat (htree bp (List.mem_of_getElem? hroot))
    rw [hroot, Option.bind_some, hfollow] at hforest
    obtain ⟨slot, hslot, hleaf⟩ := Option.map_eq_some_iff.1 hforest
    simp only [leafPointers, hslot, hleaf]
    exact hwalk

/-! ## A tree of two levels

One inline indirect block of four pointers: the first an inline leaf, the other three holes. -/

/-- The bytes of an inline leaf: three bytes of content, and zeros to 512. -/
def leafPtr : Vector UInt8 128 := inlinePtr (padTo 112 [7, 8, 9]) 512

/-- A dnode of two levels whose indirect blocks hold four pointers. -/
def twoLevelDnode : Dnode :=
  { (default : Dnode) with
    dnNlevels := 2
    dnIndblkshift := 9
    dnDatablkszsec := 1
    dnMaxblkid := 3
    blkptrs := [Blkptr.parse (inlinePtr (padTo 112 (leafPtr.toList.take 112)) 512).toList .little] }

/-- Block 0 of that object is the content of the first leaf. -/
theorem readDnodeData_twoLevelDnode :
    readDnodeData (readBlock plainCtx []) twoLevelDnode 0 = pure (.ok ⟨[7, 8, 9] ++ zeros 509, none, 0⟩) := by
  have htree : ∀ bp ∈ twoLevelDnode.blkptrs, TreeFull (readBlock plainCtx []) twoLevelDnode 1 bp := by
    intro bp hbp
    rw [twoLevelDnode, List.mem_singleton] at hbp
    subst hbp
    refine ⟨by decide +kernel, ⟨⟨leafPtr.toList.take 112 ++ zeros 400, none, 0⟩, by decide +kernel, by decide +kernel⟩, ?_⟩
    intro _ _
    trivial
  have h := (readDnodeData_enumerates plainCtx [] twoLevelDnode 0 (by decide) (by decide) (by decide) htree (by decide)).1
  rw [h]
  decide +kernel

end ZfsForensic
