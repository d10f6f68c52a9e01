import ZfsForensic.Lib.Sparse
import ZfsForensic.Theorems.BlockTree
import ZfsForensic.Theorems.Holes
import ZfsForensic.VfsOps

/-!
# Reported extents and the blocks that are read

The extents of an object come from an expansion of its tree level by level, its contents from one descent per block id. The
expansion reads the pointers of an indirect block in the byte order that the pointer to it states, the descent reads them in that
of the dnode, and only the descent refuses block ids past `dn_maxblkid`. Where the two orders read the same pointers, the
expansion lists exactly the pointers the digits of a block id lead to; where they do not, it may list none of them.
-/

namespace ZfsForensic

open Octets Checked Checked.Run

/-- Whether an extent names a level-0 pointer: it is no hole, it is not embedded, and its first copy is not empty. -/
def Blkptr.reported (bp : Blkptr) : Bool := !bp.isHole && bp.addressable

/-- The pointers that are no holes so many levels below `dn_blkptr[]`, as the object's byte order reads them. -/
def levelPtrs (disk : Disk) (d : Dnode) (k : Nat) : List Blkptr := Sparse.level Blkptr.isHole (childPtrs disk d) d.blkptrs k

/-- The pointers in the block a pointer names, in the byte order it states; none where the block does not read. -/
def statedPtrs (disk : Disk) (bp : Blkptr) : List Blkptr :=
  match disk bp with
  | .error _ => []
  | .ok block => (blkptrChunks block.data).map (fun chunk => Blkptr.parse chunk bp.byteorder)

theorem childPtrs_of_read {disk : Disk} {bp : Blkptr} {block : Block} (h : disk bp = .ok block) (d : Dnode) :
    childPtrs disk d bp = (blkptrChunks block.data).map (Blkptr.parse · d.endian) := by
  rw [childPtrs, h, blkptrChunks, List.map_map]
  rfl

theorem statedPtrs_of_read {disk : Disk} {bp : Blkptr} {block : Block} (h : disk bp = .ok block) :
    statedPtrs disk bp = (blkptrChunks block.data).map (Blkptr.parse · bp.byteorder) := by
  rw [statedPtrs, h]

/-- Whether both byte orders read the same pointers, holes apart, in the block a pointer names. -/
def OrdersAgree (disk : Disk) (d : Dnode) (bp : Blkptr) : Prop :=
  Sparse.present Blkptr.isHole (statedPtrs disk bp) = Sparse.present Blkptr.isHole (childPtrs disk d bp)

/-- The pointers that reads of the block ids of an object resolve to, in order of block id. -/
def resolvedPtrs (disk : Disk) (d : Dnode) : List Blkptr :=
  (List.range (d.dnMaxblkid.toNat + 1)).filterMap fun n => (resolveBlkptr disk d (UInt64.ofNat n)).value.toOption

/-- The pointers that the digits of every number below the size of the tree lead to, whatever `dn_maxblkid` says. -/
def wholeTreePtrs (disk : Disk) (d : Dnode) : List Blkptr :=
  (List.range (d.blkptrs.length * d.ptrsPerIndirect ^ d.topLevel)).filterMap fun n =>
    (topWith Except.ok disk d n).toOption

/-- The trees an extent listing is asked about: their levels and shifts in range, every pointer above level 0 that is no hole
read as one full indirect block, and no level over the cap of the listing. -/
structure ExtentTree (disk : Disk) (d : Dnode) : Prop where
  levels : 1 ≤ d.dnNlevels.toNat ∧ d.dnNlevels.toNat ≤ 8
  shift : 7 ≤ d.dnIndblkshift.toNat ∧ d.dnIndblkshift.toNat ≤ 24
  fit : (d.dnIndblkshift.toNat - 7) * (d.dnNlevels.toNat - 1) < 64
  reads : ∀ k < d.dnNlevels.toNat - 1, ∀ bp ∈ levelPtrs disk d k,
    ∃ block, disk bp = .ok block ∧ block.data.length = 1 <<< d.dnIndblkshift.toNat
  cap : ∀ k < d.dnNlevels.toNat, (levelPtrs disk d k).length ≤ maxRuns

theorem Blkptr.reported_of_isHole {bp : Blkptr} (h : bp.isHole = true) : bp.reported = false := by
  rw [reported, h]
  rfl

/-- A hole has no copy, so the listing's filter drops it as well. -/
theorem Blkptr.addressable_eq_reported (bp : Blkptr) : bp.addressable = bp.reported := by
  rw [reported]
  cases hhole : bp.isHole with
  | false => rfl
  | true =>
    have hall : bp.dvas.toList.all Dva.isEmpty = true := by
      rw [isHole, Bool.and_eq_true] at hhole
      exact hhole.2
    have hfirst : (bp.dvas.get 0).isEmpty = true :=
      List.all_eq_true.1 hall _ (List.mem_of_getElem? (i := 0) (by simp [Vector.get]))
    rw [addressable, hfirst, Bool.not_true, Bool.and_false, Bool.false_and]

theorem ptrsPerIndirect_pos (d : Dnode) : 0 < d.ptrsPerIndirect := by
  rw [Dnode.ptrsPerIndirect_eq]
  exact Nat.pow_pos (by omega)

namespace ExtentTree

variable {disk : Disk} {d : Dnode} (h : ExtentTree disk d)

include h

theorem topLevel : d.topLevel = d.dnNlevels.toNat - 1 := by
  have hlevels := h.levels
  rw [Dnode.topLevel_eq]
  omega

theorem shiftsFit : d.ShiftsFit := by
  have hshift := h.shift
  have hlevel : d.levelShift.toNat = d.dnIndblkshift.toNat - 7 := by
    rw [Dnode.levelShift_toNat]
    omega
  rw [Dnode.ShiftsFit, h.topLevel, hlevel, Nat.mul_comm]
  exact h.fit

theorem nlevels_ne_zero : d.dnNlevels ≠ 0 := by
  intro hz
  have hlevels := h.levels.1
  rw [hz] at hlevels
  exact absurd hlevels (by decide)

/-- One indirect block holds the full count of pointers. -/
theorem blockSize : 1 <<< d.dnIndblkshift.toNat = d.ptrsPerIndirect * blkptrSize := by
  obtain ⟨hlo, hhi⟩ := h.shift
  have hsplit : d.dnIndblkshift.toNat = min d.dnIndblkshift.toNat 24 - 7 + 7 := by omega
  have hptr : blkptrSize = 2 ^ 7 := rfl
  rw [Dnode.ptrsPerIndirect_eq, hptr, ← Nat.pow_add, ← hsplit, Nat.one_shiftLeft]

theorem read {k : Nat} (hk : k < d.topLevel) {bp : Blkptr} (hbp : bp ∈ levelPtrs disk d k) :
    ∃ block, disk bp = .ok block ∧ block.data.length = d.ptrsPerIndirect * blkptrSize := by
  rw [← h.blockSize]
  exact h.reads k (by rwa [h.topLevel] at hk) bp hbp

theorem length_children {k : Nat} (hk : k < d.topLevel) {bp : Blkptr} (hbp : bp ∈ levelPtrs disk d k) :
    (childPtrs disk d bp).length = d.ptrsPerIndirect := by
  obtain ⟨block, hread, hlen⟩ := h.read hk hbp
  exact length_childPtrs hread hlen

end ExtentTree

/-! ## The descent -/

/-- The pointers of the tree, where a hole stands for a whole subtree of holes. -/
def paddedPtrs (disk : Disk) (d : Dnode) (bp : Blkptr) : List Blkptr :=
  Sparse.padded Blkptr.isHole (childPtrs disk d) d.ptrsPerIndirect bp

/-- The pointers of the tree at level 0, in order of block id. -/
def forestPtrs (disk : Disk) (d : Dnode) : List Blkptr := d.blkptrs.flatMap (Radix.leaves (paddedPtrs disk d) d.topLevel)

/-- From a pointer that is no hole, the descent ends where the digits lead in the padded tree. -/
theorem ExtentTree.walkWith_eq_follow {disk : Disk} {d : Dnode} (h : ExtentTree disk d) (n : Nat) {level k : Nat}
    (hlevel : k + level = d.topLevel) {bp : Blkptr} (hbp : bp ∈ levelPtrs disk d k) :
    ∃ leaf, Radix.follow (paddedPtrs disk d) d.ptrsPerIndirect level n bp = some leaf ∧
      walkWith Except.ok disk d n level bp = .ok leaf := by
  induction level generalizing k bp with
  | zero => exact ⟨bp, rfl, rfl⟩
  | succ level ih =>
    obtain ⟨block, hread, hlen⟩ := h.read (by omega) hbp
    have hpresent : bp.isHole = false := Sparse.absent_of_mem_level hbp
    have hdigit : d.digit n level < d.ptrsPerIndirect := by
      rw [Dnode.digit_eq]
      exact Nat.mod_lt _ (ptrsPerIndirect_pos d)
    have hfit : d.digit n level * blkptrSize + blkptrSize ≤ block.data.length := by
      rw [hlen, ← Nat.succ_mul]
      exact Nat.mul_le_mul_right _ hdigit
    obtain ⟨child, hchild⟩ : ∃ child,
        slice? block.data (d.digit n level * blkptrSize) (d.digit n level * blkptrSize + blkptrSize) = some child :=
      ⟨_, slice?_of_le (Nat.le_add_right _ _) hfit⟩
    have hget : (childPtrs disk d bp)[d.digit n level]? = some (Blkptr.parse child d.endian) := by
      rw [getElem?_childPtrs hread, hchild]
      rfl
    have hfollow : Radix.follow (paddedPtrs disk d) d.ptrsPerIndirect (level + 1) n bp =
        Radix.follow (paddedPtrs disk d) d.ptrsPerIndirect level n (Blkptr.parse child d.endian) := by
      rw [Radix.follow, paddedPtrs, Sparse.padded_of_present hpresent, ← Dnode.digit_eq, hget, Option.bind_some]
    rw [hfollow, walkWith, hread]
    dsimp only
    rw [hchild]
    dsimp only
    cases hhole : (Blkptr.parse child d.endian).isHole with
    | true =>
      -- the descent stops at a hole, and in the padded tree every leaf below it is that hole
      exact ⟨_, Sparse.follow_of_absent (ptrsPerIndirect_pos d) hhole level n, rfl⟩
    | false =>
      have hnext := Sparse.mem_level_succ hbp (List.mem_of_getElem? hget) hhole
      exact ih (by omega) hnext

/-- From a hole above level 0 it ends at no pointer that is reported. -/
theorem walkWith_of_isHole (Γ : Ctx) (image : Bytes) {d : Dnode} {bp leaf : Blkptr} (n level : Nat) (hhole : bp.isHole = true)
    (hwalk : walkWith Except.ok (readBlock Γ image) d n (level + 1) bp = .ok leaf) : leaf.isHole = true := by
  rw [walkWith] at hwalk
  by_cases hle : bp.lsizeBytes ≤ maxBlockSize
  · rw [readBlock_of_isHole Γ image hhole hle] at hwalk
    dsimp only at hwalk
    by_cases hfit : d.digit n level * blkptrSize + blkptrSize ≤ bp.lsizeBytes
    · obtain ⟨hzero, -⟩ := parse_zeros_isHole d.endian
      rw [slice?_zeros (Nat.le_add_right _ _) hfit, Nat.add_sub_cancel_left] at hwalk
      dsimp only at hwalk
      rw [if_pos hzero] at hwalk
      rwa [← Except.ok.inj hwalk]
    · rw [slice?_eq_none_of_lt (by rw [length_zeros]; omega)] at hwalk
      exact absurd hwalk (by simp)
  · rw [readBlock_of_lt_lsize Γ image (Nat.not_le.1 hle)] at hwalk
    exact absurd hwalk (by simp)

/-- The padded tree is full. -/
theorem ExtentTree.full {disk : Disk} {d : Dnode} (h : ExtentTree disk d) (bp : Blkptr) (hbp : bp ∈ d.blkptrs) :
    Radix.Full (paddedPtrs disk d) d.ptrsPerIndirect d.topLevel bp := by
  refine Sparse.full_of_level (fun k hk bp' hbp' => h.length_children hk hbp') (k := 0) (Nat.zero_add _) ?_
  cases hhole : bp.isHole with
  | true => exact Or.inl rfl
  | false => exact Or.inr (Sparse.mem_present.2 ⟨hbp, hhole⟩)

/-- The pointer the digits of a number lead to is the one at that place of the tree, as far as it is reported. -/
theorem ExtentTree.topWith_reported {Γ : Ctx} {image : Bytes} {d : Dnode} (h : ExtentTree (readBlock Γ image) d) (n : Nat) :
    (topWith Except.ok (readBlock Γ image) d n).toOption.filter Blkptr.reported =
      ((forestPtrs (readBlock Γ image) d)[n]?).filter Blkptr.reported := by
  have hpow : d.ptrsPerIndirect ^ d.topLevel = 2 ^ (d.topLevel * d.levelShift.toNat) := by
    rw [Dnode.ptrsPerIndirect_eq_two_pow, ← Nat.pow_mul, Nat.mul_comm]
  rw [forestPtrs, Radix.getElem?_forest (ptrsPerIndirect_pos d) h.full, topWith, ← hpow]
  cases hroot : d.blkptrs[n / d.ptrsPerIndirect ^ d.topLevel]? with
  | none => rfl
  | some bp =>
    have hmem := List.mem_of_getElem? hroot
    dsimp only [Option.bind_some]
    cases hhole : bp.isHole with
    | false =>
      have hlevel : bp ∈ levelPtrs (readBlock Γ image) d 0 := Sparse.mem_present.2 ⟨hmem, hhole⟩
      obtain ⟨leaf, hfollow, hwalk⟩ := h.walkWith_eq_follow n (Nat.zero_add _) hlevel
      rw [hfollow, hwalk]
      rfl
    | true =>
      have hfollow : Radix.follow (paddedPtrs (readBlock Γ image) d) d.ptrsPerIndirect d.topLevel n bp = some bp :=
        Sparse.follow_of_absent (ptrsPerIndirect_pos d) hhole _ n
      rw [hfollow, Option.filter_some, Blkptr.reported_of_isHole hhole, if_neg (by decide)]
      cases hwalk : walkWith Except.ok (readBlock Γ image) d n d.topLevel bp with
      | error e => rfl
      | ok leaf =>
        have hleaf : leaf.isHole = true := by
          cases htop : d.topLevel with
          | zero =>
            rw [htop, walkWith] at hwalk
            rwa [← Except.ok.inj hwalk]
          | succ level =>
            rw [htop] at hwalk
            exact walkWith_of_isHole Γ image n level hhole hwalk
        rw [Except.toOption, Option.filter_some, Blkptr.reported_of_isHole hleaf, if_neg (by decide)]

/-- A list, element by element. -/
theorem filterMap_range_getElem? {α : Type} (l : List α) (n : Nat) : (List.range n).filterMap (fun i => l[i]?) = l.take n := by
  induction n with
  | zero => rfl
  | succ n ih =>
    rw [List.range_succ, List.filterMap_append, ih, List.take_add_one, List.filterMap_cons, List.filterMap_nil]
    cases l[n]? <;> rfl

/-- The reported pointers among the first places of the tree. -/
theorem ExtentTree.filter_topWith {Γ : Ctx} {image : Bytes} {d : Dnode} (h : ExtentTree (readBlock Γ image) d) (n : Nat) :
    ((List.range n).filterMap fun i => (topWith Except.ok (readBlock Γ image) d i).toOption).filter Blkptr.reported =
      ((forestPtrs (readBlock Γ image) d).take n).filter Blkptr.reported := by
  rw [← filterMap_range_getElem?, List.filter_filterMap, List.filter_filterMap]
  exact List.filterMap_congr fun i _ => h.topWith_reported i

/-- The reads of an object's block ids resolve to the first pointers of its tree, as far as they are reported. -/
theorem ExtentTree.filter_resolvedPtrs {Γ : Ctx} {image : Bytes} {d : Dnode} (h : ExtentTree (readBlock Γ image) d) :
    (resolvedPtrs (readBlock Γ image) d).filter Blkptr.reported =
      ((forestPtrs (readBlock Γ image) d).take (d.dnMaxblkid.toNat + 1)).filter Blkptr.reported := by
  rw [← h.filter_topWith, resolvedPtrs]
  congr 1
  refine List.filterMap_congr fun n hn => ?_
  have hlt := List.mem_range.1 hn
  have hmax := d.dnMaxblkid.toNat_lt
  have hnat : (UInt64.ofNat n).toNat = n := by
    rw [UInt64.toNat_ofNat']
    omega
  have hle : UInt64.ofNat n ≤ d.dnMaxblkid := by
    rw [UInt64.le_iff_toNat_le, hnat]
    omega
  rw [resolveBlkptr, resolveWith_eq Except.ok _ h.nlevels_ne_zero hle h.shiftsFit, hnat]
  rfl

/-- The reported pointers of the tree are those of its last level. -/
theorem filter_forestPtrs (disk : Disk) (d : Dnode) :
    (forestPtrs disk d).filter Blkptr.reported = (levelPtrs disk d d.topLevel).filter Blkptr.reported :=
  Sparse.filter_forest (fun _ => Blkptr.reported_of_isHole) d.blkptrs d.topLevel

/-- Over the whole tree the digits lead to all of them. -/
theorem ExtentTree.filter_wholeTreePtrs {Γ : Ctx} {image : Bytes} {d : Dnode} (h : ExtentTree (readBlock Γ image) d) :
    (wholeTreePtrs (readBlock Γ image) d).filter Blkptr.reported =
      (levelPtrs (readBlock Γ image) d d.topLevel).filter Blkptr.reported := by
  have hlen : (forestPtrs (readBlock Γ image) d).length = d.blkptrs.length * d.ptrsPerIndirect ^ d.topLevel := by
    rw [forestPtrs, Radix.length_flatMap (fun bp hbp => Radix.length_leaves (h.full bp hbp)), Nat.mul_comm]
  rw [wholeTreePtrs, h.filter_topWith, List.take_of_length_le hlen.le, filter_forestPtrs]

/-- The reads resolve to every reported pointer of the tree exactly where none stands past the last block id. -/
theorem ExtentTree.resolvedPtrs_iff {Γ : Ctx} {image : Bytes} {d : Dnode} (h : ExtentTree (readBlock Γ image) d) :
    (levelPtrs (readBlock Γ image) d d.topLevel).filter Blkptr.reported =
        (resolvedPtrs (readBlock Γ image) d).filter Blkptr.reported ↔
      ∀ n, d.dnMaxblkid.toNat < n → ∀ bp, topWith Except.ok (readBlock Γ image) d n = .ok bp → bp.reported = false := by
  have hsplit := List.take_append_drop (d.dnMaxblkid.toNat + 1) (forestPtrs (readBlock Γ image) d)
  have hfilter := congrArg (List.filter Blkptr.reported) hsplit
  rw [List.filter_append] at hfilter
  rw [h.filter_resolvedPtrs, ← filter_forestPtrs, ← hfilter, List.append_right_eq_self, List.filter_eq_nil_iff]
  constructor
  · intro hpast n hn bp hbp
    have hplace := h.topWith_reported n
    rw [hbp, Except.toOption, Option.filter_some] at hplace
    cases hreported : bp.reported with
    | false => rfl
    | true =>
      rw [if_pos hreported] at hplace
      obtain ⟨hget, -⟩ := Option.filter_eq_some_iff.1 hplace.symm
      have hdrop : ((forestPtrs (readBlock Γ image) d).drop (d.dnMaxblkid.toNat + 1))[n - (d.dnMaxblkid.toNat + 1)]? = some bp := by
        rw [List.getElem?_drop, Nat.add_sub_cancel' (by omega)]
        exact hget
      exact absurd hreported (hpast bp (List.mem_of_getElem? hdrop))
  · intro hpast bp hbp hreported
    obtain ⟨i, hget⟩ := List.getElem?_of_mem hbp
    rw [List.getElem?_drop] at hget
    have hplace := h.topWith_reported (d.dnMaxblkid.toNat + 1 + i)
    rw [hget, Option.filter_some, if_pos hreported] at hplace
    obtain ⟨hwalk, -⟩ := Option.filter_eq_some_iff.1 hplace
    cases htop : topWith Except.ok (readBlock Γ image) d (d.dnMaxblkid.toNat + 1 + i) with
    | error e =>
      rw [htop] at hwalk
      cases hwalk
    | ok leaf =>
      rw [htop] at hwalk
      obtain rfl := Option.some.inj hwalk
      exact absurd hreported (by rw [hpast _ (by omega) _ htop]; decide)

/-! ## The expansion -/

/-- The pointers of one block are appended, the holes apart, where they fit under the cap. -/
theorem pushChildren_eq (e : Endian) (chunks : List Bytes) (next : List Blkptr)
    (hcap : (next ++ Sparse.present Blkptr.isHole (chunks.map (Blkptr.parse · e))).length ≤ maxRuns) :
    pushChildren e chunks next = next ++ Sparse.present Blkptr.isHole (chunks.map (Blkptr.parse · e)) := by
  induction chunks generalizing next with
  | nil => exact (List.append_nil next).symm
  | cons chunk chunks ih =>
    rw [pushChildren]
    by_cases hfull : maxRuns ≤ next.length
    · have hrest : Sparse.present Blkptr.isHole ((chunk :: chunks).map (Blkptr.parse · e)) = [] := by
        rw [List.length_append] at hcap
        exact List.eq_nil_of_length_eq_zero (by omega)
      rw [if_pos hfull, hrest, List.append_nil]
    · rw [if_neg hfull]
      dsimp only
      rw [List.map_cons] at hcap ⊢
      cases hhole : (Blkptr.parse chunk e).isHole with
      | true =>
        rw [Sparse.present_cons_of_absent hhole] at hcap ⊢
        exact ih next hcap
      | false =>
        have hmove := List.append_cons next (Blkptr.parse chunk e)
          (Sparse.present Blkptr.isHole (chunks.map (Blkptr.parse · e)))
        rw [Sparse.present_cons_of_present hhole, hmove] at hcap ⊢
        exact ih (next ++ [Blkptr.parse chunk e]) hcap

/-- A level is expanded to the pointers of its blocks, the holes apart, where they fit under the cap. -/
theorem expandLevel_eq (disk : Disk) (ptrs next : List Blkptr)
    (hcap : (next ++ Sparse.present Blkptr.isHole (ptrs.flatMap (statedPtrs disk))).length ≤ maxRuns) :
    expandLevel disk ptrs next = next ++ Sparse.present Blkptr.isHole (ptrs.flatMap (statedPtrs disk)) := by
  induction ptrs generalizing next with
  | nil => exact (List.append_nil next).symm
  | cons bp ptrs ih =>
    rw [expandLevel]
    by_cases hfull : maxRuns ≤ next.length
    · have hrest : Sparse.present Blkptr.isHole ((bp :: ptrs).flatMap (statedPtrs disk)) = [] := by
        rw [List.length_append] at hcap
        exact List.eq_nil_of_length_eq_zero (by omega)
      rw [if_pos hfull, hrest, List.append_nil]
    · rw [if_neg hfull]
      rw [List.flatMap_cons, Sparse.present_append, ← List.append_assoc] at hcap ⊢
      cases hread : disk bp with
      | error e =>
        have hnone : statedPtrs disk bp = [] := by rw [statedPtrs, hread]
        rw [hnone] at hcap ⊢
        have hnext : next ++ Sparse.present Blkptr.isHole [] = next := List.append_nil next
        rw [hnext] at hcap ⊢
        exact ih next hcap
      | ok block =>
        rw [statedPtrs_of_read hread] at hcap ⊢
        dsimp only
        rw [pushChildren_eq bp.byteorder _ next (by rw [List.length_append] at hcap; omega)]
        exact ih _ hcap

/-- Where both byte orders read the same pointers, the expansion of a level is the level below it. -/
theorem expandLevel_levelPtrs {disk : Disk} {d : Dnode} {k : Nat}
    (hagree : ∀ bp ∈ levelPtrs disk d k, OrdersAgree disk d bp) (hcap : (levelPtrs disk d (k + 1)).length ≤ maxRuns) :
    expandLevel disk (levelPtrs disk d k) [] = levelPtrs disk d (k + 1) := by
  have hsame (ptrs : List Blkptr) (hptrs : ∀ bp ∈ ptrs, OrdersAgree disk d bp) :
      Sparse.present Blkptr.isHole (ptrs.flatMap (statedPtrs disk)) =
        Sparse.present Blkptr.isHole (ptrs.flatMap (childPtrs disk d)) := by
    induction ptrs with
    | nil => rfl
    | cons bp ptrs ih =>
      rw [List.flatMap_cons, List.flatMap_cons, Sparse.present_append, Sparse.present_append, hptrs bp List.mem_cons_self,
        ih fun bp' hbp' => hptrs bp' (List.mem_cons_of_mem bp hbp')]
  have hnext : levelPtrs disk d (k + 1) = Sparse.present Blkptr.isHole ((levelPtrs disk d k).flatMap (statedPtrs disk)) :=
    (hsame _ hagree).symm
  rw [hnext] at hcap ⊢
  exact expandLevel_eq disk _ [] hcap

/-- A pointer that states the byte order of the dnode has its block read in that order. -/
theorem ordersAgree_of_byteorder (disk : Disk) {d : Dnode} {bp : Blkptr} (h : bp.byteorder = d.endian) : OrdersAgree disk d bp := by
  have hsame : statedPtrs disk bp = childPtrs disk d bp := by
    rw [statedPtrs, childPtrs, h]
    cases disk bp with
    | error e => rfl
    | ok block =>
      dsimp only
      rw [blkptrChunks, List.map_map]
      rfl
  rw [OrdersAgree, hsame]

/-- So the expansion from one level on ends at the last level. -/
theorem expandLevels_levelPtrs {disk : Disk} {d : Dnode} {n k : Nat}
    (hagree : ∀ j, j < k + n → ∀ bp ∈ levelPtrs disk d j, OrdersAgree disk d bp)
    (hcap : ∀ j, j ≤ k + n → (levelPtrs disk d j).length ≤ maxRuns) :
    expandLevels disk n (levelPtrs disk d k) = levelPtrs disk d (k + n) := by
  induction n generalizing k with
  | zero => rfl
  | succ n ih =>
    have hnext : expandLevel disk (levelPtrs disk d k) [] = levelPtrs disk d (k + 1) :=
      expandLevel_levelPtrs (hagree k (by omega)) (hcap (k + 1) (by omega))
    have hsum : k + (n + 1) = k + 1 + n := by omega
    rw [hsum] at hagree hcap ⊢
    rw [expandLevels, ← ih hagree hcap, ← hnext]
    split
    · rename_i hempty
      rw [hempty, expandLevel]
      cases n with
      | zero => rfl
      | succ n => rw [expandLevels, if_pos rfl]
    · rfl

/-- Where both byte orders read the same pointers, the listing is that of the last level of the tree. -/
theorem ExtentTree.l0Blkptrs_eq {disk : Disk} {d : Dnode} (h : ExtentTree disk d)
    (hagree : ∀ k < d.dnNlevels.toNat - 1, ∀ bp ∈ levelPtrs disk d k, OrdersAgree disk d bp) :
    l0Blkptrs disk d = (levelPtrs disk d d.topLevel).filter Blkptr.reported := by
  have htop := h.topLevel
  have hlevels := h.levels.1
  have hfirst : (d.blkptrs.filter (fun b => !b.isHole)).take maxRuns = levelPtrs disk d 0 :=
    List.take_of_length_le (h.cap 0 (by omega))
  have hlast : expandLevels disk d.topLevel (levelPtrs disk d 0) = levelPtrs disk d d.topLevel := by
    have hexpand : expandLevels disk d.topLevel (levelPtrs disk d 0) = levelPtrs disk d (0 + d.topLevel) :=
      expandLevels_levelPtrs (fun j hj => hagree j (by omega)) (fun j hj => h.cap j (by omega))
    rwa [Nat.zero_add] at hexpand
  have hfilter : Blkptr.addressable = Blkptr.reported := funext Blkptr.addressable_eq_reported
  rw [← hlast, ← hfirst, ← hfilter]
  rfl

/-- Where, in every block above level 0, the byte order its pointer states reads the same pointers as that of the dnode, the
listing is the reported pointers of the whole tree in order of block id, and those that reads resolve to exactly where none of
them stands past `dn_maxblkid`. -/
theorem extents_are_blocks_read (Γ : Ctx) (image : Bytes) (d : Dnode) (h : ExtentTree (readBlock Γ image) d)
    (hagree : ∀ k < d.dnNlevels.toNat - 1, ∀ bp ∈ levelPtrs (readBlock Γ image) d k,
      bp.byteorder = d.endian ∨ OrdersAgree (readBlock Γ image) d bp) :
    l0Blkptrs (readBlock Γ image) d = (wholeTreePtrs (readBlock Γ image) d).filter Blkptr.reported ∧
      (l0Blkptrs (readBlock Γ image) d = (resolvedPtrs (readBlock Γ image) d).filter Blkptr.reported ↔
        ∀ n, d.dnMaxblkid.toNat < n → ∀ bp, topWith Except.ok (readBlock Γ image) d n = .ok bp → bp.reported = false) := by
  have hlist := h.l0Blkptrs_eq fun k hk bp hbp => (hagree k hk bp hbp).elim (ordersAgree_of_byteorder _) id
  rw [hlist]
  exact ⟨h.filter_wholeTreePtrs.symm, h.resolvedPtrs_iff⟩

/-! ## One indirect block, stated in either byte order

A little-endian dnode of two levels. Its inline indirect block of four pointers begins with a 1 and is zeros else, so that its first
pointer names a sector when it is read little-endian and is a hole when it is read big-endian. -/

/-- The little-endian bytes of a pointer to that block which states the big-endian order. -/
def foreignPtr : Vector UInt8 128 :=
  ⟨([1] ++ zeros 47 ++ encode .little 8 0x00000082de0001ff ++ zeros 72).toArray, by simp⟩

/-- The dnode whose pointer states the big-endian order, and the one whose pointer states its own. -/
def indirectDnode (foreign : Bool) : Dnode :=
  { (default : Dnode) with
    dnNlevels := 2
    dnIndblkshift := 9
    dnDatablkszsec := 1
    dnMaxblkid := 3
    blkptrs := [Blkptr.parse (if foreign then foreignPtr else inlinePtr (padTo 112 [1]) 512).toList .little] }

/-- The pointer of block 0, as the dnode reads it. -/
def sectorChild : Blkptr := Blkptr.parse ([1] ++ zeros 127) .little

/-- The pointer of the dnode, and the four of its block, of which all but the first are zeros. The first is a hole in one order and
none in the other. -/
theorem decode_indirectDnode :
    (∀ foreign, ∀ bp ∈ (indirectDnode foreign).blkptrs, bp.embedded = true ∧ bp.isHole = false ∧
        bp.byteorder = (if foreign then .big else .little) ∧ readBlock plainCtx [] bp = .ok ⟨[1] ++ zeros 511, none, 0⟩) ∧
      blkptrChunks ([1] ++ zeros 511) = [[1] ++ zeros 127, zeros 128, zeros 128, zeros 128] ∧
      sectorChild.isHole = false ∧ sectorChild.reported = true ∧ (Blkptr.parse ([1] ++ zeros 127) .big).isHole = true := by
  decide +kernel

/-- The block is inline, so every image has it. -/
theorem readBlock_indirectDnode (image : Bytes) (foreign : Bool) :
    ∀ bp ∈ (indirectDnode foreign).blkptrs, readBlock plainCtx image bp = .ok ⟨[1] ++ zeros 511, none, 0⟩ := by
  intro bp hbp
  obtain ⟨hembedded, -, -, hempty⟩ := decode_indirectDnode.1 foreign bp hbp
  rw [← hempty]
  simp only [readBlock, readBlockWith, hembedded, if_true]

/-- The pointer of the dnode is no hole. -/
theorem isHole_indirectDnode (foreign : Bool) : ∀ bp ∈ (indirectDnode foreign).blkptrs, bp.isHole = false :=
  fun bp hbp => (decode_indirectDnode.1 foreign bp hbp).2.1

/-- All pointers of the block but the first are holes, in either order. -/
theorem present_sector (e : Endian) :
    Sparse.present Blkptr.isHole ((blkptrChunks ([1] ++ zeros 511)).map (Blkptr.parse · e)) =
      Sparse.present Blkptr.isHole [Blkptr.parse ([1] ++ zeros 127) e] := by
  have hzero : (Blkptr.parse (zeros 128) e).isHole = true := (parse_zeros_isHole e).1
  rw [decode_indirectDnode.2.1]
  simp only [List.map_cons, List.map_nil, Sparse.present, List.filter_cons, hzero, Bool.not_true, Bool.false_eq_true, if_false]

/-- The pointers of the block, in the order of the dnode. -/
theorem levelPtrs_indirectDnode (image : Bytes) (foreign : Bool) :
    levelPtrs (readBlock plainCtx image) (indirectDnode foreign) 0 = (indirectDnode foreign).blkptrs ∧
      levelPtrs (readBlock plainCtx image) (indirectDnode foreign) 1 = [sectorChild] := by
  have htop : levelPtrs (readBlock plainCtx image) (indirectDnode foreign) 0 = (indirectDnode foreign).blkptrs :=
    List.filter_eq_self.2 fun bp hbp => by rw [isHole_indirectDnode foreign bp hbp]; rfl
  have hchildren : ∀ bp ∈ (indirectDnode foreign).blkptrs,
      Sparse.present Blkptr.isHole (childPtrs (readBlock plainCtx image) (indirectDnode foreign) bp) = [sectorChild] := by
    intro bp hbp
    have hendian : (indirectDnode foreign).endian = .little := rfl
    rw [childPtrs_of_read (readBlock_indirectDnode image foreign bp hbp), hendian, present_sector]
    exact Sparse.present_cons_of_present decode_indirectDnode.2.2.1 []
  refine ⟨htop, ?_⟩
  have hnext : levelPtrs (readBlock plainCtx image) (indirectDnode foreign) 1 = Sparse.present Blkptr.isHole
      ((levelPtrs (readBlock plainCtx image) (indirectDnode foreign) 0).flatMap
        (childPtrs (readBlock plainCtx image) (indirectDnode foreign))) := rfl
  rw [hnext, htop, indirectDnode, List.flatMap_singleton]
  exact hchildren _ List.mem_cons_self

theorem extentTree_indirectDnode (image : Bytes) (foreign : Bool) :
    ExtentTree (readBlock plainCtx image) (indirectDnode foreign) := by
  obtain ⟨htop, hnext⟩ := levelPtrs_indirectDnode image foreign
  have hlevels : (indirectDnode foreign).dnNlevels.toNat = 2 := rfl
  have hshift : (indirectDnode foreign).dnIndblkshift.toNat = 9 := rfl
  have hroots : (indirectDnode foreign).blkptrs.length = 1 := rfl
  have hruns : maxRuns = 65536 := rfl
  refine ⟨by omega, by omega, by rw [hlevels, hshift]; decide, ?_, ?_⟩
  · intro k hk bp hbp
    obtain rfl : k = 0 := by omega
    rw [htop] at hbp
    refine ⟨_, readBlock_indirectDnode image foreign bp hbp, ?_⟩
    rw [hshift, List.length_append, length_zeros]
    rfl
  · intro k hk
    rw [hlevels] at hk
    interval_cases k
    · have hlen := congrArg List.length htop
      omega
    · have hlen := congrArg List.length hnext
      rw [List.length_singleton] at hlen
      omega

/-- No block id past the last one leads to a pointer. -/
theorem topWith_indirectDnode (disk : Disk) (foreign : Bool) (n : Nat) (hn : (indirectDnode foreign).dnMaxblkid.toNat < n)
    (bp : Blkptr) : topWith Except.ok disk (indirectDnode foreign) n ≠ .ok bp := by
  have hmax : (indirectDnode foreign).dnMaxblkid.toNat = 3 := rfl
  have hpow : 2 ^ ((indirectDnode foreign).topLevel * (indirectDnode foreign).levelShift.toNat) = 4 := by
    cases foreign <;> decide
  have hnone : (indirectDnode foreign).blkptrs[n / 4]? = none := by
    refine List.getElem?_eq_none ?_
    have hlen : (indirectDnode foreign).blkptrs.length = 1 := rfl
    omega
  rw [topWith, hpow, hnone]
  simp

/-- The listing of the dnode whose pointer states the other order is empty, and its block 0 is read from the sector its first pointer
names. -/
theorem extents_of_foreign_order :
    ExtentTree (readBlock plainCtx []) (indirectDnode true) ∧
      l0Blkptrs (readBlock plainCtx []) (indirectDnode true) = [] ∧
      (resolvedPtrs (readBlock plainCtx []) (indirectDnode true)).filter Blkptr.reported = [sectorChild] ∧
      (wholeTreePtrs (readBlock plainCtx []) (indirectDnode true)).filter Blkptr.reported = [sectorChild] := by
  have htree := extentTree_indirectDnode [] true
  have htop : (indirectDnode true).topLevel = 1 := by decide
  obtain ⟨hpointer, -, -, hreported, hforeign⟩ := decode_indirectDnode
  have hsector : [sectorChild].filter Blkptr.reported = [sectorChild] := by
    rw [List.filter_cons_of_pos hreported, List.filter_nil]
  have hlast := (levelPtrs_indirectDnode [] true).2
  refine ⟨htree, ?_, ?_, ?_⟩
  · have hfirst : ((indirectDnode true).blkptrs.filter (fun b => !b.isHole)).take maxRuns = (indirectDnode true).blkptrs := by
      rw [List.filter_eq_self.2 fun bp hbp => by rw [isHole_indirectDnode true bp hbp]; rfl]
      exact List.take_of_length_le (by decide)
    have hstated : Sparse.present Blkptr.isHole ((indirectDnode true).blkptrs.flatMap (statedPtrs (readBlock plainCtx []))) =
        [] := by
      obtain ⟨-, -, horder, -⟩ := hpointer true (Blkptr.parse foreignPtr.toList .little) List.mem_cons_self
      rw [if_pos rfl] at horder
      have hread := readBlock_indirectDnode [] true (Blkptr.parse foreignPtr.toList .little) List.mem_cons_self
      rw [indirectDnode, if_pos rfl, List.flatMap_singleton, statedPtrs_of_read hread, horder]
      exact (present_sector .big).trans (Sparse.present_cons_of_absent hforeign [])
    have hexpand : expandLevel (readBlock plainCtx []) (indirectDnode true).blkptrs [] = [] := by
      rw [expandLevel_eq _ _ _ (by rw [hstated]; decide), hstated, List.append_nil]
    have hlevels : (min (indirectDnode true).dnNlevels maxIndirectLevels).toNat - 1 = 1 := htop
    rw [l0Blkptrs, hfirst, hlevels, expandLevels, if_neg (by decide), hexpand]
    rfl
  · have hpast := htree.resolvedPtrs_iff.2 fun n hn bp hbp => absurd hbp (topWith_indirectDnode _ true n hn bp)
    rw [← hpast, htop, hlast, hsector]
  · rw [htree.filter_wholeTreePtrs, htop, hlast, hsector]

/-- The listing of the dnode whose pointer states its own order is the sector its block 0 is read from. -/
theorem extents_of_own_order :
    ExtentTree (readBlock plainCtx []) (indirectDnode false) ∧
      (∀ k < (indirectDnode false).dnNlevels.toNat - 1, ∀ bp ∈ levelPtrs (readBlock plainCtx []) (indirectDnode false) k,
        bp.byteorder = (indirectDnode false).endian ∨ OrdersAgree (readBlock plainCtx []) (indirectDnode false) bp) ∧
      l0Blkptrs (readBlock plainCtx []) (indirectDnode false) =
        (resolvedPtrs (readBlock plainCtx []) (indirectDnode false)).filter Blkptr.reported := by
  have htree := extentTree_indirectDnode [] false
  have hagree : ∀ k < (indirectDnode false).dnNlevels.toNat - 1, ∀ bp ∈ levelPtrs (readBlock plainCtx []) (indirectDnode false) k,
      bp.byteorder = (indirectDnode false).endian ∨ OrdersAgree (readBlock plainCtx []) (indirectDnode false) bp := by
    intro k hk bp hbp
    have hlevels : (indirectDnode false).dnNlevels.toNat = 2 := rfl
    obtain rfl : k = 0 := by omega
    rw [(levelPtrs_indirectDnode [] false).1] at hbp
    exact Or.inl (decode_indirectDnode.1 false bp hbp).2.2.1
  refine ⟨htree, hagree, (extents_are_blocks_read plainCtx [] (indirectDnode false) htree hagree).2.2 ?_⟩
  exact fun n hn bp hbp => absurd hbp (topWith_indirectDnode _ false n hn bp)

end ZfsForensic
