import ZfsForensic.Lemmas.Walk
import ZfsForensic.Lib.Frontier
import ZfsForensic.VfsOps

/-!
# The gathering of extents on hostile trees

The extents of an object are gathered level by level. A block above level 0 may not read, may name itself, and may hold any
pointers. No level grows past the cap, and a pointer of a level has been reached through as many blocks as the level is deep, all
of which read.
-/

namespace ZfsForensic

open Frontier

/-- A pointer stands in the block that another one names: the block reads, and its bytes are parsed in the byte order that the
pointer to it states. -/
def StoredIn (disk : Disk) (parent child : Blkptr) : Prop :=
  ∃ block, disk parent = .ok block ∧ ∃ chunk ∈ blkptrChunks block.data, child = Blkptr.parse chunk parent.byteorder

/-- The pointers gathered so many levels below `dn_blkptr[]`. -/
def gatheredLevel (disk : Disk) (d : Dnode) : Nat → List Blkptr
  | 0 => (d.blkptrs.filter (fun b => !b.isHole)).take maxRuns
  | k + 1 => expandLevel disk (gatheredLevel disk d k) []

/-- A pointer that is no hole, reached from `dn_blkptr[]` through so many blocks. -/
def Gathered (disk : Disk) (d : Dnode) (k : Nat) (bp : Blkptr) : Prop :=
  bp.isHole = false ∧ Below (StoredIn disk) d.blkptrs k bp

/-! ## One level -/

/-- The pointers of one block are pushed up to the cap. -/
theorem kept_pushChildren {P : Blkptr → Prop} {e : Endian} {chunks : List Bytes} {next : List Blkptr} (h : Kept maxRuns P next)
    (hchunks : ∀ chunk ∈ chunks, (Blkptr.parse chunk e).isHole = false → P (Blkptr.parse chunk e)) :
    Kept maxRuns P (pushChildren e chunks next) := by
  induction chunks generalizing next with
  | nil => exact h
  | cons chunk chunks ih =>
    rw [pushChildren]
    have hrest := fun c hc => hchunks c (List.mem_cons_of_mem chunk hc)
    split
    · exact h
    · rename_i hroom
      dsimp only
      split
      · exact ih h hrest
      · rename_i hhole
        rw [Bool.not_eq_true] at hhole
        exact ih (h.push (Nat.lt_of_not_le hroom) (hchunks chunk List.mem_cons_self hhole)) hrest

/-- The pointers in the blocks of a level are pushed up to the cap, those of a block that does not read left out. -/
theorem kept_expandLevel {P : Blkptr → Prop} {disk : Disk} {ptrs next : List Blkptr} (h : Kept maxRuns P next)
    (hptrs : ∀ bp ∈ ptrs, ∀ child, StoredIn disk bp child → child.isHole = false → P child) :
    Kept maxRuns P (expandLevel disk ptrs next) := by
  induction ptrs generalizing next with
  | nil => exact h
  | cons bp ptrs ih =>
    rw [expandLevel]
    have hrest := fun b hb => hptrs b (List.mem_cons_of_mem bp hb)
    split
    · exact h
    · split
      · exact ih h hrest
      · rename_i block hread
        refine ih (kept_pushChildren h fun chunk hchunk hhole => ?_) hrest
        exact hptrs bp List.mem_cons_self _ ⟨block, hread, chunk, hchunk, rfl⟩ hhole

/-! ## All levels -/

/-- Every level is within the cap, and its pointers stand as many blocks below `dn_blkptr[]` as it is deep. -/
theorem kept_gatheredLevel (disk : Disk) (d : Dnode) (k : Nat) : Kept maxRuns (Gathered disk d k) (gatheredLevel disk d k) := by
  induction k with
  | zero =>
    refine ⟨List.length_take_le _ _, fun bp hbp => ?_⟩
    obtain ⟨hmem, hhole⟩ := List.mem_filter.1 (List.mem_of_mem_take hbp)
    rw [Bool.not_eq_true'] at hhole
    exact ⟨hhole, .of_mem hmem⟩
  | succ k ih =>
    refine kept_expandLevel (Kept.nil _ _) fun bp hbp child hchild hhole => ?_
    obtain ⟨-, hbelow⟩ := ih.all bp hbp
    exact ⟨hhole, hbelow.next hchild⟩

/-- The levels are those of the loop, which stops at the first that is empty. -/
theorem expandLevels_gatheredLevel (disk : Disk) (d : Dnode) (n k : Nat) :
    expandLevels disk n (gatheredLevel disk d k) = gatheredLevel disk d (k + n) := by
  induction n generalizing k with
  | zero => rfl
  | succ n ih =>
    have hnext : expandLevel disk (gatheredLevel disk d k) [] = gatheredLevel disk d (k + 1) := rfl
    have hdepth : k + (n + 1) = k + 1 + n := by omega
    rw [expandLevels, hdepth, ← ih, ← hnext]
    split
    · rename_i hempty
      rw [hempty, expandLevel]
      cases n with
      | zero => rfl
      | succ n => rw [expandLevels, if_pos rfl]
    · rfl

/-- The extents are the addressable pointers of the lowest level. -/
theorem l0Blkptrs_eq_gatheredLevel (disk : Disk) (d : Dnode) :
    l0Blkptrs disk d = (gatheredLevel disk d d.topLevel).filter Blkptr.addressable := by
  have hlast := expandLevels_gatheredLevel disk d d.topLevel 0
  rw [Nat.zero_add] at hlast
  rw [← hlast]
  rfl

/-- On every image and every dnode no level of the gathering holds more pointers than the cap, nor does the result. Its pointers are
no holes, are not embedded and have a first copy, and each is reached from a pointer of the dnode through one block for each level
above the lowest, all of which read. -/
theorem extents_bounded_and_reached (Γ : Ctx) (image : Bytes) (d : Dnode) :
    l0Blkptrs (readBlock Γ image) d =
        (gatheredLevel (readBlock Γ image) d (max (min d.dnNlevels.toNat 8) 1 - 1)).filter Blkptr.addressable ∧
      (∀ k, (gatheredLevel (readBlock Γ image) d k).length ≤ maxRuns) ∧
      (l0Blkptrs (readBlock Γ image) d).length ≤ maxRuns ∧
      ∀ bp ∈ l0Blkptrs (readBlock Γ image) d, bp.isHole = false ∧ bp.embedded = false ∧ (bp.dvas.get 0).isEmpty = false ∧
        ∃ root ∈ d.blkptrs, Links (StoredIn (readBlock Γ image)) (max (min d.dnNlevels.toNat 8) 1 - 1) root bp := by
  have hdepth : d.topLevel = max (min d.dnNlevels.toNat 8) 1 - 1 := by
    rw [Dnode.topLevel_eq]
    omega
  have hlist := l0Blkptrs_eq_gatheredLevel (readBlock Γ image) d
  rw [hdepth] at hlist
  have hkept := kept_gatheredLevel (readBlock Γ image) d
  refine ⟨hlist, fun k => (hkept k).length_le, ?_, fun bp hbp => ?_⟩
  · rw [hlist]
    exact ((hkept _).of_sublist List.filter_sublist).length_le
  · rw [hlist] at hbp
    obtain ⟨hlevel, haddressable⟩ := List.mem_filter.1 hbp
    obtain ⟨hhole, hbelow⟩ := (hkept _).all bp hlevel
    rw [Blkptr.addressable, Bool.and_eq_true, Bool.not_eq_true', Bool.not_eq_true'] at haddressable
    exact ⟨hhole, haddressable.1, haddressable.2, hbelow⟩

end ZfsForensic
