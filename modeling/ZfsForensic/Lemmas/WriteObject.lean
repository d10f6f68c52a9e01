import ZfsForensic.Lemmas.Walk
import ZfsForensic.Lemmas.WriteBlock

/-!
# Writing objects

An object is a dnode and its records. Its records are laid end to end, and behind them, level by level, the indirect blocks that name them:
the pointers of a level are grouped by 1024, and each group is a block of the next. The dnode names the one block of the top level. Every
block lies at the sector its pointer names, so that a part of the image which holds the bytes is all a reader needs.
-/

namespace ZfsForensic

open Octets Checked Checked.Run

/-- An object to be written: the fields of its dnode, its records, all of one size, and its levels of indirect blocks, as many as the
shifts of a block id allow. -/
structure DmuObject where
  type : UInt8
  bonusType : UInt8
  bonus : Bytes
  sectors : UInt16
  height : Nat
  records : List Bytes
  type_ne : type ≠ 0
  bonus_le : bonus.length ≤ 320
  sectors_pos : 0 < sectors.toNat
  height_le : height ≤ 6
  records_ne : records ≠ []
  records_length : ∀ r ∈ records, r.length = 512 * sectors.toNat
  records_le : records.length ≤ 1024 ^ height

/-- An indirect block of 1024 pointers, filled up with zeros. -/
def indirectBlock (ptrs : List Blkptr) : Bytes :=
  ptrs.flatMap (Blkptr.encode .little) ++ zeros (131072 - ptrs.length * blkptrSize)

/-- The pointers of blocks that are laid down from a sector on. -/
def ptrsFrom (ptr : Nat → Bytes → Blkptr) (lay : Bytes → Bytes) : Nat → List Bytes → List Blkptr
  | _, [] => []
  | sector, b :: bs => ptr sector b :: ptrsFrom ptr lay (sector + sectorsOf (lay b)) bs

namespace Packer

variable {Γ : Ctx} (P : Packer Γ)

/-- The bytes laid down for some records. -/
def recordsBytes (records : List Bytes) : Bytes := records.flatMap P.recordBytes

/-- The pointers of records that are laid down from a sector on. -/
def recordPtrs (objectType : UInt8) (sector : Nat) (records : List Bytes) : List Blkptr :=
  ptrsFrom (fun s r => P.recordPtr s objectType r) P.recordBytes sector records

/-- The indirect blocks that name some pointers. -/
def indirectBlocks (ptrs : List Blkptr) : List Bytes := (Radix.groups 1024 ptrs).map indirectBlock

/-- The pointers of indirect blocks, `level` levels above the data. -/
def indirectPtrs (objectType : UInt8) (level sector : Nat) (blocks : List Bytes) : List Blkptr :=
  ptrsFrom (fun s b => P.blockPtr s objectType (UInt8.ofNat level) b) P.pack sector blocks

/-- `n` levels of indirect blocks over the pointers of a level, laid down from a sector on: their bytes, and the pointers of the last. -/
def raise (objectType : UInt8) : Nat → Nat → Nat → List Blkptr → Bytes × List Blkptr
  | 0, _, _, ptrs => ([], ptrs)
  | n + 1, level, sector, ptrs =>
    let blocks := indirectBlocks ptrs
    let laid := blocks.flatMap P.pack
    let above := raise objectType n (level + 1) (sector + sectorsOf laid) (P.indirectPtrs objectType (level + 1) sector blocks)
    (laid ++ above.1, above.2)

/-- The levels of an object above its records, which are laid down from a sector on. -/
def levelsAt (sector : Nat) (o : DmuObject) : Bytes × List Blkptr :=
  P.raise o.type o.height 0 (sector + sectorsOf (P.recordsBytes o.records)) (P.recordPtrs o.type sector o.records)

/-- The bytes of an object at a sector. -/
def writeObject (sector : Nat) (o : DmuObject) : Bytes := P.recordsBytes o.records ++ (P.levelsAt sector o).1

/-- The top pointers of an object at a sector. -/
def topPtrs (sector : Nat) (o : DmuObject) : List Blkptr := (P.levelsAt sector o).2

/-- The dnode of an object at a sector. -/
def dnodeAt (sector : Nat) (o : DmuObject) : Dnode :=
  { dnType := o.type
    dnIndblkshift := 17
    dnNlevels := UInt8.ofNat (o.height + 1)
    dnNblkptr := 1
    dnBonustype := o.bonusType
    dnChecksum := 7
    dnCompress := 2
    dnFlags := 0
    dnDatablkszsec := o.sectors
    dnBonuslen := UInt16.ofNat o.bonus.length
    dnExtraSlots := 0
    dnMaxblkid := UInt64.ofNat (o.records.length - 1)
    dnUsed := 0
    endian := .little
    blkptrs := P.topPtrs sector o
    bonus := o.bonus }

end Packer

/-! ## Whole sectors -/

/-- Whether some bytes are whole sectors, any number of them. -/
def Sectored (data : Bytes) : Prop := data.length = 512 * sectorsOf data

theorem Sectored.of_length {data : Bytes} {k : Nat} (h : data.length = 512 * k) : Sectored data ∧ sectorsOf data = k := by
  have hk : sectorsOf data = k := by rw [sectorsOf, h, Nat.mul_div_cancel_left k (by decide)]
  exact ⟨by rw [Sectored, hk, h], hk⟩

theorem Sectored.append {x y : Bytes} (hx : Sectored x) (hy : Sectored y) :
    Sectored (x ++ y) ∧ sectorsOf (x ++ y) = sectorsOf x + sectorsOf y := by
  refine Sectored.of_length ?_
  rw [List.length_append, hx, hy, Nat.mul_add]

theorem Whole.sectored {data : Bytes} (h : Whole data) : Sectored data := h.sectors.2.2

theorem sectored_nil : Sectored [] ∧ sectorsOf [] = 0 := Sectored.of_length rfl

/-- Blocks laid end to end. -/
theorem sectored_flatMap {lay : Bytes → Bytes} {blocks : List Bytes} (h : ∀ b ∈ blocks, Sectored (lay b)) :
    Sectored (blocks.flatMap lay) := by
  induction blocks with
  | nil => exact sectored_nil.1
  | cons b bs ih => exact ((h b List.mem_cons_self).append (ih fun b' hb' => h b' (List.mem_cons_of_mem b hb'))).1

/-- The part behind some whole sectors begins at the sector behind them. -/
theorem part_behind {image x y : Bytes} {sector : Nat} (hx : Sectored x) (h : Part image (0x400000 + 512 * sector) (x ++ y)) :
    Part image (0x400000 + 512 * (sector + sectorsOf x)) y := by
  have hright := h.right
  rwa [hx, Nat.add_assoc, ← Nat.mul_add] at hright

@[simp] theorem length_ptrsFrom (ptr : Nat → Bytes → Blkptr) (lay : Bytes → Bytes) (sector : Nat) (blocks : List Bytes) :
    (ptrsFrom ptr lay sector blocks).length = blocks.length := by
  induction blocks generalizing sector with
  | nil => rfl
  | cons b bs ih => rw [ptrsFrom, List.length_cons, List.length_cons, ih]

/-- What holds of a block laid down at the sector of its pointer holds of all of them, where they lie in the image. -/
theorem forall₂_ptrsFrom {image : Bytes} {ptr : Nat → Bytes → Blkptr} {lay : Bytes → Bytes} {R : Blkptr → Bytes → Prop}
    {blocks : List Bytes} (hlay : ∀ b ∈ blocks, Sectored (lay b))
    (hone : ∀ b ∈ blocks, ∀ s, s + sectorsOf (lay b) < 2 ^ 50 → Part image (0x400000 + 512 * s) (lay b) → R (ptr s b) b)
    {sector : Nat} (hpart : Part image (0x400000 + 512 * sector) (blocks.flatMap lay))
    (hfits : sector + sectorsOf (blocks.flatMap lay) < 2 ^ 50) : List.Forall₂ R (ptrsFrom ptr lay sector blocks) blocks := by
  induction blocks generalizing sector with
  | nil => exact List.Forall₂.nil
  | cons b bs ih =>
    have hb := hlay b List.mem_cons_self
    have hbs : ∀ b' ∈ bs, Sectored (lay b') := fun b' hb' => hlay b' (List.mem_cons_of_mem b hb')
    rw [List.flatMap_cons] at hpart hfits
    rw [(hb.append (sectored_flatMap hbs)).2] at hfits
    refine List.Forall₂.cons (hone b List.mem_cons_self sector (by omega) hpart.left) ?_
    exact ih hbs (fun b' hb' => hone b' (List.mem_cons_of_mem b hb')) (part_behind hb hpart) (by omega)

/-- The pointer of a block that is laid down. -/
theorem getElem?_ptrsFrom (ptr : Nat → Bytes → Blkptr) (lay : Bytes → Bytes) (sector : Nat) {blocks : List Bytes} {i : Nat} {b : Bytes}
    (hb : blocks[i]? = some b) : ∃ s, (ptrsFrom ptr lay sector blocks)[i]? = some (ptr s b) := by
  induction blocks generalizing sector i with
  | nil => exact absurd hb (by simp)
  | cons b' bs ih =>
    cases i with
    | zero => exact ⟨sector, by rw [ptrsFrom, List.getElem?_cons_zero, Option.some.inj hb]⟩
    | succ i =>
      rw [ptrsFrom, List.getElem?_cons_succ]
      exact ih _ hb

/-- Two lists in a relation, element by element. -/
theorem exists_of_forall₂ {α β : Type} {R : α → β → Prop} {xs : List α} {ys : List β} (h : List.Forall₂ R xs ys) {i : Nat} {y : β}
    (hy : ys[i]? = some y) : ∃ x, xs[i]? = some x ∧ R x y := by
  obtain ⟨hi, rfl⟩ := List.getElem?_eq_some_iff.1 hy
  have hi' : i < xs.length := by rwa [h.length_eq]
  exact ⟨xs[i], List.getElem?_eq_getElem hi', h.get hi' hi⟩

theorem forall_of_forall₂ {α β : Type} {R : α → β → Prop} {Q : α → Prop} {xs : List α} {ys : List β} (h : List.Forall₂ R xs ys)
    (hR : ∀ x y, R x y → Q x) : ∀ x ∈ xs, Q x := by
  intro x hx
  induction h with
  | nil => exact absurd hx List.not_mem_nil
  | cons hxy _ ih =>
    rcases List.mem_cons.1 hx with rfl | hx
    · exact hR _ _ hxy
    · exact ih hx

/-- A record of an object is a block. -/
theorem DmuObject.whole (o : DmuObject) {r : Bytes} (hr : r ∈ o.records) : Whole r :=
  ⟨o.sectors.toNat, o.sectors_pos, o.sectors.toNat_lt, o.records_length r hr⟩

section Sizes

variable {Γ : Ctx} (P : Packer Γ)

theorem Packer.sectored_recordBytes {r : Bytes} (h : Whole r) : Sectored (P.recordBytes r) := by
  unfold recordBytes
  split
  · exact sectored_nil.1
  · exact (P.whole r h).sectored

theorem Packer.sectored_recordsBytes (o : DmuObject) : Sectored (P.recordsBytes o.records) :=
  sectored_flatMap fun _ hr => P.sectored_recordBytes (o.whole hr)

/-- An indirect block is one of 256 sectors. -/
theorem length_indirectBlock {ptrs : List Blkptr} (h : ptrs.length ≤ 1024) : (indirectBlock ptrs).length = 131072 := by
  rw [indirectBlock, List.length_append, Blkptr.length_flatMap_encode, length_zeros]
  unfold blkptrSize
  omega

theorem Packer.whole_of_mem_indirectBlocks {ptrs : List Blkptr} {b : Bytes} (h : b ∈ indirectBlocks ptrs) : Whole b := by
  obtain ⟨g, hg, rfl⟩ := List.mem_map.1 h
  exact ⟨256, by decide, by decide, length_indirectBlock (Radix.length_le_of_mem_groups hg)⟩

theorem Packer.sectored_indirectBlocks (ptrs : List Blkptr) : Sectored ((indirectBlocks ptrs).flatMap P.pack) :=
  sectored_flatMap fun b hb => (P.whole b (whole_of_mem_indirectBlocks hb)).sectored

theorem Packer.sectored_raise (objectType : UInt8) (n level sector : Nat) (ptrs : List Blkptr) :
    Sectored (P.raise objectType n level sector ptrs).1 := by
  induction n generalizing level sector ptrs with
  | zero => exact sectored_nil.1
  | succ n ih => exact ((P.sectored_indirectBlocks ptrs).append (ih _ _ _)).1

/-- The bytes of an object are those of its records and those of its levels. -/
theorem Packer.sectored_writeObject (sector : Nat) (o : DmuObject) :
    Sectored (P.writeObject sector o) ∧
      sectorsOf (P.writeObject sector o) = sectorsOf (P.recordsBytes o.records) + sectorsOf (P.levelsAt sector o).1 :=
  (P.sectored_recordsBytes o).append (P.sectored_raise _ _ _ _ _)

/-- As many levels as the pointers need end in one pointer. -/
theorem Packer.length_raise (objectType : UInt8) (n level sector : Nat) {ptrs : List Blkptr} (hpos : 0 < ptrs.length)
    (hle : ptrs.length ≤ 1024 ^ n) : (P.raise objectType n level sector ptrs).2.length = 1 := by
  induction n generalizing level sector ptrs with
  | zero =>
    rw [Nat.pow_zero] at hle
    exact Nat.le_antisymm hle hpos
  | succ n ih =>
    obtain ⟨hpos', hle'⟩ := Radix.length_groups_range (by decide) hpos hle
    rw [raise]
    refine ih _ _ ?_ ?_
    · rwa [indirectPtrs, length_ptrsFrom, indirectBlocks, List.length_map]
    · rwa [indirectPtrs, length_ptrsFrom, indirectBlocks, List.length_map]

theorem Packer.length_topPtrs (sector : Nat) (o : DmuObject) : (P.topPtrs sector o).length = 1 := by
  refine P.length_raise _ _ _ _ ?_ ?_
  · rw [recordPtrs, length_ptrsFrom]
    exact List.length_pos_iff.2 o.records_ne
  · rw [recordPtrs, length_ptrsFrom]
    exact o.records_le

/-- The slot of a written object has its size. -/
theorem Packer.length_encode_dnodeAt (sector : Nat) (o : DmuObject) : ((P.dnodeAt sector o).encode .little).length = dnodeSize := by
  have hptrs : (P.dnodeAt sector o).blkptrs.length = 1 := P.length_topPtrs sector o
  have hbonus : (P.dnodeAt sector o).bonus.length ≤ 320 := o.bonus_le
  simp only [Dnode.encode, List.length_append, Dnode.length_encodeCore, Blkptr.length_flatMap_encode, length_zeros, hptrs]
  unfold dnodeSize dnodeCoreSize blkptrSize
  omega

theorem Packer.levelShift_dnodeAt (sector : Nat) (o : DmuObject) : (P.dnodeAt sector o).levelShift.toNat = 10 := by
  rw [Dnode.levelShift_toNat]
  rfl

/-- The levels above the data are the levels of indirect blocks. -/
theorem Packer.topLevel_dnodeAt (sector : Nat) (o : DmuObject) : (P.dnodeAt sector o).topLevel = o.height := by
  have hheight := o.height_le
  rw [Dnode.topLevel_eq]
  change min (UInt8.ofNat (o.height + 1)).toNat 8 - 1 = _
  rw [UInt8.toNat_ofNat']
  omega

theorem Packer.shiftsFit_dnodeAt (sector : Nat) (o : DmuObject) : (P.dnodeAt sector o).ShiftsFit := by
  have hheight := o.height_le
  rw [Dnode.ShiftsFit, P.levelShift_dnodeAt, P.topLevel_dnodeAt]
  omega

end Sizes

/-! ## Blocks served -/

/-- Whether a pointer is one that is stored as it is, and serves some block of an image. -/
structure Blkptr.Serves (Γ : Ctx) (image : Bytes) (p : Blkptr) (data : Bytes) (verdict : Option Bool) : Prop where
  stored : p.Stored
  read : readBlock Γ image p = .ok ⟨data, verdict, 0⟩

/-- Where an object lies in an image, inside the addresses of a 64-bit vdev. -/
structure Packer.WrittenAt {Γ : Ctx} (P : Packer Γ) (image : Bytes) (sector : Nat) (o : DmuObject) : Prop where
  part : Part image (0x400000 + 512 * sector) (P.writeObject sector o)
  fits : sector + sectorsOf (P.writeObject sector o) < 2 ^ 50

section Serve

variable {Γ : Ctx} (P : Packer Γ) {image : Bytes}

/-- Every record is served by its pointer. -/
theorem Packer.serves_recordPtrs (objectType : UInt8) {records : List Bytes} (hwhole : ∀ r ∈ records, Whole r) {sector : Nat}
    (hpart : Part image (0x400000 + 512 * sector) (P.recordsBytes records))
    (hfits : sector + sectorsOf (P.recordsBytes records) < 2 ^ 50) :
    List.Forall₂ (fun p r => p.Serves Γ image r (recordVerdict r)) (P.recordPtrs objectType sector records) records := by
  refine forall₂_ptrsFrom (fun r hr => P.sectored_recordBytes (hwhole r hr)) (fun r hr s hs hr' => ?_) hpart hfits
  have hs : s < 2 ^ 50 := by omega
  exact ⟨P.recordPtr_stored objectType (hwhole r hr) hs, P.readBlock_recordPtr objectType (hwhole r hr) hs hr'⟩

/-- Every indirect block is served by its pointer, which is no hole. -/
theorem Packer.serves_indirectPtrs (objectType : UInt8) {level : Nat} (hlevel : level < 2 ^ 5) (ptrs : List Blkptr) {sector : Nat}
    (hpart : Part image (0x400000 + 512 * sector) ((indirectBlocks ptrs).flatMap P.pack))
    (hfits : sector + sectorsOf ((indirectBlocks ptrs).flatMap P.pack) < 2 ^ 50) :
    List.Forall₂ (fun p b => p.Serves Γ image b (some true) ∧ p.isHole = false ∧ p.level.toNat = level)
      (P.indirectPtrs objectType level sector (indirectBlocks ptrs)) (indirectBlocks ptrs) := by
  have hnat : (UInt8.ofNat level).toNat = level := by
    rw [UInt8.toNat_ofNat']
    omega
  have hwhole : ∀ b ∈ indirectBlocks ptrs, Whole b := fun b hb => whole_of_mem_indirectBlocks hb
  refine forall₂_ptrsFrom (fun b hb => (P.whole b (hwhole b hb)).sectored) (fun b hb s hs hb' => ?_) hpart hfits
  have hs : s < 2 ^ 50 := by omega
  refine ⟨⟨P.blockPtr_stored objectType (hwhole b hb) hs (by rw [hnat]; exact hlevel),
    P.readBlock_blockPtr objectType _ (hwhole b hb) hs hb'⟩, ?_, hnat⟩
  exact P.isHole_blockPtr objectType _ (hwhole b hb)

/-- A pointer of an indirect block, in its place. -/
theorem slice?_indirectBlock {ptrs : List Blkptr} {i : Nat} {p : Blkptr} (hp : ptrs[i]? = some p) :
    slice? (indirectBlock ptrs) (i * blkptrSize) (i * blkptrSize + blkptrSize) = some (p.encode .little) := by
  obtain ⟨hi, -⟩ := List.getElem?_eq_some_iff.1 hp
  have hslice := slice?_flatMap (f := Blkptr.encode .little) (r := 0) (k := blkptrSize) (fun q _ => q.length_encode .little) hp (by omega)
  have hend : i * blkptrSize + blkptrSize ≤ (ptrs.flatMap (Blkptr.encode .little)).length := by
    rw [Blkptr.length_flatMap_encode, ← Nat.succ_mul]
    exact Nat.mul_le_mul_right _ hi
  rw [Nat.add_zero, Nat.zero_add, Nat.mul_comm] at hslice
  rw [indirectBlock, slice?_append_left hend, hslice]
  exact slice?_self (p.length_encode .little)

/-! ## The walk down to a record -/

/-- Whether some pointers, `level` levels above the data, lead to the records of an object along the digits of their numbers. -/
structure LeadsTo (disk : Disk) (d : Dnode) (records : List Bytes) (level : Nat) (ptrs : List Blkptr) : Prop where
  stored : ∀ p ∈ ptrs, p.Stored
  leads : ∀ i r, records[i]? = some r → ∃ p, ptrs[i / 1024 ^ level]? = some p ∧ (p.isHole = true → level = 0) ∧
    walk disk d i level p = .ok ⟨r, recordVerdict r, 0⟩

/-- Over a pointer stands the pointer of the indirect block that has it in its place. -/
theorem exists_above {d : Dnode} (hshift : d.levelShift.toNat = 10) {i level : Nat} {ptrs above : List Blkptr} {p : Blkptr}
    (hp : ptrs[i / 1024 ^ level]? = some p)
    (habove : List.Forall₂ (fun p b => p.Serves Γ image b (some true) ∧ p.isHole = false ∧ p.level.toNat = level + 1) above
      (Packer.indirectBlocks ptrs)) :
    ∃ q block, above[i / 1024 ^ (level + 1)]? = some q ∧ q.isHole = false ∧ readBlock Γ image q = .ok ⟨block, some true, 0⟩ ∧
      slice? block (d.digit i level * blkptrSize) (d.digit i level * blkptrSize + blkptrSize) = some (p.encode .little) := by
  obtain ⟨g, hg, hpg⟩ := Radix.exists_group (by decide : 0 < 1024) hp
  have hblock : (Packer.indirectBlocks ptrs)[i / 1024 ^ level / 1024]? = some (indirectBlock g) := by
    rw [Packer.indirectBlocks, List.getElem?_map, hg, Option.map_some]
  obtain ⟨q, hq, ⟨-, hread⟩, hqhole, -⟩ := exists_of_forall₂ habove hblock
  have hdigit : d.digit i level = i / 1024 ^ level % 1024 := by
    have hbase : 2 ^ 10 = 1024 := rfl
    rw [Dnode.digit, hshift, Nat.mul_comm, Nat.pow_mul, hbase]
  refine ⟨q, indirectBlock g, ?_, hqhole, hread, ?_⟩
  · rw [Nat.pow_succ, ← Nat.div_div_eq_div_mul, hq]
  · rw [hdigit]
    exact slice?_indirectBlock hpg

/-- One level of indirect blocks leads down to what the pointers in them lead to. -/
theorem LeadsTo.step {d : Dnode} (hshift : d.levelShift.toNat = 10) (horder : d.endian = .little) {records : List Bytes} {level : Nat}
    {ptrs above : List Blkptr} (h : LeadsTo (readBlock Γ image) d records level ptrs)
    (habove : List.Forall₂ (fun p b => p.Serves Γ image b (some true) ∧ p.isHole = false ∧ p.level.toNat = level + 1) above
      (Packer.indirectBlocks ptrs)) : LeadsTo (readBlock Γ image) d records (level + 1) above := by
  refine ⟨forall_of_forall₂ habove fun p b hp => hp.1.stored, fun i r hr => ?_⟩
  obtain ⟨p, hp, hhole, hwalk⟩ := h.leads i r hr
  obtain ⟨q, block, hq, hqhole, hread, hchild⟩ := exists_above hshift hp habove
  refine ⟨q, hq, fun hq' => absurd hq' (by rw [hqhole]; exact Bool.false_ne_true), ?_⟩
  rw [walk, hread]
  dsimp only
  rw [hchild]
  dsimp only
  rw [horder, Blkptr.parse_encode (h.stored p (List.mem_of_getElem? hp)) .little]
  by_cases hp' : p.isHole = true
  · obtain rfl := hhole hp'
    rw [if_pos hp', ← hwalk, walk]
  · rw [if_neg hp', hwalk]

/-- Any number of levels does. -/
theorem Packer.leadsTo_raise {d : Dnode} (hshift : d.levelShift.toNat = 10) (horder : d.endian = .little) (objectType : UInt8)
    {records : List Bytes} (n : Nat) {level sector : Nat} {ptrs : List Blkptr} (hlevel : level + n < 2 ^ 5)
    (h : LeadsTo (readBlock Γ image) d records level ptrs)
    (hpart : Part image (0x400000 + 512 * sector) (P.raise objectType n level sector ptrs).1)
    (hfits : sector + sectorsOf (P.raise objectType n level sector ptrs).1 < 2 ^ 50) :
    LeadsTo (readBlock Γ image) d records (level + n) (P.raise objectType n level sector ptrs).2 := by
  induction n generalizing level sector ptrs with
  | zero => exact h
  | succ n ih =>
    have hblocks := P.sectored_indirectBlocks ptrs
    rw [raise] at hpart hfits
    dsimp only at hpart hfits
    rw [(hblocks.append (P.sectored_raise _ _ _ _ _)).2] at hfits
    have hserves := P.serves_indirectPtrs objectType (show level + 1 < 2 ^ 5 by omega) ptrs hpart.left (by omega)
    have hrest := ih (by omega) (h.step hshift horder hserves) (part_behind hblocks hpart) (by omega)
    rw [raise]
    rwa [Nat.add_right_comm, Nat.add_assoc] at hrest

variable {sector : Nat} {o : DmuObject}

/-- The records of a written object are served. -/
theorem Packer.WrittenAt.serves (h : P.WrittenAt image sector o) :
    List.Forall₂ (fun p r => p.Serves Γ image r (recordVerdict r)) (P.recordPtrs o.type sector o.records) o.records := by
  obtain ⟨hpart, hfits⟩ := h
  rw [(P.sectored_writeObject sector o).2] at hfits
  exact P.serves_recordPtrs o.type (fun r hr => o.whole hr) hpart.left (by omega)

/-- The top pointers of a written object lead to its records. -/
theorem Packer.WrittenAt.leadsTo (h : P.WrittenAt image sector o) :
    LeadsTo (readBlock Γ image) (P.dnodeAt sector o) o.records o.height (P.topPtrs sector o) := by
  have hserves := h.serves P
  have hheight := o.height_le
  obtain ⟨hpart, hfits⟩ := h
  rw [(P.sectored_writeObject sector o).2] at hfits
  have hbase : LeadsTo (readBlock Γ image) (P.dnodeAt sector o) o.records 0 (P.recordPtrs o.type sector o.records) := by
    refine ⟨forall_of_forall₂ hserves fun p r hp => hp.stored, fun i r hr => ?_⟩
    obtain ⟨p, hp, -, hread⟩ := exists_of_forall₂ hserves hr
    exact ⟨p, by rwa [Nat.pow_zero, Nat.div_one], fun _ => rfl, hread⟩
  have hleads := P.leadsTo_raise (P.levelShift_dnodeAt sector o) rfl o.type o.height (by omega) hbase
    (part_behind (P.sectored_recordsBytes o) hpart) (by rw [← levelsAt]; omega)
  rwa [Nat.zero_add] at hleads

/-- The dnode of a written object fits its slot. -/
theorem Packer.WrittenAt.stored (h : P.WrittenAt image sector o) : (P.dnodeAt sector o).Stored := by
  have hlen := P.length_topPtrs sector o
  have hbonus := o.bonus_le
  refine ⟨rfl, ?_, (h.leadsTo P).stored, ?_, ?_⟩
  · change 1 = (P.topPtrs sector o).length
    rw [hlen]
  · change (UInt16.ofNat o.bonus.length).toNat = o.bonus.length
    rw [UInt16.toNat_ofNat']
    omega
  · change dnodeCoreSize + (P.topPtrs sector o).length * blkptrSize + o.bonus.length ≤ dnodeSize
    rw [hlen]
    unfold dnodeCoreSize blkptrSize dnodeSize
    omega

end Serve

end ZfsForensic
