import ZfsForensic.Lemmas.SmallPool
import ZfsForensic.Lemmas.Walk

/-!
# Holes and sparse objects

A hole reads as zeros, and the number of them is the hole's own size field, not the object's block size. A hole in `dn_blkptr[]`
above level 0 is read as an indirect block, and its zeros as pointers. Where every block of a file has the block size, the
buffer of a whole-file read holds byte `p` of the file at `p`.
-/

namespace ZfsForensic

open Octets Checked Checked.Run

/-- The path of a walk to block `n` meets a hole: at the pointer itself, or below it, with every block above the hole read. -/
inductive MeetsHole (disk : Disk) (d : Dnode) (n : Nat) : Nat → Blkptr → Blkptr → Prop
  | here {level : Nat} {bp : Blkptr} (h : bp.isHole = true) : MeetsHole disk d n level bp bp
  | under {level : Nat} {bp hole : Blkptr} {block : Block} {child : Bytes} (hbp : bp.isHole = false)
      (hread : disk bp = .ok block)
      (hchild : slice? block.data (d.digit n level * blkptrSize) (d.digit n level * blkptrSize + blkptrSize) = some child)
      (hrest : MeetsHole disk d n level (Blkptr.parse child d.endian) hole) : MeetsHole disk d n (level + 1) bp hole

/-- The condition under which a hole reads as one data block of zeros: its own size is the block size. A top pointer above level
0 is read as an indirect block instead: the child index must lie inside its zeros, and the child's size is 512 bytes. -/
def HoleConforms (d : Dnode) (n : Nat) (top hole : Blkptr) : Prop :=
  if top.isHole = true ∧ d.topLevel ≠ 0 then
    top.lsizeBytes ≤ maxBlockSize ∧ d.digit n (d.topLevel - 1) * blkptrSize + blkptrSize ≤ top.lsizeBytes ∧
      d.dataBlockSize = 512
  else hole.lsizeBytes = d.dataBlockSize

/-- A pointer of zeros is a hole of 512 bytes. -/
theorem parse_zeros_isHole (e : Endian) :
    (Blkptr.parse (zeros blkptrSize) e).isHole = true ∧ (Blkptr.parse (zeros blkptrSize) e).lsizeBytes = 512 := by
  cases e <;> decide +kernel

theorem MeetsHole.isHole {disk : Disk} {d : Dnode} {n level : Nat} {bp hole : Blkptr} (h : MeetsHole disk d n level bp hole) :
    hole.isHole = true := by
  induction h with
  | here h => exact h
  | under _ _ _ _ ih => exact ih

/-- A path that begins at a hole ends there. -/
theorem MeetsHole.eq_of_isHole {disk : Disk} {d : Dnode} {n level : Nat} {bp hole : Blkptr}
    (h : MeetsHole disk d n level bp hole) (hbp : bp.isHole = true) : hole = bp := by
  cases h with
  | here _ => rfl
  | under hc _ _ _ => exact absurd hbp (by rw [hc]; decide)

/-- Below a pointer that is no hole, the walk ends at the first hole and reads it. -/
theorem walk_of_meetsHole {disk : Disk} {d : Dnode} {n level : Nat} {bp hole : Blkptr} (hbp : bp.isHole = false)
    (h : MeetsHole disk d n level bp hole) : walk disk d n level bp = disk hole := by
  induction h with
  | here h => exact absurd h (by rw [hbp]; decide)
  | under _ hread hchild hrest ih =>
    rw [walk, hread]
    dsimp only
    rw [hchild]
    dsimp only
    split
    · rename_i hhole
      cases hrest with
      | here _ => rfl
      | under hc _ _ _ => exact absurd hhole (by rw [hc]; decide)
    · rename_i hhole
      exact ih (by simpa using hhole)

theorem Dnode.dataBlockSize_le (d : Dnode) : d.dataBlockSize ≤ maxBlockSize := by
  have h := d.dnDatablkszsec.toNat_lt
  rw [dataBlockSize_eq, maxBlockSize]
  omega

/-- A hole reads as zeros of a given length exactly where its size field says so. -/
theorem readBlock_hole_iff (Γ : Ctx) (image : Bytes) {hole : Blkptr} (h : hole.isHole = true) {n : Nat}
    (hn : n ≤ maxBlockSize) :
    (∃ block, readBlock Γ image hole = .ok block ∧ block.data = zeros n) ↔ hole.lsizeBytes = n := by
  by_cases hle : hole.lsizeBytes ≤ maxBlockSize
  · rw [readBlock_of_isHole Γ image h hle]
    constructor
    · rintro ⟨block, hblock, hdata⟩
      rw [← Except.ok.inj hblock] at hdata
      simpa using congrArg List.length hdata
    · intro heq
      exact ⟨_, rfl, by rw [heq]⟩
  · rw [readBlock_of_lt_lsize Γ image (Nat.not_le.1 hle)]
    constructor
    · rintro ⟨block, hblock, -⟩
      exact absurd hblock (by simp)
    · intro heq
      omega

/-- A top hole above level 0 is read as an indirect block of zeros. -/
theorem walk_top_hole (Γ : Ctx) (image : Bytes) {d : Dnode} {top : Blkptr} (n level : Nat) (h : top.isHole = true) :
    (∃ block, walk (readBlock Γ image) d n (level + 1) top = .ok block ∧ block.data = zeros d.dataBlockSize) ↔
      top.lsizeBytes ≤ maxBlockSize ∧ d.digit n level * blkptrSize + blkptrSize ≤ top.lsizeBytes ∧
        d.dataBlockSize = 512 := by
  rw [walk]
  by_cases hle : top.lsizeBytes ≤ maxBlockSize
  · rw [readBlock_of_isHole Γ image h hle]
    dsimp only
    by_cases hfit : d.digit n level * blkptrSize + blkptrSize ≤ top.lsizeBytes
    · obtain ⟨hhole, hsize⟩ := parse_zeros_isHole d.endian
      rw [slice?_zeros (Nat.le_add_right _ _) hfit, Nat.add_sub_cancel_left]
      dsimp only
      rw [if_pos hhole, readBlock_hole_iff Γ image hhole d.dataBlockSize_le, hsize]
      exact ⟨fun h => ⟨hle, hfit, h.symm⟩, fun h => h.2.2.symm⟩
    · rw [slice?_eq_none_of_lt (by rw [length_zeros]; omega)]
      constructor
      · rintro ⟨block, hblock, -⟩
        exact absurd hblock (by simp)
      · intro hc
        exact absurd hc.2.1 hfit
  · rw [readBlock_of_lt_lsize Γ image (Nat.not_le.1 hle)]
    constructor
    · rintro ⟨block, hblock, -⟩
      exact absurd hblock (by simp)
    · intro hc
      exact absurd hc.1 hle

/-- The walk reads a hole as one data block of zeros exactly where the hole conforms. -/
theorem walk_hole_iff (Γ : Ctx) (image : Bytes) {d : Dnode} {n : Nat} {top hole : Blkptr}
    (h : MeetsHole (readBlock Γ image) d n d.topLevel top hole) :
    (∃ block, walk (readBlock Γ image) d n d.topLevel top = .ok block ∧ block.data = zeros d.dataBlockSize) ↔
      HoleConforms d n top hole := by
  unfold HoleConforms
  by_cases htop : top.isHole = true
  · have hself : hole = top := h.eq_of_isHole htop
    rw [hself]
    cases hl : d.topLevel with
    | zero =>
      rw [if_neg (by simp), walk]
      exact readBlock_hole_iff Γ image htop d.dataBlockSize_le
    | succ level =>
      rw [if_pos ⟨htop, by omega⟩]
      exact walk_top_hole Γ image n level htop
  · rw [if_neg (fun hc => htop hc.1), walk_of_meetsHole (by simpa using htop) h]
    exact readBlock_hole_iff Γ image h.isHole d.dataBlockSize_le

/-! ## Whole-file reads -/

/-- Whether block `i` of an object has the block size: it is a hole that conforms, or it reads as that many bytes. -/
def BlockFits (disk : Disk) (d : Dnode) (i : Nat) : Prop :=
  (∃ top hole, d.blkptrs[i / 2 ^ (d.topLevel * d.levelShift.toNat)]? = some top ∧
      MeetsHole disk d i d.topLevel top hole ∧ HoleConforms d i top hole) ∨
    ∃ block, (readDnodeData disk d (UInt64.ofNat i)).value = .ok block ∧ block.data.length = d.dataBlockSize

/-- Whether a whole-file read lays the blocks of an object one block size apart: every visited block in front of the last has that size, and the
last is no longer. -/
structure FileFits (disk : Disk) (d : Dnode) : Prop where
  inner : ∀ i, i + 1 < fileBlockCount d → BlockFits disk d i
  last : (blockData disk d (fileBlockCount d - 1)).length ≤ d.dataBlockSize

/-- A block of zeros at a hole that conforms. -/
theorem readDnodeData_hole_iff (Γ : Ctx) (image : Bytes) {d : Dnode} {blkid : UInt64} (hlevels : d.dnNlevels ≠ 0)
    (hfit : d.ShiftsFit) (hblkid : blkid ≤ d.dnMaxblkid) {top hole : Blkptr}
    (htop : d.blkptrs[blkid.toNat / 2 ^ (d.topLevel * d.levelShift.toNat)]? = some top)
    (hpath : MeetsHole (readBlock Γ image) d blkid.toNat d.topLevel top hole) :
    (∃ block, readDnodeData (readBlock Γ image) d blkid = pure (.ok block) ∧ block.data = zeros d.dataBlockSize) ↔
      HoleConforms d blkid.toNat top hole := by
  rw [readDnodeData_eq _ hlevels hblkid hfit, topRead, htop, ← walk_hole_iff Γ image hpath]
  refine exists_congr fun block => and_congr_left fun _ => ⟨fun h => congrArg Run.value h, fun h => congrArg pure h⟩

/-- A block that fits has the block size. -/
theorem BlockFits.length {Γ : Ctx} {image : Bytes} {d : Dnode} {i : Nat} (h : BlockFits (readBlock Γ image) d i) (hlevels : d.dnNlevels ≠ 0)
    (hfit : d.ShiftsFit) (hi : i < fileBlockCount d) : (blockData (readBlock Γ image) d i).length = d.dataBlockSize := by
  have hmax := d.dnMaxblkid.toNat_lt
  have hcount : fileBlockCount d ≤ d.dnMaxblkid.toNat + 1 := by
    unfold fileBlockCount satAdd
    omega
  have hto : (UInt64.ofNat i).toNat = i := by
    rw [UInt64.toNat_ofNat']
    omega
  rcases h with ⟨top, hole, htop, hpath, hconf⟩ | ⟨block, hblock, hblen⟩
  · have hle : UInt64.ofNat i ≤ d.dnMaxblkid := by
      rw [UInt64.le_iff_toNat_le, hto]
      omega
    rw [← hto] at htop hpath hconf
    obtain ⟨block, hblock, hdata⟩ := (readDnodeData_hole_iff Γ image hlevels hfit hle htop hpath).2 hconf
    rw [blockData, hblock, value_pure]
    dsimp only
    rw [hdata, length_zeros]
  · rw [blockData, hblock]
    exact hblen

/-- Of blocks one block size apart, byte `p` is in block `p` over that size. -/
theorem FileFits.getElem?_objectBytes {Γ : Ctx} {image : Bytes} {d : Dnode} (h : FileFits (readBlock Γ image) d) (hlevels : d.dnNlevels ≠ 0)
    (hfit : d.ShiftsFit) (hpos : 0 < d.dataBlockSize) {p : Nat}
    (hp : p < (objectBytes (readBlock Γ image) d (fileBlockCount d)).length) :
    (objectBytes (readBlock Γ image) d (fileBlockCount d))[p]? =
      (blockData (readBlock Γ image) d (p / d.dataBlockSize))[p % d.dataBlockSize]? := by
  cases hcount : fileBlockCount d with
  | zero =>
    rw [hcount] at hp
    exact absurd hp (Nat.not_lt_zero p)
  | succ k =>
    have hinner : ∀ i ∈ List.range k, (blockData (readBlock Γ image) d i).length = d.dataBlockSize := by
      intro i hi
      have hi := List.mem_range.1 hi
      exact (h.inner i (by omega)).length hlevels hfit (by omega)
    have hlast := h.last
    rw [hcount, Nat.add_sub_cancel] at hlast
    rw [hcount, objectBytes, List.range_succ] at hp
    have hall := Radix.getElem?_flatMap_snoc hinner hlast hpos p
    rw [objectBytes, List.range_succ, hall]
    -- the byte lies in one of the blocks, so there is a block of its number
    cases hq : (List.range k ++ [k])[p / d.dataBlockSize]? with
    | none =>
      rw [hq, Option.bind_none, List.getElem?_eq_none_iff] at hall
      exact absurd hp (Nat.not_lt.2 hall)
    | some i =>
      rw [← List.range_succ] at hq
      obtain ⟨hi, rfl⟩ := List.getElem?_eq_some_iff.1 hq
      rw [List.getElem_range]
      rfl

/-- An object of whole blocks is one of these. -/
theorem fileFits_of_wholeBlocks {disk : Disk} {d : Dnode} (h : WholeBlocks disk d) : FileFits disk d := by
  have hmax := d.dnMaxblkid.toNat_lt
  have hcount : fileBlockCount d ≤ d.dnMaxblkid.toNat + 1 := by
    unfold fileBlockCount satAdd
    omega
  refine ⟨fun i hi => Or.inr (h _ ?_), (length_blockData h _ (List.mem_range.2 ?_)).le⟩
  · rw [UInt64.le_iff_toNat_le, UInt64.toNat_ofNat']
    omega
  · omega

/-- A block whose path meets a hole reads as one data block of zeros exactly where the hole conforms; and in a file whose visited
blocks have the block size, the last one no more than that, byte `p` of what a whole-file read returns is byte `p` modulo that size of block `p`
over it. -/
theorem hole_reads_as_zeros_iff (Γ : Ctx) (image : Bytes) :
    (∀ (d : Dnode) (blkid : UInt64) (top hole : Blkptr), 1 ≤ d.dnNlevels.toNat → d.dnNlevels.toNat ≤ 8 → d.ShiftsFit →
      blkid ≤ d.dnMaxblkid → d.blkptrs[blkid.toNat / 2 ^ (d.topLevel * d.levelShift.toNat)]? = some top →
      MeetsHole (readBlock Γ image) d blkid.toNat d.topLevel top hole →
      ((∃ block, readDnodeData (readBlock Γ image) d blkid = pure (.ok block) ∧ block.data = zeros d.dataBlockSize) ↔
        HoleConforms d blkid.toNat top hole)) ∧
    (∀ (zpl : ObjsetPhys) (id : UInt64) (size : Option UInt64) (d : Dnode) (out : Bytes) (p : Nat),
      (mosDnode (readBlock Γ image) zpl id).value = some d → d.dnNlevels ≠ 0 → d.ShiftsFit →
      (zplReadFileWith (readBlock Γ image) zpl id size).value = .ok out →
      FileFits (readBlock Γ image) d → p < out.length →
      out[p]? = (blockData (readBlock Γ image) d (p / d.dataBlockSize))[p % d.dataBlockSize]?) := by
  refine ⟨fun d blkid top hole hlev _ hfit hblkid htop hpath => ?_, fun zpl id size d out p hd hlev hfit hout hblocks hp => ?_⟩
  · exact readDnodeData_hole_iff Γ image (fun hz => by rw [hz] at hlev; exact absurd hlev (by decide)) hfit hblkid htop hpath
  · obtain ⟨hz, -, hcut⟩ := (zplReadFileWith_eq_ok_iff hd size out).1 hout
    have hprefix : out <+: objectBytes (readBlock Γ image) d (fileBlockCount d) := hcut ▸ cutAt_prefix size _
    rw [← hblocks.getElem?_objectBytes hlev hfit (Nat.pos_of_ne_zero hz) (Nat.lt_of_lt_of_le hp hprefix.length_le)]
    obtain ⟨rest, hrest⟩ := hprefix
    rw [← hrest, List.getElem?_append_left hp]

/-! ## Written objects

A record of zeros of a written object is a hole, under all levels of indirect blocks there are.
-/

section Written

variable {Γ : Ctx} {image : Bytes}

/-- A hole some pointers lead to is met below the indirect blocks over them. -/
theorem MeetsHole.step {d : Dnode} (hshift : d.levelShift.toNat = 10) (horder : d.endian = .little) {i level : Nat} {ptrs above : List Blkptr}
    {p hole : Blkptr} (h : MeetsHole (readBlock Γ image) d i level p hole) (hp : ptrs[i / 1024 ^ level]? = some p) (hstored : p.Stored)
    (habove : List.Forall₂ (fun p b => p.Serves Γ image b (some true) ∧ p.isHole = false ∧ p.level.toNat = level + 1) above
      (Packer.indirectBlocks ptrs)) :
    ∃ q, above[i / 1024 ^ (level + 1)]? = some q ∧ q.isHole = false ∧ MeetsHole (readBlock Γ image) d i (level + 1) q hole := by
  obtain ⟨q, block, hq, hqhole, hread, hchild⟩ := exists_above hshift hp habove
  have hrest : MeetsHole (readBlock Γ image) d i level (Blkptr.parse (p.encode .little) d.endian) hole := by
    rwa [horder, Blkptr.parse_encode hstored .little]
  exact ⟨q, hq, hqhole, .under hqhole hread hchild hrest⟩

variable (P : Packer Γ)

/-- So it is below any number of levels, the top pointer of which is no hole. -/
theorem Packer.meetsHole_raise {d : Dnode} (hshift : d.levelShift.toNat = 10) (horder : d.endian = .little) (objectType : UInt8)
    {i : Nat} {hole : Blkptr} (n : Nat) {level sector : Nat} {ptrs : List Blkptr} {p : Blkptr} (hlevel : level + n < 2 ^ 5)
    (hp : ptrs[i / 1024 ^ level]? = some p) (hstored : ∀ p ∈ ptrs, p.Stored) (htop : p.isHole = true → level = 0)
    (h : MeetsHole (readBlock Γ image) d i level p hole)
    (hpart : Part image (0x400000 + 512 * sector) (P.raise objectType n level sector ptrs).1)
    (hfits : sector + sectorsOf (P.raise objectType n level sector ptrs).1 < 2 ^ 50) :
    ∃ q, (P.raise objectType n level sector ptrs).2[i / 1024 ^ (level + n)]? = some q ∧ (q.isHole = true → level + n = 0) ∧
      MeetsHole (readBlock Γ image) d i (level + n) q hole := by
  induction n generalizing level sector ptrs p with
  | zero => exact ⟨p, hp, htop, h⟩
  | succ n ih =>
    have hblocks := P.sectored_indirectBlocks ptrs
    rw [raise] at hpart hfits
    dsimp only at hpart hfits
    rw [(hblocks.append (P.sectored_raise _ _ _ _ _)).2] at hfits
    have hserves := P.serves_indirectPtrs objectType (show level + 1 < 2 ^ 5 by omega) ptrs hpart.left (by omega)
    obtain ⟨q, hq, hqhole, hmeets⟩ := h.step hshift horder hp (hstored p (List.mem_of_getElem? hp)) hserves
    have hrest := ih (by omega) hq (forall_of_forall₂ hserves fun p b hp => hp.1.stored)
      (fun hq' => absurd hq' (by rw [hqhole]; exact Bool.false_ne_true)) hmeets (part_behind hblocks hpart) (by omega)
    rw [raise]
    rwa [Nat.add_right_comm, Nat.add_assoc] at hrest

/-- The pointer of a record of zeros is a hole of the record's size. -/
theorem Packer.recordPtr_of_allZero (sector : Nat) (objectType : UInt8) {r : Bytes} (hwhole : Whole r) (hzero : allZero r = true) :
    (P.recordPtr sector objectType r).isHole = true ∧ (P.recordPtr sector objectType r).lsizeBytes = r.length := by
  rw [recordPtr, if_pos hzero]
  exact ⟨rfl, lsizeBytes_of_sectors rfl hwhole rfl⟩

/-- A record of zeros is a hole of the block size. -/
theorem Packer.WrittenAt.meetsHole {sector : Nat} {o : DmuObject} (h : P.WrittenAt image sector o) {i : Nat} {r : Bytes}
    (hr : o.records[i]? = some r) (hzero : allZero r = true) :
    ∃ top hole, (P.dnodeAt sector o).blkptrs[i / 1024 ^ o.height]? = some top ∧ (top.isHole = true → o.height = 0) ∧
      MeetsHole (readBlock Γ image) (P.dnodeAt sector o) i o.height top hole ∧ hole.lsizeBytes = (P.dnodeAt sector o).dataBlockSize := by
  have hheight := o.height_le
  have hserves := h.serves P
  have hmem := List.mem_of_getElem? hr
  obtain ⟨hpart, hfits⟩ := h
  rw [(P.sectored_writeObject sector o).2, levelsAt] at hfits
  obtain ⟨s, hp⟩ := getElem?_ptrsFrom (fun s r => P.recordPtr s o.type r) P.recordBytes sector hr
  obtain ⟨hhole, hlsize⟩ := P.recordPtr_of_allZero s o.type (o.whole hmem) hzero
  have hbase : (P.recordPtrs o.type sector o.records)[i / 1024 ^ 0]? = some (P.recordPtr s o.type r) := by
    rw [Nat.pow_zero, Nat.div_one]
    exact hp
  obtain ⟨top, htop, hnot, hmeets⟩ := P.meetsHole_raise (P.levelShift_dnodeAt sector o) rfl o.type o.height (by omega) hbase
    (forall_of_forall₂ hserves fun p r hp => hp.stored) (fun _ => rfl) (.here hhole) (part_behind (P.sectored_recordsBytes o) hpart) (by omega)
  rw [Nat.zero_add] at htop hnot hmeets
  refine ⟨top, _, htop, hnot, hmeets, ?_⟩
  rw [hlsize, P.dataBlockSize_dnodeAt, o.records_length r hmem]

end Written

/-! ## A sparse file

Of the sparse file of the small pool, the second block is a hole below an indirect block.
-/

/-- The path to the second block. -/
theorem SparseReads.meetsHole {zpl : ObjsetPhys} {sector : Nat} {d : Dnode} (h : SparseReads zpl sector d) :
    ∃ top hole, d.blkptrs[1 / 2 ^ (d.topLevel * d.levelShift.toNat)]? = some top ∧
      MeetsHole (readBlock plainCtx smallImage) d 1 d.topLevel top hole ∧ HoleConforms d 1 top hole := by
  have hrecord : (sparseFile.dmu smallTables).records[1]? = some (zeros 512) := by rw [records_sparseFile]; rfl
  have hheight : (sparseFile.dmu smallTables).height = 1 := rfl
  obtain ⟨top, hole, hptr, hnot, hpath, hlsize⟩ := h.written.meetsHole (Packer.stored plainCtx) hrecord (allZero_zeros 512)
  rw [hheight] at hptr hnot hpath
  rw [← h.dnode] at hptr hpath hlsize
  have hshift : d.levelShift.toNat = 10 := by rw [h.dnode, Packer.levelShift_dnodeAt]
  rw [h.shape.2.2.2.1, hshift]
  refine ⟨top, hole, hptr, hpath, ?_⟩
  rw [HoleConforms, if_neg (fun hc => absurd (hnot hc.1) (by decide)), hlsize]

/-- The second block reads as zeros, and in the content of the file the bytes of the third are where its number says. -/
theorem sparse_file_reads_back :
    ∃ zpl d, (mosDnode (readBlock plainCtx smallImage) zpl 8).value = some d ∧ d.dataBlockSize = 512 ∧
      (∃ block, readDnodeData (readBlock plainCtx smallImage) d 1 = pure (.ok block) ∧ block.data = zeros 512) ∧
      sparseData[1025]? = (blockData (readBlock plainCtx smallImage) d 2)[1]? := by
  obtain ⟨zpl, sector, d, h⟩ := exists_sparseReads
  obtain ⟨hlevels, hlast, hsize, -, hfit⟩ := h.shape
  obtain ⟨top, hole, hptr, hpath, hconf⟩ := h.meetsHole
  obtain ⟨hblock, hfile⟩ := hole_reads_as_zeros_iff plainCtx smallImage
  have hone : (1 : UInt64).toNat = 1 := rfl
  refine ⟨zpl, d, h.resolved, hsize, ?_, ?_⟩
  · have hread := hblock d 1 top hole (by rw [hlevels]; decide) (by rw [hlevels]; decide) hfit (by rw [hlast]; decide)
    rw [hone, hsize] at hread
    exact (hread hptr hpath).2 hconf
  · have hbyte := hfile zpl 8 (some 1026) d sparseData 1025 h.resolved (by rw [hlevels]; decide) hfit h.content
      (fileFits_of_wholeBlocks h.wholeBlocks) (by rw [length_sparseData]; decide)
    rwa [hsize] at hbyte

/-! ## A pointer that was never written

An all-zero pointer is a hole of one sector, whatever the object's block size.
-/

/-- The slot of an object of one level, blocks of so many sectors, and one all-zero pointer. -/
def sparseSlot (sectors : UInt16) : Bytes := [19, 17, 1, 1, 0, 0, 0, 0] ++ encode .little 2 sectors.toNat ++ zeros 502

/-- The object that slot holds. -/
def sparseDnode (sectors : UInt16) : Dnode := (Dnode.parse (sparseSlot sectors) .little).getD default

/-- With blocks of 256 sectors it has one level, and its pointer is a hole. -/
theorem decode_sparseDnode :
    (sparseDnode 256).dnNlevels = 1 ∧ (sparseDnode 256).ShiftsFit ∧ (sparseDnode 256).dataBlockSize = 131072 ∧
      ((sparseDnode 256).blkptrs[0]?).any Blkptr.isHole = true := by
  decide +kernel

/-- Such a block reads as 512 zero bytes in place of 131072. -/
theorem readDnodeData_short_hole :
    (∃ top hole, (sparseDnode 256).blkptrs[0]? = some top ∧ MeetsHole (readBlock plainCtx []) (sparseDnode 256) 0 0 top hole) ∧
      (sparseDnode 256).dnNlevels = 1 ∧ (sparseDnode 256).ShiftsFit ∧ 0 ≤ (sparseDnode 256).dnMaxblkid ∧
      (sparseDnode 256).dataBlockSize = 131072 ∧
      readDnodeData (readBlock plainCtx []) (sparseDnode 256) 0 = pure (.ok ⟨zeros 512, none, 0⟩) := by
  obtain ⟨hlevels, hfit, hsize, hpointer⟩ := decode_sparseDnode
  obtain ⟨null, hnull, hhole⟩ := (Option.any_eq_true _ _).1 hpointer
  have hread : readDnodeData (readBlock plainCtx []) (sparseDnode 256) 0 = pure (.ok ⟨zeros 512, none, 0⟩) := by decide +kernel
  exact ⟨⟨null, null, hnull, .here hhole⟩, hlevels, hfit, UInt64.zero_le, hsize, hread⟩

end ZfsForensic
