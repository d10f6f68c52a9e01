import ZfsForensic.Lemmas.Image
import ZfsForensic.Lemmas.ObjectRead
import ZfsForensic.Theorems.Holes

/-!
# What the caps of a whole-object read do

The number of blocks visited is capped by the dnode's block size, the bytes of a block by the size field of its own pointer. Where
every block has the block size, a read past the cap returns the blocks inside it, and no error. Where a pointer claims more than
the block size, the object returned may be larger than the cap.
-/

namespace ZfsForensic

open Octets Checked Checked.Run

/-! ## Objects of whole blocks -/

section WholeBlocks

variable {disk : Disk} {d : Dnode} (h : WholeBlocks disk d)
include h

theorem WholeBlocks.reads {i : Nat} (hi : i < d.dnMaxblkid.toNat + 1) : Reads disk d i := by
  have hmax := d.dnMaxblkid.toNat_lt
  have hle : UInt64.ofNat i ≤ d.dnMaxblkid := by
    rw [UInt64.le_iff_toNat_le, UInt64.toNat_ofNat']
    omega
  obtain ⟨block, hread, -⟩ := h _ hle
  exact ⟨block, hread⟩

theorem WholeBlocks.length_objectBytes {n : Nat} (hn : n ≤ d.dnMaxblkid.toNat + 1) :
    (objectBytes disk d n).length = n * d.dataBlockSize := by
  have hlen : ∀ i ∈ List.range n, (blockData disk d i).length = d.dataBlockSize := by
    intro i hi
    refine length_blockData h i ?_
    rw [List.mem_range] at hi ⊢
    omega
  rw [objectBytes, Radix.length_flatMap hlen, List.length_range, Nat.mul_comm]

/-- A ZAP of whole blocks reads as its blocks up to the cap. -/
theorem readZapObject_of_wholeBlocks (hz : d.dataBlockSize ≠ 0) :
    (readZapObject disk d).value = .ok (objectBytes disk d (zapBlockCount d)) := by
  have hmax := d.dnMaxblkid.toNat_lt
  refine (readZapObject_eq_ok_iff disk d _).2 ⟨hz, fun i hi => h.reads ?_, rfl⟩
  unfold zapBlockCount satAdd at hi
  omega

/-- A file of whole blocks reads as its blocks up to the cap, cut at the size. -/
theorem zplReadFileWith_of_wholeBlocks (hz : d.dataBlockSize ≠ 0) {zpl : ObjsetPhys} {id : UInt64}
    (hd : (mosDnode disk zpl id).value = some d) (size : Option UInt64) :
    (zplReadFileWith disk zpl id size).value = .ok (cutAt size (objectBytes disk d (fileBlockCount d))) := by
  have hmax := d.dnMaxblkid.toNat_lt
  refine (zplReadFileWith_eq_ok_iff hd size _).2 ⟨hz, fun i hi => h.reads ?_, rfl⟩
  unfold fileBlockCount satAdd at hi
  omega

end WholeBlocks

/-- The caps on the number of blocks are below the largest word, so the saturation of the count does not show. -/
theorem blockCounts_eq (d : Dnode) :
    zapBlockCount d = min (d.dnMaxblkid.toNat + 1) (maxZapBytes / d.dataBlockSize) ∧
      fileBlockCount d = min (d.dnMaxblkid.toNat + 1) (max (maxFileBytes / d.dataBlockSize) 1) := by
  have hmax := d.dnMaxblkid.toNat_lt
  have hzap : maxZapBytes / d.dataBlockSize ≤ maxZapBytes := Nat.div_le_self _ _
  have hfile : maxFileBytes / d.dataBlockSize ≤ maxFileBytes := Nat.div_le_self _ _
  unfold zapBlockCount fileBlockCount satAdd
  rw [maxZapBytes] at hzap ⊢
  rw [maxFileBytes] at hfile ⊢
  omega

/-- For an object of whole blocks and a size inside it, a file read is an error or the first bytes of the object: as many as the
size says, or as the cap on its blocks leaves. A ZAP read is an error or the first blocks, as many as the object has or the cap
leaves. Only an object without a block size is an error. -/
theorem reads_whole_up_to_cap (disk : Disk) (d : Dnode) (h : WholeBlocks disk d) :
    (∀ (zpl : ObjsetPhys) (id sz : UInt64), (mosDnode disk zpl id).value = some d →
      sz.toNat ≤ (d.dnMaxblkid.toNat + 1) * d.dataBlockSize →
      if d.dataBlockSize = 0 then ∃ e, (zplReadFileWith disk zpl id (some sz)).value = .error e
      else ∃ out, (zplReadFileWith disk zpl id (some sz)).value = .ok out ∧
        out <+: objectBytes disk d (d.dnMaxblkid.toNat + 1) ∧
        out.length = min sz.toNat (max (maxFileBytes / d.dataBlockSize) 1 * d.dataBlockSize)) ∧
    (if d.dataBlockSize = 0 then ∃ e, (readZapObject disk d).value = .error e
      else ∃ out, (readZapObject disk d).value = .ok out ∧ out <+: objectBytes disk d (d.dnMaxblkid.toNat + 1) ∧
        out.length = min (d.dnMaxblkid.toNat + 1) (maxZapBytes / d.dataBlockSize) * d.dataBlockSize) := by
  obtain ⟨hzap, hfile⟩ := blockCounts_eq d
  constructor
  · intro zpl id sz hd hsz
    split
    · rename_i hz
      cases hout : (zplReadFileWith disk zpl id (some sz)).value with
      | error e => exact ⟨e, rfl⟩
      | ok out => exact absurd hz ((zplReadFileWith_eq_ok_iff hd _ out).1 hout).1
    · rename_i hz
      have hle : fileBlockCount d ≤ d.dnMaxblkid.toNat + 1 := by
        rw [hfile]
        exact Nat.min_le_left _ _
      refine ⟨_, zplReadFileWith_of_wholeBlocks h hz hd (some sz), ?_, ?_⟩
      · exact (List.take_prefix _ _).trans (prefix_objectBytes disk d hle)
      · rw [cutAt, Option.elim_some, List.length_take, h.length_objectBytes hle, hfile, ← Nat.mul_min_mul_right]
        omega
  · split
    · rename_i hz
      cases hout : (readZapObject disk d).value with
      | error e => exact ⟨e, rfl⟩
      | ok out => exact absurd hz ((readZapObject_eq_ok_iff disk d out).1 hout).1
    · rename_i hz
      have hle : zapBlockCount d ≤ d.dnMaxblkid.toNat + 1 := by
        rw [hzap]
        exact Nat.min_le_left _ _
      refine ⟨_, readZapObject_of_wholeBlocks h hz, prefix_objectBytes disk d hle, ?_⟩
      rw [h.length_objectBytes hle, hzap]

/-! ## Objects of any blocks -/

/-- The bytes a pointer reads as: its logical size, or for lz4 the length of what the decoder yields. -/
def Blkptr.dataLength (Γ : Ctx) (image : Bytes) (bp : Blkptr) : Nat :=
  if CompressType.fromRaw bp.compression = .lz4 then (readBlock Γ image bp).toOption.elim 0 (fun block => block.data.length)
  else bp.lsizeBytes

/-- The bytes of block `i` of an object, by the pointer it resolves to. -/
def blockLength (Γ : Ctx) (image : Bytes) (d : Dnode) (i : Nat) : Nat :=
  (resolveBlkptr (readBlock Γ image) d (UInt64.ofNat i)).value.toOption.elim 0 (Blkptr.dataLength Γ image)

/-- The bytes of the first `n` blocks of an object. -/
def objectLength (Γ : Ctx) (image : Bytes) (d : Dnode) (n : Nat) : Nat :=
  ((List.range n).map (blockLength Γ image d)).sum

theorem length_of_readBlock {Γ : Ctx} {image : Bytes} {bp : Blkptr} {block : Block} (h : readBlock Γ image bp = .ok block) :
    block.data.length = bp.dataLength Γ image := by
  unfold Blkptr.dataLength
  split
  · rw [h]
    rfl
  · rename_i hkind
    exact length_readBlock h hkind

/-- A block that reads has the bytes its pointer says. -/
theorem length_blockData_of_reads {Γ : Ctx} {image : Bytes} {d : Dnode} {i : Nat} (h : Reads (readBlock Γ image) d i) :
    (blockData (readBlock Γ image) d i).length = blockLength Γ image d i := by
  obtain ⟨block, hblock⟩ := h
  rw [blockData_of_read hblock, blockLength]
  rw [readDnodeData_value] at hblock
  cases hbp : (resolveBlkptr (readBlock Γ image) d (UInt64.ofNat i)).value with
  | error e =>
    rw [hbp] at hblock
    exact absurd hblock (by simp [Except.bind])
  | ok bp =>
    rw [hbp] at hblock
    exact length_of_readBlock hblock

theorem length_objectBytes_of_reads {Γ : Ctx} {image : Bytes} {d : Dnode} {n : Nat}
    (h : ∀ i < n, Reads (readBlock Γ image) d i) :
    (objectBytes (readBlock Γ image) d n).length = objectLength Γ image d n := by
  rw [length_objectBytes, objectLength]
  congr 1
  refine List.map_congr_left fun i hi => ?_
  exact length_blockData_of_reads (h i (List.mem_range.1 hi))

/-- A ZAP read stays within its cap exactly where the object has no block size, a visited block does not read, or the visited
blocks' own sizes add up to no more than the cap; a file read likewise, or where it is cut at a size inside the cap. -/
theorem object_reads_capped_iff (Γ : Ctx) (image : Bytes) (d : Dnode) :
    ((∀ out, (readZapObject (readBlock Γ image) d).value = .ok out → out.length ≤ maxZapBytes) ↔
      d.dataBlockSize = 0 ∨ (∃ i < zapBlockCount d, ¬ Reads (readBlock Γ image) d i) ∨
        objectLength Γ image d (zapBlockCount d) ≤ maxZapBytes) ∧
    (∀ (zpl : ObjsetPhys) (id : UInt64) (size : Option UInt64), (mosDnode (readBlock Γ image) zpl id).value = some d →
      ((∀ out, (zplReadFileWith (readBlock Γ image) zpl id size).value = .ok out → out.length ≤ maxFileBytes) ↔
        d.dataBlockSize = 0 ∨ (∃ i < fileBlockCount d, ¬ Reads (readBlock Γ image) d i) ∨
          (∃ sz, size = some sz ∧ sz.toNat ≤ maxFileBytes) ∨
          objectLength Γ image d (fileBlockCount d) ≤ maxFileBytes)) := by
  constructor
  · constructor
    · intro h
      by_cases hz : d.dataBlockSize = 0
      · exact Or.inl hz
      · by_cases hreads : ∀ i < zapBlockCount d, Reads (readBlock Γ image) d i
        · have hout := h _ ((readZapObject_eq_ok_iff _ d _).2 ⟨hz, hreads, rfl⟩)
          rw [length_objectBytes_of_reads hreads] at hout
          exact Or.inr (Or.inr hout)
        · push Not at hreads
          exact Or.inr (Or.inl hreads)
    · intro h out hout
      obtain ⟨hz, hreads, rfl⟩ := (readZapObject_eq_ok_iff _ d out).1 hout
      rw [length_objectBytes_of_reads hreads]
      rcases h with hz' | ⟨i, hi, hnot⟩ | hle
      · exact absurd hz' hz
      · exact absurd (hreads i hi) hnot
      · exact hle
  · intro zpl id size hd
    constructor
    · intro h
      by_cases hz : d.dataBlockSize = 0
      · exact Or.inl hz
      · by_cases hreads : ∀ i < fileBlockCount d, Reads (readBlock Γ image) d i
        · have hout := h _ ((zplReadFileWith_eq_ok_iff hd size _).2 ⟨hz, hreads, rfl⟩)
          have hlen := length_objectBytes_of_reads hreads
          cases size with
          | none =>
            rw [cutAt, Option.elim_none, hlen] at hout
            exact Or.inr (Or.inr (Or.inr hout))
          | some sz =>
            rw [cutAt, Option.elim_some, List.length_take, hlen] at hout
            by_cases hsz : sz.toNat ≤ maxFileBytes
            · exact Or.inr (Or.inr (Or.inl ⟨sz, rfl, hsz⟩))
            · exact Or.inr (Or.inr (Or.inr (by omega)))
        · push Not at hreads
          exact Or.inr (Or.inl hreads)
    · intro h out hout
      obtain ⟨hz, hreads, rfl⟩ := (zplReadFileWith_eq_ok_iff hd size out).1 hout
      have hlen := length_objectBytes_of_reads hreads
      rcases h with hz' | ⟨i, hi, hnot⟩ | ⟨sz, rfl, hsz⟩ | hle
      · exact absurd hz' hz
      · exact absurd (hreads i hi) hnot
      · rw [cutAt, Option.elim_some, List.length_take]
        exact (Nat.min_le_left _ _).trans hsz
      · cases size with
        | none => rwa [cutAt, Option.elim_none, hlen]
        | some sz =>
          rw [cutAt, Option.elim_some, List.length_take, hlen]
          exact (Nat.min_le_right _ _).trans hle

/-! ## Three holes

An object of one level with three pointers that were never written, each of which reads as zeros of its own logical size. In the
first object that is the block size, and two blocks fill the cap of a ZAP; in the second the blocks have one sector and each
pointer claims the largest block.
-/

/-- A pointer that was never written, of a logical size of so many sectors. -/
def holePtr (sectors : UInt32) : Blkptr := { (default : Blkptr) with lsizeRaw := sectors - 1 }

/-- An object of three such pointers. -/
def holesDnode (sectors : UInt16) (lsize : UInt32) : Dnode :=
  { (default : Dnode) with
    dnType := 20
    dnIndblkshift := 17
    dnNlevels := 1
    dnNblkptr := 3
    dnDatablkszsec := sectors
    dnMaxblkid := 2
    blkptrs := [holePtr lsize, holePtr lsize, holePtr lsize] }

/-- A block of the object reads as a hole of its pointer's size. -/
theorem readDnodeData_holesDnode (Γ : Ctx) (image : Bytes) (sectors : UInt16) (lsize : UInt32)
    (hle : (holePtr lsize).lsizeBytes ≤ maxBlockSize) {blkid : UInt64} (hblkid : blkid ≤ 2) :
    (readDnodeData (readBlock Γ image) (holesDnode sectors lsize) blkid).value =
      .ok ⟨zeros (holePtr lsize).lsizeBytes, none, 0⟩ := by
  have hhole : (holePtr lsize).isHole = true := rfl
  have hlevels : (holesDnode sectors lsize).dnNlevels ≠ 0 := by
    change (1 : UInt8) ≠ 0
    decide
  have htop : (holesDnode sectors lsize).topLevel = 0 := rfl
  have hfit : (holesDnode sectors lsize).ShiftsFit := by
    rw [Dnode.ShiftsFit, htop, Nat.zero_mul]
    omega
  have hptr : (holesDnode sectors lsize).blkptrs[blkid.toNat]? = some (holePtr lsize) := by
    have hto : blkid.toNat ≤ 2 := hblkid
    have hcases : blkid.toNat = 0 ∨ blkid.toNat = 1 ∨ blkid.toNat = 2 := by omega
    rcases hcases with h | h | h <;> rw [h] <;> rfl
  rw [readDnodeData_eq _ hlevels hblkid hfit, value_pure, topRead, htop, Nat.zero_mul, Nat.pow_zero, Nat.div_one, hptr]
  exact readBlock_of_isHole Γ image hhole hle

theorem blockData_holesDnode (Γ : Ctx) (image : Bytes) (sectors : UInt16) (lsize : UInt32)
    (hle : (holePtr lsize).lsizeBytes ≤ maxBlockSize) {i : Nat} (hi : i < 3) :
    Reads (readBlock Γ image) (holesDnode sectors lsize) i ∧
      (blockData (readBlock Γ image) (holesDnode sectors lsize) i).length = (holePtr lsize).lsizeBytes := by
  have hblkid : UInt64.ofNat i ≤ 2 := by
    have h2 : (2 : UInt64).toNat = 2 := rfl
    rw [UInt64.le_iff_toNat_le, UInt64.toNat_ofNat', h2]
    omega
  have hread := readDnodeData_holesDnode Γ image sectors lsize hle hblkid
  refine ⟨⟨_, hread⟩, ?_⟩
  rw [blockData_of_read hread, length_zeros]

/-- The first object: three whole blocks of 65535 sectors, of which two fit the cap. -/
theorem wholeBlocks_holesDnode (Γ : Ctx) (image : Bytes) : WholeBlocks (readBlock Γ image) (holesDnode 65535 65535) := by
  intro blkid hblkid
  refine ⟨_, readDnodeData_holesDnode Γ image 65535 65535 (by decide) hblkid, ?_⟩
  rw [length_zeros]
  rfl

/-- A ZAP read of it returns two of its three blocks. -/
theorem readZapObject_drops_third_block :
    WholeBlocks (readBlock plainCtx []) (holesDnode 65535 65535) ∧
      ¬ ((∃ e, (readZapObject (readBlock plainCtx []) (holesDnode 65535 65535)).value = .error e) ∨
        (readZapObject (readBlock plainCtx []) (holesDnode 65535 65535)).value =
          .ok (objectBytes (readBlock plainCtx []) (holesDnode 65535 65535) 3)) := by
  have hwhole := wholeBlocks_holesDnode plainCtx []
  have hread := readZapObject_of_wholeBlocks hwhole (by decide)
  have hcount : zapBlockCount (holesDnode 65535 65535) = 2 := by decide
  have hmax : (holesDnode 65535 65535).dnMaxblkid.toNat = 2 := rfl
  have hsize : (holesDnode 65535 65535).dataBlockSize = 33553920 := rfl
  rw [hcount] at hread
  refine ⟨hwhole, ?_⟩
  rintro (⟨e, he⟩ | hall)
  · rw [hread] at he
    exact absurd he (by simp)
  · have hlen := congrArg List.length (Except.ok.inj (hread.symm.trans hall))
    rw [hwhole.length_objectBytes (by omega), hwhole.length_objectBytes (by omega), hsize] at hlen
    omega

/-- A ZAP read of the first object is cut at the cap, and a file read of the sparse file at its size, inside its third block. -/
theorem objects_read_up_to_cap :
    (∃ out, (readZapObject (readBlock plainCtx []) (holesDnode 65535 65535)).value = .ok out ∧ out.length = 67107840) ∧
      ∃ zpl d out, (mosDnode (readBlock plainCtx smallImage) zpl 8).value = some d ∧
        (zplReadFileWith (readBlock plainCtx smallImage) zpl 8 (some 1026)).value = .ok out ∧
        out <+: objectBytes (readBlock plainCtx smallImage) d 3 ∧ out.length = 1026 := by
  constructor
  · obtain ⟨-, hzap⟩ := reads_whole_up_to_cap (readBlock plainCtx []) (holesDnode 65535 65535) (wholeBlocks_holesDnode _ _)
    have hsize : (holesDnode 65535 65535).dataBlockSize = 33553920 := rfl
    have hmax : (holesDnode 65535 65535).dnMaxblkid.toNat = 2 := rfl
    rw [hsize, hmax, if_neg (by omega)] at hzap
    obtain ⟨out, hout, -, hlen⟩ := hzap
    refine ⟨out, hout, ?_⟩
    rw [hlen, maxZapBytes]
    norm_num
  · obtain ⟨zpl, sector, d, h⟩ := exists_sparseReads
    obtain ⟨-, hlast, hsize, -⟩ := h.shape
    have hmax : d.dnMaxblkid.toNat = 2 := by rw [hlast]; rfl
    obtain ⟨hfile, -⟩ := reads_whole_up_to_cap (readBlock plainCtx smallImage) d h.wholeBlocks
    have hread := hfile zpl 8 1026 h.resolved (by rw [hmax, hsize]; decide)
    rw [hsize, hmax, if_neg (by decide)] at hread
    obtain ⟨out, hout, hprefix, hlen⟩ := hread
    exact ⟨zpl, d, out, h.resolved, hout, hprefix, hlen⟩

/-- A ZAP read of the second object returns 96 MiB. -/
theorem readZapObject_exceeds_cap :
    ∃ out, (readZapObject (readBlock plainCtx []) (holesDnode 1 65536)).value = .ok out ∧ ¬ out.length ≤ maxZapBytes := by
  have hsize : (holePtr 65536).lsizeBytes = 33554432 := by decide
  have hle : (holePtr 65536).lsizeBytes ≤ maxBlockSize := by decide
  have hcount : zapBlockCount (holesDnode 1 65536) = 3 := by decide
  have hpos : (holesDnode 1 65536).dataBlockSize ≠ 0 := by decide
  have hreads : ∀ i < 3, Reads (readBlock plainCtx []) (holesDnode 1 65536) i :=
    fun i hi => (blockData_holesDnode plainCtx [] 1 65536 hle hi).1
  have hlen : ∀ i < 3, (blockData (readBlock plainCtx []) (holesDnode 1 65536) i).length = 33554432 := by
    intro i hi
    rw [(blockData_holesDnode plainCtx [] 1 65536 hle hi).2, hsize]
  have hout := readZapObject_eq_ok_iff (readBlock plainCtx []) (holesDnode 1 65536)
  rw [hcount] at hout
  have htotal := length_objectBytes (readBlock plainCtx []) (holesDnode 1 65536) 3
  have hrange : List.range 3 = [0, 1, 2] := rfl
  rw [hrange, List.map_cons, List.map_cons, List.map_cons, List.map_nil, hlen 0 (by omega), hlen 1 (by omega),
    hlen 2 (by omega)] at htotal
  generalize readBlock plainCtx [] = disk at hout htotal hreads ⊢
  generalize holesDnode 1 65536 = d at hout htotal hreads hpos ⊢
  refine ⟨objectBytes disk d 3, (hout _).2 ⟨hpos, hreads, rfl⟩, ?_⟩
  rw [htotal, maxZapBytes]
  simp only [List.sum_cons, List.sum_nil]
  omega

/-- A block of the sparse file has one sector. -/
theorem SparseReads.blockLength {zpl : ObjsetPhys} {sector : Nat} {d : Dnode} (h : SparseReads zpl sector d) {i : Nat} (hi : i < 3) :
    blockLength plainCtx smallImage d i = 512 := by
  obtain ⟨r, verdict, hread, hlen⟩ := h.exists_read hi
  have hvalue : (readDnodeData (readBlock plainCtx smallImage) d (UInt64.ofNat i)).value = .ok ⟨r, verdict, 0⟩ := by rw [hread, value_pure]
  rw [← length_blockData_of_reads ⟨_, hvalue⟩, blockData_of_read hvalue, hlen]

/-- The three blocks of the sparse file stay within both caps. -/
theorem sparse_file_within_caps :
    ∃ zpl d, (mosDnode (readBlock plainCtx smallImage) zpl 8).value = some d ∧ objectLength plainCtx smallImage d 3 = 1536 ∧
      (∀ out, (readZapObject (readBlock plainCtx smallImage) d).value = .ok out → out.length ≤ maxZapBytes) ∧
      ∀ out, (zplReadFileWith (readBlock plainCtx smallImage) zpl 8 none).value = .ok out → out.length ≤ maxFileBytes := by
  obtain ⟨zpl, sector, d, h⟩ := exists_sparseReads
  obtain ⟨hzapCount, hfileCount⟩ := h.counts
  have hrange : List.range 3 = [0, 1, 2] := rfl
  have hlength : objectLength plainCtx smallImage d 3 = 1536 := by
    rw [objectLength, hrange, List.map_cons, List.map_cons, List.map_cons, List.map_nil, h.blockLength (by omega), h.blockLength (by omega),
      h.blockLength (by omega)]
    rfl
  obtain ⟨hzap, hfile⟩ := object_reads_capped_iff plainCtx smallImage d
  rw [hzapCount, hlength] at hzap
  rw [hfileCount, hlength] at hfile
  exact ⟨zpl, d, h.resolved, hlength, hzap.2 (Or.inr (Or.inr (by decide))),
    (hfile zpl 8 none h.resolved).2 (Or.inr (Or.inr (Or.inr (by decide))))⟩

end ZfsForensic
