import ZfsForensic.Lemmas.Walk
import ZfsForensic.Zpl

/-!
# What a whole-object read returns

A ZAP read and a file read run one loop over the blocks of an object and differ in the cap on its turns and in the cut at the end.
Each succeeds exactly where the object has a block size and every visited block reads, and returns the visited blocks in order.
-/

namespace ZfsForensic

open Octets Checked Checked.Run

/-- The first `n` blocks of an object, one after the other. -/
def objectBytes (disk : Disk) (d : Dnode) (n : Nat) : Bytes := (List.range n).flatMap (blockData disk d)

/-- Whether block `i` of an object reads. -/
def Reads (disk : Disk) (d : Dnode) (i : Nat) : Prop :=
  ∃ block, (readDnodeData disk d (UInt64.ofNat i)).value = .ok block

/-- The number of blocks a ZAP read visits: `0..=dn_maxblkid`, capped. -/
def zapBlockCount (d : Dnode) : Nat := min (satAdd d.dnMaxblkid.toNat 1) (maxZapBytes / d.dataBlockSize)

/-- The content cut at a logical size, when there is one. -/
def cutAt (size : Option UInt64) (out : Bytes) : Bytes := size.elim out (fun sz => out.take sz.toNat)

theorem cutAt_prefix (size : Option UInt64) (out : Bytes) : cutAt size out <+: out := by
  cases size with
  | none => exact List.prefix_refl out
  | some sz => exact List.take_prefix _ out

theorem blockData_of_read {disk : Disk} {d : Dnode} {i : Nat} {block : Block}
    (h : (readDnodeData disk d (UInt64.ofNat i)).value = .ok block) : blockData disk d i = block.data := by
  rw [blockData, h]

/-- A read of the first `n` blocks succeeds where each of them reads, and returns them. -/
theorem readBlocks_eq_ok_iff (disk : Disk) (d : Dnode) (n : Nat) (out : Bytes) :
    (readBlocks disk d n 0 []).value = .ok out ↔ (∀ i < n, Reads disk d i) ∧ out = objectBytes disk d n := by
  rw [readBlocks_value_eq_ok_iff, List.nil_append, ← List.range_eq_range', objectBytes]
  refine and_congr_left fun _ => ⟨fun h i hi => h i (Nat.zero_le i) (by omega), fun h i _ hi => h i (by omega)⟩

/-- A ZAP read returns the visited blocks. -/
theorem readZapObject_eq_ok_iff (disk : Disk) (d : Dnode) (out : Bytes) :
    (readZapObject disk d).value = .ok out ↔
      d.dataBlockSize ≠ 0 ∧ (∀ i < zapBlockCount d, Reads disk d i) ∧ out = objectBytes disk d (zapBlockCount d) := by
  unfold readZapObject
  dsimp only
  by_cases hz : d.dataBlockSize = 0
  · rw [if_pos hz]
    simp [hz]
  · rw [if_neg hz, readBlocks_eq_ok_iff, zapBlockCount]
    simp [hz]

/-- A file read returns the visited blocks, cut at the size. -/
theorem zplReadFileWith_eq_ok_iff {disk : Disk} {zpl : ObjsetPhys} {id : UInt64} {d : Dnode}
    (hd : (mosDnode disk zpl id).value = some d) (size : Option UInt64) (out : Bytes) :
    (zplReadFileWith disk zpl id size).value = .ok out ↔
      d.dataBlockSize ≠ 0 ∧ (∀ i < fileBlockCount d, Reads disk d i) ∧
        out = cutAt size (objectBytes disk d (fileBlockCount d)) := by
  rw [zplReadFileWith, value_bind, hd]
  dsimp only
  by_cases hz : d.dataBlockSize = 0
  · rw [if_pos hz]
    simp [hz]
  · rw [if_neg hz, value_bind]
    have hiff := readBlocks_eq_ok_iff disk d (fileBlockCount d)
    constructor
    · intro h
      cases hblocks : (readBlocks disk d (fileBlockCount d) 0 []).value with
      | error e =>
        rw [hblocks] at h
        exact absurd h (by simp)
      | ok all =>
        obtain ⟨hreads, hall⟩ := (hiff all).1 hblocks
        rw [hblocks] at h
        refine ⟨hz, hreads, ?_⟩
        rw [← hall]
        cases size with
        | none => exact (Except.ok.inj h).symm
        | some sz => exact (Except.ok.inj h).symm
    · rintro ⟨-, hreads, hout⟩
      rw [(hiff _).2 ⟨hreads, rfl⟩, hout]
      cases size with
      | none => rfl
      | some sz => rfl

/-- A file read of an absent object fails. -/
theorem zplReadFileWith_of_none {disk : Disk} {zpl : ObjsetPhys} {id : UInt64}
    (hd : (mosDnode disk zpl id).value = none) (size : Option UInt64) :
    (zplReadFileWith disk zpl id size).value = .error (.truncated "zpl file object (absent or empty slot)" 1 0) := by
  rw [zplReadFileWith, value_bind, hd]
  rfl

/-- The first blocks of an object are a prefix of more of them. -/
theorem prefix_objectBytes (disk : Disk) (d : Dnode) {m n : Nat} (h : m ≤ n) :
    objectBytes disk d m <+: objectBytes disk d n := by
  obtain ⟨k, rfl⟩ := Nat.exists_eq_add_of_le h
  rw [objectBytes, objectBytes, List.range_add, List.flatMap_append]
  exact List.prefix_append _ _

theorem length_objectBytes (disk : Disk) (d : Dnode) (n : Nat) :
    (objectBytes disk d n).length = ((List.range n).map (fun i => (blockData disk d i).length)).sum := by
  rw [objectBytes, List.length_flatMap]

/-! ## File reads with and without a size -/

/-- Whether a file read of an object succeeds: it has a block size, and every visited block reads. -/
def FileReads (disk : Disk) (d : Dnode) : Prop := d.dataBlockSize ≠ 0 ∧ ∀ i < fileBlockCount d, Reads disk d i

/-- The bytes of the blocks a file read visits. -/
def fileBytes (disk : Disk) (d : Dnode) : Bytes := objectBytes disk d (fileBlockCount d)

theorem toOption_eq_some_iff {ε α : Type} {x : Except ε α} {a : α} : x.toOption = some a ↔ x = .ok a := by
  cases x with
  | error e => simp [Except.toOption]
  | ok b => simp [Except.toOption]

section FileReads

variable {disk : Disk} {zpl : ObjsetPhys} {id : UInt64} {d : Dnode} (hd : (mosDnode disk zpl id).value = some d)
include hd

/-- A file that reads, reads as its blocks, cut at the size. -/
theorem value_of_fileReads (h : FileReads disk d) (size : Option UInt64) :
    (zplReadFileWith disk zpl id size).value = .ok (cutAt size (fileBytes disk d)) :=
  (zplReadFileWith_eq_ok_iff hd size _).2 ⟨h.1, h.2, rfl⟩

theorem toOption_of_fileReads (h : FileReads disk d) (size : Option UInt64) :
    (zplReadFileWith disk zpl id size).value.toOption = some (cutAt size (fileBytes disk d)) :=
  toOption_eq_some_iff.2 (value_of_fileReads hd h size)

/-- One that does not, reads for no size. -/
theorem toOption_of_not_fileReads (h : ¬ FileReads disk d) (size : Option UInt64) :
    (zplReadFileWith disk zpl id size).value.toOption = none := by
  cases hread : (zplReadFileWith disk zpl id size).value.toOption with
  | none => rfl
  | some out =>
    obtain ⟨hz, hreads, -⟩ := (zplReadFileWith_eq_ok_iff hd size out).1 (toOption_eq_some_iff.1 hread)
    exact absurd ⟨hz, hreads⟩ h

/-- The cut at a size leaves a read as it is exactly where the file does not read, or has no more bytes than the size. -/
theorem zplReadFileWith_cut_iff (sz : UInt64) :
    (zplReadFileWith disk zpl id (some sz)).value.toOption = (zplReadFileWith disk zpl id none).value.toOption ↔
      ¬ FileReads disk d ∨ (fileBytes disk d).length ≤ sz.toNat := by
  by_cases h : FileReads disk d
  · rw [toOption_of_fileReads hd h, toOption_of_fileReads hd h, Option.some.injEq, cutAt, cutAt, Option.elim_some,
      Option.elim_none, List.take_eq_self_iff]
    simp [h]
  · rw [toOption_of_not_fileReads hd h, toOption_of_not_fileReads hd h]
    simp [h]

end FileReads

/-- A read at a size is the read at none, cut. -/
theorem value_zplReadFileWith (disk : Disk) (zpl : ObjsetPhys) (id : UInt64) (size : Option UInt64) :
    (zplReadFileWith disk zpl id size).value = (zplReadFileWith disk zpl id none).value.map (cutAt size) := by
  rw [zplReadFileWith, zplReadFileWith, value_bind, value_bind]
  cases (mosDnode disk zpl id).value with
  | none => rfl
  | some d =>
    dsimp only
    by_cases hz : d.dataBlockSize = 0
    · rw [if_pos hz, if_pos hz]
      rfl
    · rw [if_neg hz, if_neg hz, value_bind, value_bind]
      cases (readBlocks disk d (fileBlockCount d) 0 []).value with
      | error e => rfl
      | ok out => cases size <;> rfl

/-- An object of one block that reads is read as that block. -/
theorem fileReads_of_one_block {disk : Disk} {d : Dnode} {block : Block} (hsize : d.dataBlockSize ≠ 0)
    (hcount : fileBlockCount d = 1) (hread : (readDnodeData disk d 0).value = .ok block) :
    FileReads disk d ∧ fileBytes disk d = block.data := by
  have hdata : blockData disk d 0 = block.data := blockData_of_read hread
  refine ⟨⟨hsize, fun i hi => ?_⟩, ?_⟩
  · rw [hcount, Nat.lt_one_iff] at hi
    rw [hi]
    exact ⟨_, hread⟩
  · rw [fileBytes, objectBytes, hcount, List.range_one, List.flatMap_singleton, hdata]

/-- A file read of an absent object fails for every size. -/
theorem toOption_of_absent {disk : Disk} {zpl : ObjsetPhys} {id : UInt64} (hd : (mosDnode disk zpl id).value = none)
    (size : Option UInt64) : (zplReadFileWith disk zpl id size).value.toOption = none := by
  rw [zplReadFileWith_of_none hd]
  rfl

end ZfsForensic
