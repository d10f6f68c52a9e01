import ZfsForensic.Lemmas.Body
import ZfsForensic.Lemmas.Encode

/-!
# Writing blocks

A writer of the on-disk form packs a block with a codec of its own choice, lays the packed bytes at a sector of the vdev and keeps a
pointer to them, with their fletcher4 sums. A block of zeros is not laid down: its pointer is a hole of its size. What is written so is
read back, and verified.
-/

namespace ZfsForensic

open Octets Checked Checked.Run

/-- Whether a block is of whole sectors, as many as a dnode can declare. -/
def Whole (data : Bytes) : Prop := ∃ k, 0 < k ∧ k < 2 ^ 16 ∧ data.length = 512 * k

/-- How a writer packs its blocks: into whole sectors, which the code it names decompresses. -/
structure Packer (Γ : Ctx) where
  code : Bytes → UInt8
  pack : Bytes → Bytes
  code_lt : ∀ data, (code data).toNat < 2 ^ 7
  whole : ∀ data, Whole data → Whole (pack data)
  unpack : ∀ data, Whole data → decompress Γ (CompressType.fromRaw (code data)) (pack data) data.length = .ok data

/-- The packer that stores a block as it is. -/
def Packer.stored (Γ : Ctx) : Packer Γ where
  code _ := 2
  pack data := data
  code_lt _ := by decide
  whole _ h := h
  unpack data _ := by
    have hoff : CompressType.fromRaw 2 = .off := rfl
    rw [hoff, decompress, decompressOff_eq_self rfl]

/-- The whole sectors some bytes take. -/
def sectorsOf (data : Bytes) : Nat := data.length / 512

/-- Whether a block is all zeros. -/
def allZero (data : Bytes) : Bool := data.all (fun b => b == 0)

/-- The pointer of a block that is not laid down. -/
def zeroPtr (objectType level : UInt8) (data : Bytes) : Blkptr :=
  { (default : Blkptr) with
    lsizeRaw := UInt32.ofNat (sectorsOf data - 1)
    objectType := objectType
    level := level
    byteorder := .little }

/-- What a read of a block says of its checksum: a hole has none. -/
def recordVerdict (data : Bytes) : Option Bool := if allZero data then none else some true

namespace Packer

variable {Γ : Ctx} (P : Packer Γ)

/-- The pointer of a block whose packed bytes begin at a sector. -/
def blockPtr (sector : Nat) (objectType level : UInt8) (data : Bytes) : Blkptr :=
  { (default : Blkptr) with
    dvas := #v[⟨0, UInt32.ofNat (sectorsOf (P.pack data)), UInt64.ofNat sector, false⟩, default, default]
    lsizeRaw := UInt32.ofNat (sectorsOf data - 1)
    psizeRaw := UInt32.ofNat (sectorsOf (P.pack data) - 1)
    compression := P.code data
    checksum := 7
    objectType := objectType
    level := level
    byteorder := .little
    checksumWords := fletcher4 (P.pack data) .little }

/-- The pointer of a block laid down at a sector, unless it is all zeros. -/
def recordPtr (sector : Nat) (objectType : UInt8) (data : Bytes) : Blkptr :=
  if allZero data then zeroPtr objectType 0 data else P.blockPtr sector objectType 0 data

/-- The bytes laid down for a block. -/
def recordBytes (data : Bytes) : Bytes := if allZero data then [] else P.pack data

end Packer

theorem allZero_zeros (n : Nat) : allZero (zeros n) = true := by
  refine List.all_eq_true.2 fun b hb => ?_
  rw [List.eq_of_mem_replicate hb]
  rfl

/-! ## Sizes -/

theorem Whole.sectors {data : Bytes} (h : Whole data) :
    0 < sectorsOf data ∧ sectorsOf data < 2 ^ 16 ∧ data.length = 512 * sectorsOf data := by
  obtain ⟨k, hpos, hlt, hlen⟩ := h
  have hk : sectorsOf data = k := by rw [sectorsOf, hlen, Nat.mul_div_cancel_left k (by decide)]
  rw [hk]
  exact ⟨hpos, hlt, hlen⟩

/-- A count of sectors less one, in its 32-bit field. -/
theorem Whole.sizeRaw {data : Bytes} (h : Whole data) : (UInt32.ofNat (sectorsOf data - 1)).toNat = sectorsOf data - 1 := by
  obtain ⟨hpos, hlt, -⟩ := h.sectors
  rw [UInt32.toNat_ofNat']
  omega

theorem Whole.le_maxBlockSize {data : Bytes} (h : Whole data) : data.length ≤ maxBlockSize ∧ 0 < data.length := by
  obtain ⟨hpos, hlt, hlen⟩ := h.sectors
  have hmax : maxBlockSize = 33554432 := rfl
  omega

/-- A field of so many whole sectors, less one, stands for the bytes of a block. -/
theorem lsizeBytes_of_sectors {bp : Blkptr} (hembedded : bp.embedded = false) {data : Bytes} (h : Whole data)
    (hraw : bp.lsizeRaw = UInt32.ofNat (sectorsOf data - 1)) : bp.lsizeBytes = data.length := by
  obtain ⟨hpos, -, hlen⟩ := h.sectors
  rw [Blkptr.lsizeBytes_of_not_embedded hembedded, hraw, h.sizeRaw, hlen]
  omega

theorem psizeBytes_of_sectors {bp : Blkptr} (hembedded : bp.embedded = false) {data : Bytes} (h : Whole data)
    (hraw : bp.psizeRaw = UInt32.ofNat (sectorsOf data - 1)) : bp.psizeBytes = data.length := by
  obtain ⟨hpos, -, hlen⟩ := h.sectors
  rw [Blkptr.psizeBytes_of_not_embedded hembedded, hraw, h.sizeRaw, hlen]
  omega

/-- The address of a sector behind the boot skew. -/
theorem physicalByteOffset_of_sector {sector : Nat} (h : sector < 2 ^ 50) (asize : UInt32) :
    (Dva.physicalByteOffset ⟨0, asize, UInt64.ofNat sector, false⟩).toNat = 0x400000 + 512 * sector := by
  have hskew : bootSkew.toNat = 0x400000 := rfl
  have hpow : 2 ^ ((9 : UInt64).toNat % 64) = 512 := rfl
  rw [Dva.physicalByteOffset, toNat_satAddU64, UInt64.toNat_shiftLeft, UInt64.toNat_ofNat', hskew, Nat.shiftLeft_eq, hpow]
  omega

/-! ## Blocks read back -/

/-- A string is all zeros exactly when it is the zeros of its length. -/
theorem allZero_iff (data : Bytes) : allZero data = true ↔ data = zeros data.length := by
  rw [allZero, List.all_eq_true]
  constructor
  · intro h
    exact List.eq_replicate_of_mem fun b hb => by simpa using h b hb
  · intro h b hb
    rw [h] at hb
    simpa using List.eq_of_mem_replicate hb

/-- A block is read from its first copy, where that lies in the image and decompresses. -/
theorem readBlockWith_of_first {Γ : Ctx} {get : Nat → Nat → Option Bytes} {len off : Nat} {raw data : Bytes} {bp : Blkptr} {dva : Dva}
    {rest : List Dva} {verdict : Option Bool} (hembedded : bp.embedded = false) (hdvas : bp.dvas.toList = dva :: rest)
    (hempty : dva.isEmpty = false) (hphys : dva.physicalByteOffset.toNat = off)
    (hlsize : bp.lsizeBytes ≤ maxBlockSize ∧ 0 < bp.lsizeBytes) (hfit : off + bp.psizeBytes < 2 ^ 64)
    (hget : get off (off + bp.psizeBytes) = some raw)
    (hdata : decompress Γ (CompressType.fromRaw bp.compression) raw bp.lsizeBytes = .ok data)
    (hverdict : verify Γ (ChecksumType.fromRaw bp.checksum) bp.byteorder raw bp.checksumWords = verdict) :
    readBlockWith Γ get len bp = .ok ⟨data, verdict, 0⟩ := by
  have hhole : bp.isHole = false := by
    rw [Blkptr.isHole, hdvas, List.all_cons, hempty, Bool.false_and, Bool.and_false]
  have hcap : ¬ (bp.lsizeBytes = 0 ∨ maxBlockSize < bp.lsizeBytes) :=
    not_or.2 ⟨Nat.pos_iff_ne_zero.1 hlsize.2, Nat.not_lt.2 hlsize.1⟩
  have hturn : ∀ err, readDvas Γ get len bp 0 (dva :: rest) err = .ok ⟨data, verdict, 0⟩ := by
    intro err
    rw [readDvas, if_neg (by rw [hempty]; decide)]
    dsimp only
    rw [hphys, satAdd_eq hfit, hget]
    dsimp only
    rw [hverdict, hdata]
    rfl
  rw [readBlockWith, if_neg hcap, if_neg (by rw [hembedded]; decide), if_neg (by rw [hhole]; decide), hdvas, hturn]

section Read

variable {Γ : Ctx} (P : Packer Γ) {image data : Bytes} {sector : Nat} (objectType level : UInt8)

theorem Packer.isEmpty_dva (h : Whole data) :
    (⟨0, UInt32.ofNat (sectorsOf (P.pack data)), UInt64.ofNat sector, false⟩ : Dva).isEmpty = false := by
  obtain ⟨hpos, hlt, -⟩ := (P.whole data h).sectors
  have hne : UInt32.ofNat (sectorsOf (P.pack data)) ≠ 0 := by
    intro hzero
    have hnat := congrArg UInt32.toNat hzero
    rw [UInt32.toNat_ofNat', UInt32.toNat_zero] at hnat
    omega
  simp [Dva.isEmpty, hne]

/-- The pointer of a block is no hole. -/
theorem Packer.isHole_blockPtr (h : Whole data) : (P.blockPtr sector objectType level data).isHole = false := by
  have hempty : (⟨0, UInt32.ofNat (sectorsOf (P.pack data)), UInt64.ofNat sector, false⟩ : Dva).isEmpty = false := P.isEmpty_dva h
  have hdvas : (P.blockPtr sector objectType level data).dvas.toList =
      [⟨0, UInt32.ofNat (sectorsOf (P.pack data)), UInt64.ofNat sector, false⟩, default, default] := rfl
  rw [Blkptr.isHole, hdvas, List.all_cons, hempty, Bool.false_and, Bool.and_false]

/-- A packed block is read back from its sector, and its sums verify. -/
theorem Packer.readBlock_blockPtr (h : Whole data) (hsector : sector < 2 ^ 50)
    (hpart : Part image (0x400000 + 512 * sector) (P.pack data)) :
    readBlock Γ image (P.blockPtr sector objectType level data) = .ok ⟨data, some true, 0⟩ := by
  have hlsize : (P.blockPtr sector objectType level data).lsizeBytes = data.length := lsizeBytes_of_sectors rfl h rfl
  have hpsize : (P.blockPtr sector objectType level data).psizeBytes = (P.pack data).length :=
    psizeBytes_of_sectors rfl (P.whole data h) rfl
  have hpacked := (P.whole data h).le_maxBlockSize.1
  have hmax : maxBlockSize = 33554432 := rfl
  have hfit : 0x400000 + 512 * sector + (P.pack data).length < 2 ^ 64 := by omega
  have hget : slice? image (0x400000 + 512 * sector)
      (0x400000 + 512 * sector + (P.blockPtr sector objectType level data).psizeBytes) = some (P.pack data) := by
    rw [hpsize]
    exact hpart
  refine readBlockWith_of_first rfl rfl (P.isEmpty_dva h) (physicalByteOffset_of_sector hsector _) ?_ ?_ hget ?_ ?_
  · rw [hlsize]
    exact h.le_maxBlockSize
  · rw [hpsize]
    exact hfit
  · rw [hlsize]
    exact P.unpack data h
  · exact congrArg some (beq_self_eq_true (fletcher4 (P.pack data) .little))

/-- A hole is read back as the zeros it stands for. -/
theorem readBlock_zeroPtr (h : Whole data) (hzero : allZero data = true) :
    readBlock Γ image (zeroPtr objectType level data) = .ok ⟨data, none, 0⟩ := by
  have hlsize : (zeroPtr objectType level data).lsizeBytes = data.length := lsizeBytes_of_sectors rfl h rfl
  have hhole : (zeroPtr objectType level data).isHole = true := rfl
  rw [readBlock_of_isHole Γ image hhole (by rw [hlsize]; exact h.le_maxBlockSize.1), hlsize, ← (allZero_iff data).1 hzero]

/-- A record is read back through its pointer. -/
theorem Packer.readBlock_recordPtr (h : Whole data) (hsector : sector < 2 ^ 50)
    (hpart : Part image (0x400000 + 512 * sector) (P.recordBytes data)) :
    readBlock Γ image (P.recordPtr sector objectType data) = .ok ⟨data, recordVerdict data, 0⟩ := by
  unfold recordBytes at hpart
  unfold recordPtr recordVerdict
  split
  · rename_i hzero
    exact readBlock_zeroPtr objectType 0 h hzero
  · rename_i hzero
    rw [if_neg hzero] at hpart
    exact P.readBlock_blockPtr objectType 0 h hsector hpart

end Read

/-! ## Pointers as they are stored -/

section Stored

variable {Γ : Ctx} (P : Packer Γ) {data : Bytes} {sector : Nat} (objectType : UInt8) {level : UInt8}

theorem Packer.blockPtr_stored (h : Whole data) (hsector : sector < 2 ^ 50) (hlevel : level.toNat < 2 ^ 5) :
    (P.blockPtr sector objectType level data).Stored := by
  obtain ⟨hpos, hlt, -⟩ := (P.whole data h).sectors
  obtain ⟨hpos', hlt', -⟩ := h.sectors
  refine ⟨rfl, fun d hd => ?_, ?_, ?_, P.code_lt data, hlevel, rfl, rfl, rfl⟩
  · have hcases : d = ⟨0, UInt32.ofNat (sectorsOf (P.pack data)), UInt64.ofNat sector, false⟩ ∨ d = default := by
      simpa [blockPtr] using hd
    rcases hcases with rfl | rfl
    · refine ⟨(by decide : (0 : UInt32).toNat < 2 ^ 24), ?_, ?_⟩
      · rw [UInt32.toNat_ofNat']
        omega
      · rw [UInt64.toNat_ofNat']
        omega
    · exact ⟨by decide, by decide, by decide⟩
  · change (UInt32.ofNat (sectorsOf data - 1)).toNat < 2 ^ 16
    rw [h.sizeRaw]
    omega
  · change (UInt32.ofNat (sectorsOf (P.pack data) - 1)).toNat < 2 ^ 16
    rw [(P.whole data h).sizeRaw]
    omega

theorem zeroPtr_stored (h : Whole data) (hlevel : level.toNat < 2 ^ 5) : (zeroPtr objectType level data).Stored := by
  obtain ⟨hpos, hlt, -⟩ := h.sectors
  refine ⟨rfl, fun d hd => ?_, ?_, (by decide : (0 : UInt32).toNat < 2 ^ 16), (by decide : (0 : UInt8).toNat < 2 ^ 7), hlevel, rfl, rfl,
    rfl⟩
  · have hd : d = default := by simpa [zeroPtr, default, instInhabitedBlkptr.default] using hd
    subst hd
    exact ⟨by decide, by decide, by decide⟩
  · change (UInt32.ofNat (sectorsOf data - 1)).toNat < 2 ^ 16
    rw [h.sizeRaw]
    omega

theorem Packer.recordPtr_stored (h : Whole data) (hsector : sector < 2 ^ 50) : (P.recordPtr sector objectType data).Stored := by
  unfold recordPtr
  split
  · exact zeroPtr_stored objectType h (by decide)
  · exact P.blockPtr_stored objectType h hsector (by decide)

end Stored

end ZfsForensic
