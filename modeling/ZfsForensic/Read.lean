import ZfsForensic.Checksum
import ZfsForensic.Compress
import ZfsForensic.Dnode

/-!
# Block reads, the block tree, and object lookup

`readBlock` takes a block pointer to bytes. `readDnodeData` reads logical block `blkid` of an object: the top index selects an
entry of `dn_blkptr[]`, and each level below picks a child by the next digit of `blkid`. `mosDnode` reads an object's dnode out
of the meta-dnode's blocks. The walk keeps both builds in view, since its shifts and products come from bytes of the image.
-/

namespace ZfsForensic

open Octets Checked Checked.Run

/-- Hard upper bound on a single block's logical size: 32 MiB. -/
def maxBlockSize : Nat := 32 * 1024 * 1024

/-- Maximum indirect-tree depth to follow. -/
def maxIndirectLevels : UInt8 := 8

/-- A block read from the image: its logical bytes, the checksum verdict, and the copy that served it. -/
structure Block where
  data : Bytes
  checksumValid : Option Bool
  dvaUsed : UInt8
deriving DecidableEq, Repr

/-- The loop of `readBlock` over the copies of a block: the first that lies in the image and decompresses. `get` is
`image.get(a..b)`, and `len` the image's length. -/
def readDvas (Γ : Ctx) (get : Nat → Nat → Option Bytes) (len : Nat) (bp : Blkptr) :
    Nat → List Dva → ZfsError → Except ZfsError Block
  | _, [], lastErr => .error lastErr
  | i, dva :: dvas, lastErr =>
    if dva.isEmpty then readDvas Γ get len bp (i + 1) dvas lastErr
    else
      let phys := dva.physicalByteOffset.toNat
      let stop := satAdd phys bp.psizeBytes
      match get phys stop with
      | none => readDvas Γ get len bp (i + 1) dvas (.truncated "block DVA range" stop len)
      | some raw =>
        let checksumValid := verify Γ (ChecksumType.fromRaw bp.checksum) bp.byteorder raw bp.checksumWords
        match decompress Γ (CompressType.fromRaw bp.compression) raw bp.lsizeBytes with
        | .ok data => .ok ⟨data, checksumValid, UInt8.ofNat i⟩
        | .error e => readDvas Γ get len bp (i + 1) dvas e

/-- `readBlock` over the ranges and the length of an image. -/
def readBlockWith (Γ : Ctx) (get : Nat → Nat → Option Bytes) (len : Nat) (bp : Blkptr) : Except ZfsError Block :=
  let lsize := bp.lsizeBytes
  if lsize = 0 ∨ maxBlockSize < lsize then .error (.allocationBomb "LSIZE" lsize maxBlockSize)
  else if bp.embedded then
    (decompress Γ (CompressType.fromRaw bp.compression) bp.embeddedData lsize).map (fun data => ⟨data, none, 0⟩)
  else if bp.isHole then .ok ⟨zeros lsize, none, 0⟩
  else readDvas Γ get len bp 0 bp.dvas.toList (.truncated "block (no DVA readable)" bp.psizeBytes len)

/-- Read the block a pointer names: the inline payload of an embedded one, zeros for a hole, else a copy from the image. -/
def readBlock (Γ : Ctx) (image : Bytes) (bp : Blkptr) : Except ZfsError Block :=
  readBlockWith Γ (slice? image) image.length bp

/-- What a block pointer reads as. Everything above the block layer reads the image in this way only, so it takes the reader,
`readBlock Γ image`, in place of the image. -/
abbrev Disk := Blkptr → Except ZfsError Block

/-- Pointers per indirect block, at least one. -/
def Dnode.ptrsPerIndirect (d : Dnode) : Nat := max (d.indirectBlockSize / blkptrSize) 1

/-- The bits of a block id that one level takes. -/
def Dnode.levelShift (d : Dnode) : UInt32 := UInt32.ofNat (trailingZeros 64 d.ptrsPerIndirect)

/-- The index of a block id at a level: `blkid >> (level * shift)`. -/
def levelIndex (dnode : Dnode) (blkid : UInt64) (level : Nat) : Run UInt64 := do
  let amount ← mulU32 (UInt32.ofNat level) dnode.levelShift
  shrU64 blkid amount

/-- The descent of `readDnodeData` from a pointer `level` levels above the data. A hole below the top ends it. -/
def descend (disk : Disk) (dnode : Dnode) (blkid : UInt64) : Nat → Blkptr → Run (Except ZfsError Block)
  | 0, bp => pure (disk bp)
  | level + 1, bp =>
    match disk bp with
    | .error e => pure (.error e)
    | .ok block => do
      let index ← levelIndex dnode blkid level
      let mask ← subU64 (UInt64.ofNat dnode.ptrsPerIndirect) 1
      let childIndex := (index &&& mask).toNat
      let off := satMul childIndex blkptrSize
      match slice? block.data off (satAdd off blkptrSize) with
      | none => pure (.error (.outOfRange "indirect child index" childIndex (block.data.length / blkptrSize)))
      | some child =>
        let bp := Blkptr.parse child dnode.endian
        if bp.isHole then pure (disk bp) else descend disk dnode blkid level bp

/-- Read logical block `blkid` of an object through its indirect tree. -/
def readDnodeData (disk : Disk) (dnode : Dnode) (blkid : UInt64) : Run (Except ZfsError Block) :=
  if dnode.dnNlevels = 0 then pure (.error (.outOfRange "dn_nlevels" 0 maxIndirectLevels.toNat))
  else if dnode.dnMaxblkid < blkid then pure (.error (.outOfRange "blkid" blkid.toNat dnode.dnMaxblkid.toNat))
  else do
    let topLevel ← subU8 (min dnode.dnNlevels maxIndirectLevels) 1
    let topIndex ← levelIndex dnode blkid topLevel.toNat
    match dnode.blkptr topIndex.toNat with
    | none => pure (.error (.outOfRange "top blkptr index" topIndex.toNat dnode.blkptrs.length))
    | some bp => descend disk dnode blkid topLevel.toNat bp

/-- The `n` blocks of an object from block `blkid` on, appended to `out`: the loop that every whole-object read runs. -/
def readBlocks (disk : Disk) (dnode : Dnode) : Nat → Nat → Bytes → Run (Except ZfsError Bytes)
  | 0, _, out => pure (.ok out)
  | n + 1, blkid, out => do
    match ← readDnodeData disk dnode (UInt64.ofNat blkid) with
    | .error e => pure (.error e)
    | .ok block => readBlocks disk dnode n (blkid + 1) (out ++ block.data)

/-- Resolve an object id to its dnode: the 512 bytes of its slot, parsed. `none` for an unreadable block or an empty slot. -/
def mosDnode (disk : Disk) (objset : ObjsetPhys) (objectId : UInt64) : Run (Option Dnode) :=
  let dblk := objset.metaDnode.dataBlockSize
  if dblk = 0 then pure none
  else
    let dnodesPerBlock := UInt64.ofNat (dblk / dnodeSize)
    if dnodesPerBlock = 0 then pure none
    else do
      let blkid := objectId / dnodesPerBlock
      let within ← mulUsize (objectId % dnodesPerBlock).toNat dnodeSize
      match ← readDnodeData disk objset.metaDnode blkid with
      | .error _ => pure none
      | .ok block => do
        let stop ← addUsize within dnodeSize
        match slice? block.data within stop with
        | none => pure none
        | some raw =>
          match Dnode.parse raw objset.endian with
          | none => pure none
          | some dnode => if dnode.dnType = 0 then pure none else pure (some dnode)

/-! ## Sizes and shifts -/

/-- The pointers per indirect block are a power of two, its exponent the block shift less the seven bits of a pointer. -/
theorem Dnode.ptrsPerIndirect_eq (d : Dnode) : d.ptrsPerIndirect = 2 ^ (min d.dnIndblkshift.toNat 24 - 7) := by
  unfold ptrsPerIndirect indirectBlockSize blkptrSize
  rw [Nat.shiftLeft_eq, Nat.one_mul]
  generalize min d.dnIndblkshift.toNat 24 = s
  by_cases hs : 7 ≤ s
  · obtain ⟨k, rfl⟩ := Nat.exists_eq_add_of_le hs
    have hk : 2 ^ (7 + k) / 128 = 2 ^ k := by
      rw [Nat.pow_add]
      exact Nat.mul_div_cancel_left _ (by omega)
    have hpos : 0 < 2 ^ k := Nat.pow_pos (by omega)
    rw [hk, Nat.add_sub_cancel_left]
    omega
  · have hlt : 2 ^ s < 128 := Nat.pow_lt_pow_right (by omega) (by omega : s < 7)
    have hzero : s - 7 = 0 := by omega
    rw [Nat.div_eq_of_lt hlt, hzero]
    rfl

theorem Dnode.levelShift_toNat (d : Dnode) : d.levelShift.toNat = min d.dnIndblkshift.toNat 24 - 7 := by
  rw [levelShift, ptrsPerIndirect_eq, trailingZeros_two_pow (by omega), UInt32.toNat_ofNat']
  omega

theorem Dnode.levelShift_le (d : Dnode) : d.levelShift.toNat ≤ 17 := by
  rw [levelShift_toNat]
  omega

theorem Dnode.ptrsPerIndirect_eq_two_pow (d : Dnode) : d.ptrsPerIndirect = 2 ^ d.levelShift.toNat := by
  rw [levelShift_toNat, ptrsPerIndirect_eq]

theorem Dnode.ptrsPerIndirect_le (d : Dnode) : d.ptrsPerIndirect ≤ 2 ^ 17 := by
  rw [ptrsPerIndirect_eq_two_pow]
  exact Nat.pow_le_pow_right (by omega) d.levelShift_le

/-- The index of a level stops a debug build exactly when its shift amount reaches the width of a word. -/
theorem levelIndex_panics (d : Dnode) (blkid : UInt64) {level : Nat} (h : level < 8) :
    (levelIndex d blkid level).panics = decide (64 ≤ level * d.levelShift.toNat) := by
  have hs := d.levelShift_le
  have hl : (UInt32.ofNat level).toNat = level := by
    rw [UInt32.toNat_ofNat']
    omega
  have hprod : (UInt32.ofNat level).toNat * d.levelShift.toNat < 2 ^ 32 := by
    rw [hl]
    calc level * d.levelShift.toNat ≤ 8 * 17 := Nat.mul_le_mul (by omega) hs
      _ < 2 ^ 32 := by omega
  obtain ⟨hp, hv⟩ := mulU32_eq hprod
  rw [levelIndex, panics_bind, hp, Bool.false_or]
  simp only [shrU64]
  rw [hv, hl]

/-- Below that amount it is the quotient by the power of two. -/
theorem levelIndex_value (d : Dnode) (blkid : UInt64) {level : Nat} (h : level < 8)
    (h64 : level * d.levelShift.toNat < 64) :
    (levelIndex d blkid level).value.toNat = blkid.toNat / 2 ^ (level * d.levelShift.toNat) := by
  have hl : (UInt32.ofNat level).toNat = level := by
    rw [UInt32.toNat_ofNat']
    omega
  obtain ⟨-, hv⟩ := mulU32_eq (a := UInt32.ofNat level) (b := d.levelShift) (by rw [hl]; omega)
  rw [hl] at hv
  rw [levelIndex, value_bind, (shrU64_eq (by omega)).2, hv]

/-! ## Block reads -/

/-- A hole reads as the zeros of its own size field. -/
theorem readBlock_of_isHole (Γ : Ctx) (image : Bytes) {bp : Blkptr} (h : bp.isHole = true)
    (hle : bp.lsizeBytes ≤ maxBlockSize) : readBlock Γ image bp = .ok ⟨zeros bp.lsizeBytes, none, 0⟩ := by
  have hne := Blkptr.embedded_of_isHole h
  have hpos := Blkptr.lsizeBytes_pos hne
  unfold readBlock readBlockWith
  rw [if_neg (by omega), if_neg (by simp [hne]), if_pos h]

/-- A pointer past the size cap is refused. -/
theorem readBlock_of_lt_lsize (Γ : Ctx) (image : Bytes) {bp : Blkptr} (hlt : maxBlockSize < bp.lsizeBytes) :
    readBlock Γ image bp = .error (.allocationBomb "LSIZE" bp.lsizeBytes maxBlockSize) := by
  unfold readBlock readBlockWith
  rw [if_pos (Or.inr hlt)]

theorem readDvas_congr (Γ : Ctx) {get get' : Nat → Nat → Option Bytes}
    (h : ∀ a b, 0x400000 ≤ a → get a b = get' a b) (len : Nat) (bp : Blkptr) (i : Nat) (dvas : List Dva) (e : ZfsError) :
    readDvas Γ get len bp i dvas e = readDvas Γ get' len bp i dvas e := by
  induction dvas generalizing i e with
  | nil => rfl
  | cons dva dvas ih =>
    have hget := h dva.physicalByteOffset.toNat (satAdd dva.physicalByteOffset.toNat bp.psizeBytes)
      dva.bootSkew_le_physicalByteOffset
    simp only [readDvas, hget, ih]

/-- A block read looks at no byte of the two front labels and the boot block. -/
theorem readBlockWith_congr (Γ : Ctx) {get get' : Nat → Nat → Option Bytes}
    (h : ∀ a b, 0x400000 ≤ a → get a b = get' a b) (len : Nat) : readBlockWith Γ get len = readBlockWith Γ get' len := by
  funext bp
  simp only [readBlockWith, readDvas_congr Γ h]

theorem length_readDvas {Γ : Ctx} {get : Nat → Nat → Option Bytes} {len : Nat} {bp : Blkptr} {i : Nat} {dvas : List Dva}
    {e : ZfsError} {block : Block} (h : readDvas Γ get len bp i dvas e = .ok block)
    (hkind : CompressType.fromRaw bp.compression ≠ .lz4) : block.data.length = bp.lsizeBytes := by
  induction dvas generalizing i e with
  | nil => exact absurd h (by simp [readDvas])
  | cons dva dvas ih =>
    rw [readDvas] at h
    split at h
    · exact ih h
    · dsimp only at h
      split at h
      · exact ih h
      · split at h
        · rename_i hdata
          rw [Except.ok.injEq] at h
          rw [← h]
          exact length_decompress hdata hkind
        · exact ih h

/-- A block reads as its declared length, unless its codec is lz4. -/
theorem length_readBlock {Γ : Ctx} {image : Bytes} {bp : Blkptr} {block : Block} (h : readBlock Γ image bp = .ok block)
    (hkind : CompressType.fromRaw bp.compression ≠ .lz4) : block.data.length = bp.lsizeBytes := by
  unfold readBlock readBlockWith at h
  dsimp only at h
  split at h
  · exact absurd h (by simp)
  · split at h
    · obtain ⟨data, hdata, hblock⟩ := exists_of_map_eq_ok h
      rw [← hblock]
      exact length_decompress hdata hkind
    · split at h
      · rw [Except.ok.injEq] at h
        rw [← h, length_zeros]
      · exact length_readDvas h hkind

theorem length_readDvas_le {Γ : Ctx} (hΓ : Γ.Bounded) {get : Nat → Nat → Option Bytes} {len : Nat} {bp : Blkptr} {i : Nat}
    {dvas : List Dva} {e : ZfsError} {block : Block} (h : readDvas Γ get len bp i dvas e = .ok block) :
    block.data.length ≤ bp.lsizeBytes := by
  induction dvas generalizing i e with
  | nil => exact absurd h (by simp [readDvas])
  | cons dva dvas ih =>
    rw [readDvas] at h
    split at h
    · exact ih h
    · dsimp only at h
      split at h
      · exact ih h
      · split at h
        · rename_i hdata
          rw [Except.ok.injEq] at h
          rw [← h]
          exact length_decompress_le hΓ hdata
        · exact ih h

/-- With a decoder that keeps to its length, no block reads as more than its declared length. -/
theorem length_readBlock_le_lsize {Γ : Ctx} (hΓ : Γ.Bounded) {image : Bytes} {bp : Blkptr} {block : Block}
    (h : readBlock Γ image bp = .ok block) : block.data.length ≤ bp.lsizeBytes := by
  unfold readBlock readBlockWith at h
  dsimp only at h
  split at h
  · exact absurd h (by simp)
  · split at h
    · obtain ⟨data, hdata, hblock⟩ := exists_of_map_eq_ok h
      rw [← hblock]
      exact length_decompress_le hΓ hdata
    · split at h
      · rw [Except.ok.injEq] at h
        rw [← h, length_zeros]
      · exact length_readDvas_le hΓ h

/-- A block that reads is inside the cap. -/
theorem lsizeBytes_le_of_readBlock {Γ : Ctx} {image : Bytes} {bp : Blkptr} {block : Block} (h : readBlock Γ image bp = .ok block) :
    bp.lsizeBytes ≤ maxBlockSize := by
  rcases Nat.lt_or_ge maxBlockSize bp.lsizeBytes with hlt | hle
  · have herr := (readBlock_of_lt_lsize Γ image hlt).symm.trans h
    exact absurd herr (by simp)
  · exact hle

end ZfsForensic
