import ZfsForensic.Audit
import ZfsForensic.Lemmas.Encode
import ZfsForensic.Recover

/-!
# Images built from a root pointer and a body

`imageOf txg rootbp body` is a pool image: one front label whose only uberblock roots at `rootbp`, and `body` at the first byte a
block pointer can name. Its label parses for every root pointer, and its blocks read from the body alone, so a statement about
such an image never looks at the four megabytes in front of the body.
-/

namespace ZfsForensic

open Octets Checked

/-- A little-endian uberblock slot of 1 KiB. -/
def uberblockSlot (txg : UInt64) (rootbp : Vector UInt8 128) : Bytes :=
  encode .little 8 uberblockMagic.toNat ++ zeros 8 ++ encode .little 8 txg.toNat ++ zeros 16 ++ rootbp.toList ++ zeros 856

/-- The packed configuration of such an image: the XDR header byte, and an empty list. -/
def emptyConfig : Bytes := [nvEncodeXdr] ++ zeros 114687

/-- The uberblock ring of such an image: the first slot, and no other. -/
def ringOf (txg : UInt64) (rootbp : Vector UInt8 128) : Bytes := uberblockSlot txg rootbp ++ zeros 130048

/-- A label of an empty configuration and one uberblock. -/
def labelOf (txg : UInt64) (rootbp : Vector UInt8 128) : Bytes := zeros 16384 ++ emptyConfig ++ ringOf txg rootbp

/-- The bytes in front of a body: one label, and zeros up to the boot skew. -/
def frontOf (txg : UInt64) (rootbp : Vector UInt8 128) : Bytes := labelOf txg rootbp ++ zeros 3932160

/-- A pool image. -/
def imageOf (txg : UInt64) (rootbp : Vector UInt8 128) (body : Bytes) : Bytes := frontOf txg rootbp ++ body

/-- The uberblock of such an image. -/
def uberblockOf (txg : UInt64) (rootbp : Vector UInt8 128) : Uberblock :=
  { endian := .little
    magic := uberblockMagic
    version := 0
    txg := txg
    guidSum := 0
    timestamp := 0
    rootbp := BlkptrSummary.parse ⟨.little⟩ rootbp.toList
    rootbpRaw := rootbp }

/-- The label of such an image, parsed. -/
def vdevLabelOf (txg : UInt64) (rootbp : Vector UInt8 128) : VdevLabel :=
  { config := [], activeUberblock := uberblockOf txg rootbp, activeSlot := 0 }

/-- The ranges of a body that begins at the boot skew. -/
def bodyGet (body : Bytes) (a b : Nat) : Option Bytes :=
  if a ≤ b then slice? body (a - 0x400000) (b - 0x400000) else none

/-- What block pointers read as in an image of a given body. -/
def bodyDisk (Γ : Ctx) (body : Bytes) : Disk := readBlockWith Γ (bodyGet body) (0x400000 + body.length)

/-- The object set a root pointer names in a body, with its byte order. -/
def openBody (Γ : Ctx) (rootbp : Vector UInt8 128) (body : Bytes) : Option (ObjsetPhys × Endian) :=
  match bodyDisk Γ body (Blkptr.parse rootbp.toList .little) with
  | .error _ => none
  | .ok block =>
    match ObjsetPhys.parse block.data .little with
    | .error _ => none
    | .ok mos => some (mos, .little)

section Lengths

variable (txg : UInt64) (rootbp : Vector UInt8 128)

@[simp] theorem length_uberblockSlot : (uberblockSlot txg rootbp).length = 1024 := by
  simp [uberblockSlot]

@[simp] theorem length_emptyConfig : emptyConfig.length = 114688 := by
  rw [emptyConfig, List.length_append, List.length_singleton, length_zeros]

@[simp] theorem length_ringOf : (ringOf txg rootbp).length = 131072 := by
  rw [ringOf, List.length_append, length_uberblockSlot, length_zeros]

@[simp] theorem length_labelOf : (labelOf txg rootbp).length = labelSize := by
  rw [labelOf, List.length_append, List.length_append, length_zeros, length_emptyConfig, length_ringOf, labelSize]

@[simp] theorem length_frontOf : (frontOf txg rootbp).length = 0x400000 := by
  rw [frontOf, List.length_append, length_labelOf, length_zeros, labelSize]

end Lengths

/-! ## The label parses -/

theorem parse_uberblockSlot (txg : UInt64) (rootbp : Vector UInt8 128) :
    Uberblock.parse (uberblockSlot txg rootbp) = some (uberblockOf txg rootbp) := by
  have hmagic : leU64 (uberblockSlot txg rootbp) 0 = uberblockMagic := by
    simp only [leU64, uberblockSlot, List.append_assoc, readUint_encode]
    rfl
  have htxg : leU64 (uberblockSlot txg rootbp) 16 = txg := by
    simp only [leU64, uberblockSlot, List.append_assoc]
    rw [readUint_append_right (by simp), readUint_append_right (by simp)]
    simp only [length_encode, List.length_replicate, Nat.reduceSub, readUint_encode]
    apply UInt64.toNat_inj.1
    have := txg.toNat_lt
    rw [UInt64.toNat_ofNat']
    omega
  have hversion : leU64 (uberblockSlot txg rootbp) 8 = 0 := by
    simp only [leU64, uberblockSlot, List.append_assoc]
    rw [readUint_append_right (by simp), readUint_append_left (by simp), readUint_zeros]
    rfl
  have hguid : leU64 (uberblockSlot txg rootbp) 24 = 0 := by
    simp only [leU64, uberblockSlot, List.append_assoc]
    rw [readUint_append_right (by simp), readUint_append_right (by simp), readUint_append_right (by simp),
      readUint_append_left (by simp), readUint_zeros]
    rfl
  have htime : leU64 (uberblockSlot txg rootbp) 32 = 0 := by
    simp only [leU64, uberblockSlot, List.append_assoc]
    rw [readUint_append_right (by simp), readUint_append_right (by simp), readUint_append_right (by simp),
      readUint_append_left (by simp), readUint_zeros]
    rfl
  have hbp : slice? (uberblockSlot txg rootbp) offRootbp (offRootbp + 128) = some rootbp.toList :=
    slice?_middle (by simp [offRootbp]) (by simp)
  have hraw : rootbpRegion (uberblockSlot txg rootbp) = rootbp := by
    unfold rootbpRegion
    split
    · rename_i bp h
      rw [hbp, Option.some.injEq] at h
      subst h
      apply Vector.toList_inj.1
      simp
    · rename_i h
      rw [hbp] at h
      exact absurd h (by simp)
  simp only [Uberblock.parse, detectEndian, hmagic, if_true, hbp, hraw, Reader.u64, hversion, htxg, hguid, htime]
  rfl

/-- A slot of zeros holds no uberblock. -/
theorem parse_zeros (n : Nat) : Uberblock.parse (zeros n) = none := by
  have hle : leU64 (zeros n) 0 = 0 := by
    rw [leU64, readUint_zeros]
    rfl
  have hbe : beU64 (zeros n) 0 = 0 := by
    rw [beU64, readUint_zeros]
    rfl
  rw [Uberblock.parse, detectEndian, hle, hbe]
  rfl

/-- The slots past the first keep the uberblock found. -/
theorem activeUberblockLoop_ringOf (txg : UInt64) (rootbp : Vector UInt8 128) (best : Option (Uberblock × Nat))
    (n slot : Nat) (h : slot + 1 + n ≤ 128) :
    activeUberblockLoop (ringOf txg rootbp) 1024 (slot + 1) n best = best := by
  induction n generalizing slot with
  | zero => rfl
  | succ n ih =>
    have hstop : satAdd ((slot + 1) * 1024) 1024 = (slot + 1) * 1024 + 1024 := satAdd_eq (by omega)
    have hlen : (uberblockSlot txg rootbp).length = 1024 := length_uberblockSlot txg rootbp
    have hwidth : (slot + 1) * 1024 + 1024 - 1024 - ((slot + 1) * 1024 - 1024) = 1024 := by omega
    have hs : slice? (ringOf txg rootbp) ((slot + 1) * 1024) ((slot + 1) * 1024 + 1024) = some (zeros 1024) := by
      rw [ringOf, slice?_append_right (by omega) (by omega), hlen, slice?_zeros (by omega) (by omega), hwidth]
    rw [activeUberblockLoop, if_neg (by omega), hstop, hs]
    dsimp only
    rw [parse_zeros]
    exact ih (slot + 1) (by omega)

theorem activeUberblock_ringOf (txg : UInt64) (rootbp : Vector UInt8 128) :
    activeUberblock (ringOf txg rootbp) 1024 128 = some (uberblockOf txg rootbp, 0) := by
  have hs : slice? (ringOf txg rootbp) 0 1024 = some (uberblockSlot txg rootbp) := by
    rw [ringOf, slice?_append_left (by rw [length_uberblockSlot])]
    exact slice?_self (length_uberblockSlot txg rootbp)
  have hstop : satAdd 0 1024 = 1024 := satAdd_eq (by omega)
  rw [activeUberblock, activeUberblockLoop, if_neg (by omega), Nat.zero_mul, hstop, hs]
  dsimp only
  rw [parse_uberblockSlot]
  exact activeUberblockLoop_ringOf txg rootbp _ 127 0 (by omega)

theorem nvlistParse_emptyConfig : nvlistParse emptyConfig = .ok [] := by
  have henc : u8At emptyConfig 0 = nvEncodeXdr := by
    rw [u8At, emptyConfig, List.getElem?_append_left (by simp)]
    rfl
  have hword : beU32 emptyConfig 12 = 0 := by
    rw [beU32, emptyConfig, readUint_append_right (by simp), readUint_zeros]
    rfl
  have hbody : parseBody emptyConfig (maxDepth + 1) 4 = .ok ([], satAdd 12 8) := by
    rw [parseBody_eq _ _ (by omega)]
    exact parsePairs_of_terminator hword _ 4095 []
  rw [nvlistParse, henc, if_neg (by simp), length_emptyConfig, if_neg (by omega), hbody]
  rfl

/-- The label of an image parses, whatever its root pointer. -/
theorem parse_labelOf (txg : UInt64) (rootbp : Vector UInt8 128) :
    VdevLabel.parse (labelOf txg rootbp) = .ok (vdevLabelOf txg rootbp) := by
  have hnv : slice? (labelOf txg rootbp) nvlistOffset (nvlistOffset + nvlistSize) = some emptyConfig :=
    slice?_middle (length_zeros _) (by rw [length_emptyConfig, nvlistSize])
  have hring : slice? (labelOf txg rootbp) uberblockRingOffset (uberblockRingOffset + uberblockRingSize) =
      some (ringOf txg rootbp) :=
    slice?_suffix (by rw [List.length_append, length_zeros, length_emptyConfig, uberblockRingOffset])
      (by rw [length_ringOf, uberblockRingSize])
  have hlen : labelSize ≤ (labelOf txg rootbp).length := (length_labelOf txg rootbp).ge
  have hactive : activeUberblock (ringOf txg rootbp) (1 <<< slotShift []) (uberblockRingSize / (1 <<< slotShift [])) =
      some (uberblockOf txg rootbp, 0) := by
    have hshift : slotShift [] = 10 := by decide
    rw [hshift]
    exact activeUberblock_ringOf txg rootbp
  exact VdevLabel.parse_eq_ok hlen hnv nvlistParse_emptyConfig hring hactive

/-! ## The blocks read from the body -/

section Image

variable (Γ : Ctx) (txg : UInt64) (rootbp : Vector UInt8 128) (body : Bytes)

theorem slice?_label_imageOf : slice? (imageOf txg rootbp body) 0 labelSize = some (labelOf txg rootbp) := by
  rw [imageOf, frontOf, List.append_assoc, slice?_append_left (length_labelOf txg rootbp).ge]
  exact slice?_self (length_labelOf txg rootbp)

/-- A range past the boot skew is a range of the body. -/
theorem slice?_imageOf {a : Nat} (b : Nat) (ha : 0x400000 ≤ a) : slice? (imageOf txg rootbp body) a b = bodyGet body a b := by
  unfold bodyGet
  split
  · rename_i hab
    rw [imageOf, slice?_append_right (by simpa using ha) hab, length_frontOf]
  · rename_i hab
    simp [slice?, hab]

theorem readBlock_imageOf : readBlock Γ (imageOf txg rootbp body) = bodyDisk Γ body := by
  have hlen : (imageOf txg rootbp body).length = 0x400000 + body.length := by
    rw [imageOf, List.length_append, length_frontOf]
  funext bp
  rw [readBlock, hlen, readBlockWith_congr Γ (fun a b ha => slice?_imageOf txg rootbp body b ha), bodyDisk]

/-- An image opens where its root pointer reads from the body as an object set. -/
theorem openMos_imageOf : openMos Γ (imageOf txg rootbp body) = openBody Γ rootbp body := by
  rewrite [openMos_of_label (slice?_label_imageOf txg rootbp body) (parse_labelOf txg rootbp), readBlock_imageOf]
  rfl

theorem recoverDeleted_imageOf :
    recoverDeleted Γ (imageOf txg rootbp body) =
      match openBody Γ rootbp body with
      | none => pure []
      | some (mos, endian) => recoverFrom Γ (bodyDisk Γ body) mos endian := by
  rewrite [recoverDeleted, openMos_imageOf, readBlock_imageOf]
  rfl

end Image

/-! ## Blocks of the body -/

/-- A pointer to `sectors` sectors at sector `sector` of the body, stored as they are. -/
def bodyPtr (sector : UInt64) (sectors : UInt32) (checksum objectType level : UInt8) : Blkptr :=
  { (default : Blkptr) with
    dvas := #v[⟨0, sectors, sector, false⟩, default, default]
    lsizeRaw := sectors - 1
    psizeRaw := sectors - 1
    compression := 2
    checksum := checksum
    objectType := objectType
    level := level
    byteorder := .little
    logicalBirth := 7
    fill := 1 }

theorem bodyPtr_stored {sector : UInt64} {sectors : UInt32} {level : UInt8} (checksum objectType : UInt8)
    (hsector : sector.toNat < 2 ^ 63) (hsectors : sectors.toNat < 2 ^ 16 ∧ (sectors - 1).toNat < 2 ^ 16) (hlevel : level.toNat < 2 ^ 5) :
    (bodyPtr sector sectors checksum objectType level).Stored := by
  refine ⟨rfl, fun d hd => ?_, hsectors.2, hsectors.2, (by decide : (2 : UInt8).toNat < 2 ^ 7), hlevel, rfl, rfl, rfl⟩
  have hcases : d = ⟨0, sectors, sector, false⟩ ∨ d = default := by simpa [bodyPtr] using hd
  rcases hcases with rfl | rfl
  · exact ⟨(by decide : (0 : UInt32).toNat < 2 ^ 24), hsectors.1.trans (by decide), hsector⟩
  · exact ⟨by decide, by decide, by decide⟩

/-! ## Inline blocks -/

/-- Third-party decoders that accept nothing, and a constant digest: an image that stores its blocks as they are calls none of
the decoders. -/
def storedCtx (digest : Vector UInt8 32) : Ctx :=
  { lz4Decompress := fun _ _ => none
    zlibRead := fun _ _ => none
    zstdNew := fun _ => false
    zstdRead := fun _ _ => none
    sha256Digest := fun _ => digest }

/-- A context for images whose content is never hashed. -/
def plainCtx : Ctx := storedCtx (Vector.replicate 32 0)

/-- The little-endian bytes of an embedded pointer, stored uncompressed, to `lsize` bytes that begin with the payload. -/
def inlinePtr (payload : Vector UInt8 112) (lsize : Nat) : Vector UInt8 128 :=
  ⟨(payload.toList.take 48 ++ encode .little 8 (0x80000082de000000 + (lsize - 1)) ++ (payload.toList.drop 48).take 32 ++
    zeros 8 ++ payload.toList.drop 80).toArray, by simp⟩

/-- A string filled up with zeros to `n` bytes. -/
def padTo (n : Nat) (bytes : Bytes) : Vector UInt8 n := ⟨(resize bytes n).toArray, length_resize bytes n⟩

/-- The bytes of an objset: a meta-dnode's core, its first pointer, and zeros. -/
def objsetBytes (core : Vector UInt8 64) (ptr : Vector UInt8 128) : Bytes := core.toList ++ ptr.toList ++ zeros 832

/-- The objset little-endian bytes hold. -/
def objsetOf (data : Bytes) : ObjsetPhys := (ObjsetPhys.parse data .little).toOption.getD default

end ZfsForensic
