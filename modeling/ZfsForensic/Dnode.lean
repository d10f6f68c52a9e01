import ZfsForensic.Blkptr

/-!
# Dnodes and object sets

A `dnode_phys_t` describes one object: its type, the shape of its block tree, and a bonus buffer. It takes one 512-byte slot and
`dn_extra_slots` more; the block pointers begin at byte 64 and the bonus after them. An `objset_phys_t` opens with the
meta-dnode, whose blocks are the array of every object's dnode.

The sizes below come from fields of at most sixteen bits, so no sum or product of them nears the width of a size.
-/

namespace ZfsForensic

open Octets

/-- The base size of a dnode, one slot. -/
def dnodeSize : Nat := 512

/-- The size of a dnode's fixed core, before the block pointers. -/
def dnodeCoreSize : Nat := 64

/-- A parsed `dnode_phys_t`. -/
structure Dnode where
  dnType : UInt8
  dnIndblkshift : UInt8
  dnNlevels : UInt8
  dnNblkptr : UInt8
  dnBonustype : UInt8
  dnChecksum : UInt8
  dnCompress : UInt8
  dnFlags : UInt8
  dnDatablkszsec : UInt16
  dnBonuslen : UInt16
  dnExtraSlots : UInt8
  dnMaxblkid : UInt64
  dnUsed : UInt64
  endian : Endian
  blkptrs : List Blkptr
  bonus : Bytes
deriving DecidableEq, Repr, Inhabited

/-- Data block size in bytes: `dn_datablkszsec << 9`. -/
def Dnode.dataBlockSize (d : Dnode) : Nat := d.dnDatablkszsec.toNat <<< 9

/-- Indirect block size in bytes: `1 << dn_indblkshift`, the shift capped at 24. -/
def Dnode.indirectBlockSize (d : Dnode) : Nat := 1 <<< min d.dnIndblkshift.toNat 24

/-- A top-level block pointer by index, if present. -/
def Dnode.blkptr (d : Dnode) (i : Nat) : Option Blkptr := d.blkptrs[i]?

/-- The bytes a dnode of `extra` further slots takes. -/
def Dnode.totalBytes (extra : UInt8) : Nat := (extra.toNat + 1) * dnodeSize

/-- The number of block pointers decoded: `dn_nblkptr`, cut at what fits the slots. -/
def Dnode.clampNblkptr (nblkptr extra : UInt8) : Nat :=
  min nblkptr.toNat ((Dnode.totalBytes extra - dnodeCoreSize) / blkptrSize)

/-- The length of the bonus buffer behind `nblkptr` pointers: `dn_bonuslen`, cut at what fits the slots. -/
def Dnode.clampBonuslen (bonuslen : UInt16) (extra : UInt8) (nblkptr : Nat) : Nat :=
  min bonuslen.toNat (Dnode.totalBytes extra - (dnodeCoreSize + nblkptr * blkptrSize))

/-- The block pointers `i, i + 1, …` of a dnode, `n` of them, up to the first that the bytes cannot supply. -/
def Dnode.parseBlkptrs (raw : Bytes) (endian : Endian) : Nat → Nat → List Blkptr
  | _, 0 => []
  | i, n + 1 =>
    let off := dnodeCoreSize + i * blkptrSize
    match slice? raw off (off + blkptrSize) with
    | some bp => Blkptr.parse bp endian :: Dnode.parseBlkptrs raw endian (i + 1) n
    | none => []

/-- Parse a `dnode_phys_t`: `none` only when `raw` is shorter than the core. A bonus that `raw` cannot supply whole is empty. -/
def Dnode.parse (raw : Bytes) (endian : Endian) : Option Dnode :=
  if raw.length < dnodeCoreSize then none
  else
    let rd : Reader := ⟨endian⟩
    let dnNblkptr := u8At raw 3
    let dnBonuslen := rd.u16 raw 10
    let dnExtraSlots := u8At raw 12
    let nblkptr := Dnode.clampNblkptr dnNblkptr dnExtraSlots
    let bonusOff := dnodeCoreSize + nblkptr * blkptrSize
    let bonusLen := Dnode.clampBonuslen dnBonuslen dnExtraSlots nblkptr
    some
      { dnType := u8At raw 0
        dnIndblkshift := u8At raw 1
        dnNlevels := u8At raw 2
        dnNblkptr := dnNblkptr
        dnBonustype := u8At raw 4
        dnChecksum := u8At raw 5
        dnCompress := u8At raw 6
        dnFlags := u8At raw 7
        dnDatablkszsec := rd.u16 raw 8
        dnBonuslen := dnBonuslen
        dnExtraSlots := dnExtraSlots
        dnMaxblkid := rd.u64 raw 16
        dnUsed := rd.u64 raw 24
        endian := endian
        blkptrs := Dnode.parseBlkptrs raw endian 0 nblkptr
        bonus := (slice? raw bonusOff (bonusOff + bonusLen)).getD [] }

/-! ## Object sets -/

/-- Offset of `os_type` within an objset. -/
def osTypeOffset : Nat := 704

/-- Offset of `os_flags` within an objset. -/
def osFlagsOffset : Nat := 712

/-- The minimum objset size. -/
def objsetMinSize : Nat := 1024

/-- The objset type of a ZPL filesystem dataset. -/
def dmuOstZfs : UInt64 := 2

/-- A parsed `objset_phys_t`. -/
structure ObjsetPhys where
  metaDnode : Dnode
  osType : UInt64
  osFlags : UInt64
  endian : Endian
deriving DecidableEq, Repr, Inhabited

/-- Parse an `objset_phys_t` from a decompressed objset block. -/
def ObjsetPhys.parse (data : Bytes) (endian : Endian) : Except ZfsError ObjsetPhys :=
  if data.length < objsetMinSize then .error (.truncated "objset_phys" objsetMinSize data.length)
  else
    match Dnode.parse data endian with
    | none => .error (.truncated "objset meta-dnode" 512 data.length)
    | some metaDnode =>
      let rd : Reader := ⟨endian⟩
      .ok
        { metaDnode := metaDnode
          osType := rd.u64 data osTypeOffset
          osFlags := rd.u64 data osFlagsOffset
          endian := endian }

/-! ## What a parse depends on -/

theorem Dnode.totalBytes_pos (extra : UInt8) : dnodeSize ≤ Dnode.totalBytes extra := by
  unfold totalBytes dnodeSize
  omega

/-- The decoded pointers lie inside the slots. -/
theorem Dnode.clampNblkptr_fits (nblkptr extra : UInt8) :
    dnodeCoreSize + Dnode.clampNblkptr nblkptr extra * blkptrSize ≤ Dnode.totalBytes extra := by
  have h := totalBytes_pos extra
  unfold clampNblkptr dnodeCoreSize blkptrSize
  unfold dnodeSize at h
  omega

/-- The bonus lies inside the slots. -/
theorem Dnode.clampBonuslen_fits (bonuslen : UInt16) (nblkptr extra : UInt8) :
    dnodeCoreSize + Dnode.clampNblkptr nblkptr extra * blkptrSize
      + Dnode.clampBonuslen bonuslen extra (Dnode.clampNblkptr nblkptr extra) ≤ Dnode.totalBytes extra := by
  have h := clampNblkptr_fits nblkptr extra
  unfold clampBonuslen
  omega

/-- A parse keeps the byte order it was given. -/
theorem Dnode.endian_of_parse {raw : Bytes} {e : Endian} {d : Dnode} (h : Dnode.parse raw e = some d) : d.endian = e := by
  unfold parse at h
  split at h
  · exact absurd h (by simp)
  · simp only [Option.some.injEq] at h
    rw [← h]

/-- The meta-dnode of an object set is parsed from its front. -/
theorem metaDnode_of_parse {data : Bytes} {e : Endian} {os : ObjsetPhys} (h : ObjsetPhys.parse data e = .ok os) :
    Dnode.parse data e = some os.metaDnode := by
  unfold ObjsetPhys.parse at h
  split at h
  · exact absurd h (by simp)
  · split at h
    · exact absurd h (by simp)
    · rename_i m hm
      simp only [Except.ok.injEq] at h
      rw [← h, hm]

theorem ObjsetPhys.endian_of_parse {data : Bytes} {e : Endian} {os : ObjsetPhys} (h : ObjsetPhys.parse data e = .ok os) :
    os.endian = e ∧ os.metaDnode.endian = e := by
  unfold parse at h
  split at h
  · exact absurd h (by simp)
  · split at h
    · exact absurd h (by simp)
    · rename_i m hm
      simp only [Except.ok.injEq] at h
      rw [← h]
      exact ⟨rfl, Dnode.endian_of_parse hm⟩

end ZfsForensic
