import ZfsForensic.Blkptr
import ZfsForensic.Nvlist

/-!
# Uberblocks and vdev labels

A label of 256 KiB carries the pool configuration and a ring of uberblocks, the roots of recent pool states. The byte order of
an uberblock is told by its magic, which is read both ways. The active one is the first of the highest transaction group.
-/

namespace ZfsForensic

open Octets Checked

/-! ## Uberblocks -/

/-- The magic of an uberblock. -/
def uberblockMagic : UInt64 := 0x0000000000bab10c

/-- The base-two logarithm of the smallest slot size. -/
def uberblockMinShift : Nat := 10

/-- The offset of `ub_rootbp` in a slot. -/
def offRootbp : Nat := 40

/-- The part of the root pointer an uberblock shows: its copies, sizes in sectors, and type. -/
structure BlkptrSummary where
  dvas : Vector Dva 3
  lsizeSectors : UInt32
  psizeSectors : UInt32
  compression : UInt8
  objectType : UInt8
  level : UInt8
  embedded : Bool
deriving DecidableEq, Repr, Inhabited

/-- The summary's reading of a copy: unlike `Dva.parse`, it keeps all 32 high bits as the vdev. -/
def BlkptrSummary.parseDva (rd : Reader) (bp : Bytes) (base : Nat) : Dva :=
  let w0 := rd.u64 bp base
  let w1 := rd.u64 bp (base + 8)
  { vdev := (w0 >>> 32).toUInt32
    asizeSectors := (w0 &&& 0x00ffffff).toUInt32
    offsetSectors := w1 &&& 0x7fffffffffffffff
    gang := (w1 >>> 63) &&& 1 == 1 }

/-- Parse the summary of a 128-byte pointer. Its sizes are the stored ones plus one, of at most 17 bits. -/
def BlkptrSummary.parse (rd : Reader) (bp : Bytes) : BlkptrSummary :=
  let props := rd.u64 bp 48
  { dvas := #v[BlkptrSummary.parseDva rd bp 0, BlkptrSummary.parseDva rd bp 16, BlkptrSummary.parseDva rd bp 32]
    lsizeSectors := (props &&& 0xffff).toUInt32 + 1
    psizeSectors := ((props >>> 16) &&& 0xffff).toUInt32 + 1
    compression := ((props >>> 32) &&& 0x7f).toUInt8
    objectType := ((props >>> 48) &&& 0xff).toUInt8
    level := ((props >>> 56) &&& 0x1f).toUInt8
    embedded := (props >>> 39) &&& 1 == 1 }

/-- A parsed uberblock. `rootbpRaw` is the root pointer as it stands on disk. -/
structure Uberblock where
  endian : Endian
  magic : UInt64
  version : UInt64
  txg : UInt64
  guidSum : UInt64
  timestamp : UInt64
  rootbp : BlkptrSummary
  rootbpRaw : Vector UInt8 128
deriving DecidableEq, Repr

/-- The full root pointer, decoded in the pool's byte order. -/
def Uberblock.rootbpFull (ub : Uberblock) : Blkptr := Blkptr.parse ub.rootbpRaw.toList ub.endian

/-- Detect the byte order from the magic. -/
def detectEndian (slot : Bytes) : Option Endian :=
  if leU64 slot 0 = uberblockMagic then some .little
  else if beU64 slot 0 = uberblockMagic then some .big
  else none

/-- The magic lies in the first eight bytes. -/
theorem detectEndian_take {n : Nat} (hn : 8 ≤ n) (slot : Bytes) : detectEndian (slot.take n) = detectEndian slot := by
  have hread (e : Endian) : readUint e 8 (slot.take n) 0 = readUint e 8 slot 0 := by
    rw [readUint_take, if_pos (by omega)]
  rw [detectEndian, detectEndian, leU64, leU64, beU64, beU64, hread .little, hread .big]

/-- The root pointer of a slot, as it stands on disk; zeros when the slot is too short to hold it. -/
def rootbpRegion (slot : Bytes) : Vector UInt8 128 :=
  match h : slice? slot offRootbp (offRootbp + 128) with
  | some bp => ⟨bp.toArray, by simpa [offRootbp] using slice?_length h⟩
  | none => Vector.replicate 128 0

/-- Parse an uberblock slot: `none` when neither byte order reads the magic. -/
def Uberblock.parse (slot : Bytes) : Option Uberblock :=
  match detectEndian slot with
  | none => none
  | some endian =>
    let rd : Reader := ⟨endian⟩
    some
      { endian := endian
        magic := uberblockMagic
        version := rd.u64 slot 8
        txg := rd.u64 slot 16
        guidSum := rd.u64 slot 24
        timestamp := rd.u64 slot 32
        rootbp := match slice? slot offRootbp (offRootbp + 128) with
          | some bp => BlkptrSummary.parse rd bp
          | none => default
        rootbpRaw := rootbpRegion slot }

/-! ## Labels -/

/-- Size of one label. -/
def labelSize : Nat := 256 * 1024

/-- Offset of the packed configuration within a label. -/
def nvlistOffset : Nat := 16 * 1024

/-- Size of the packed configuration. -/
def nvlistSize : Nat := 112 * 1024

/-- Offset of the uberblock ring within a label. -/
def uberblockRingOffset : Nat := 128 * 1024

/-- Size of the uberblock ring. -/
def uberblockRingSize : Nat := 128 * 1024

/-- The offsets of the labels of a vdev: the front pair, and the back pair when there is room for it. -/
def labelOffsets (vdevSize : Nat) : (Nat × Nat) × Option (Nat × Nat) :=
  ((0, labelSize),
    if 4 * labelSize ≤ vdevSize then some (vdevSize - 2 * labelSize, vdevSize - labelSize) else none)

/-- The scan of a ring from slot `slot` on, `n` slots; an equal transaction group does not replace the earlier one. -/
def activeUberblockLoop (ring : Bytes) (slotSize : Nat) :
    Nat → Nat → Option (Uberblock × Nat) → Option (Uberblock × Nat)
  | _, 0, best => best
  | slot, n + 1, best =>
    if 2 ^ 64 ≤ slot * slotSize then none
    else
      match slice? ring (slot * slotSize) (satAdd (slot * slotSize) slotSize) with
      | none => best
      | some bytes =>
        match Uberblock.parse bytes with
        | none => activeUberblockLoop ring slotSize (slot + 1) n best
        | some ub =>
          match best with
          | some (cur, curSlot) =>
            if ub.txg ≤ cur.txg then activeUberblockLoop ring slotSize (slot + 1) n (some (cur, curSlot))
            else activeUberblockLoop ring slotSize (slot + 1) n (some (ub, slot))
          | none => activeUberblockLoop ring slotSize (slot + 1) n (some (ub, slot))

/-- The uberblock of the highest transaction group in a ring, with its slot. -/
def activeUberblock (ring : Bytes) (slotSize slotCount : Nat) : Option (Uberblock × Nat) :=
  activeUberblockLoop ring slotSize 0 slotCount none

/-- A parsed label: its configuration and its active uberblock. -/
structure VdevLabel where
  config : NvList
  activeUberblock : Uberblock
  activeSlot : Nat

/-- The base-two logarithm of the slot size a configuration declares: its `ashift` in `10..=16`, else the smallest. -/
def slotShift (config : NvList) : Nat :=
  match (NvList.vdevTree config).map VdevTree.ashift with
  | some a => if uberblockMinShift ≤ a.toNat ∧ a.toNat ≤ 16 then a.toNat else uberblockMinShift
  | none => uberblockMinShift

/-- Parse a label. -/
def VdevLabel.parse (label : Bytes) : Except ZfsError VdevLabel :=
  if label.length < labelSize then .error (.truncated "vdev label" labelSize label.length)
  else
    match slice? label nvlistOffset (nvlistOffset + nvlistSize) with
    | none => .error (.truncated "label nvlist region" (nvlistOffset + nvlistSize) label.length)
    | some nvRegion =>
      match nvlistParse nvRegion with
      | .error e => .error e
      | .ok config =>
        let slotSize := 1 <<< slotShift config
        let slotCount := uberblockRingSize / slotSize
        match slice? label uberblockRingOffset (uberblockRingOffset + uberblockRingSize) with
        | none => .error (.truncated "uberblock ring" (uberblockRingOffset + uberblockRingSize) label.length)
        | some ring =>
          match ZfsForensic.activeUberblock ring slotSize slotCount with
          | none => .error (.noUberblock slotCount)
          | some (ub, slot) => .ok { config := config, activeUberblock := ub, activeSlot := slot }

/-- A label parses where its configuration does and its ring holds an uberblock. -/
theorem VdevLabel.parse_eq_ok {label nvRegion ring : Bytes} {config : NvList} {ub : Uberblock} {slot : Nat}
    (hlen : labelSize ≤ label.length)
    (hnv : slice? label nvlistOffset (nvlistOffset + nvlistSize) = some nvRegion)
    (hconfig : nvlistParse nvRegion = .ok config)
    (hring : slice? label uberblockRingOffset (uberblockRingOffset + uberblockRingSize) = some ring)
    (hactive : ZfsForensic.activeUberblock ring (1 <<< slotShift config)
      (uberblockRingSize / (1 <<< slotShift config)) = some (ub, slot)) :
    VdevLabel.parse label = .ok { config := config, activeUberblock := ub, activeSlot := slot } := by
  simp only [parse, if_neg (Nat.not_lt.2 hlen), hnv, hconfig, hring, hactive]

end ZfsForensic
