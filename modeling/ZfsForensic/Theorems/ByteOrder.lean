import ZfsForensic.Lemmas.Mzap
import ZfsForensic.Zpl

/-!
# Records above the block layer, in both byte orders

The two links of the dataset layer, the directory entries and the header of a System Attributes bonus are read little-endian,
whatever the order of their object. Below, each record is written in an order and read back as an object of that order: what the
block pointer of a dataset gives is the same in both, what the other readers give is the same only where the record leaves them
nothing to read.
-/

namespace ZfsForensic

open Octets

/-! ## The records -/

/-- The words of a `dsl_dir_phys_t`. -/
structure DslDirPhys where
  creationTime : UInt64
  headDatasetObj : UInt64
  rest : List UInt64

/-- A DSL directory's bonus. -/
def DslDirPhys.encode (e : Endian) (r : DslDirPhys) : Bytes :=
  encodeWords e 8 ([r.creationTime.toNat, r.headDatasetObj.toNat] ++ r.rest.map UInt64.toNat)

/-- The fields of a `dsl_dataset_phys_t`: sixteen words, the block pointer, and words behind it. -/
structure DslDatasetPhys where
  dirObj : UInt64
  prevSnapObj : UInt64
  front : Vector UInt64 14
  bp : Blkptr
  back : List UInt64
  bp_stored : bp.Stored

/-- A DSL dataset's bonus. -/
def DslDatasetPhys.encode (e : Endian) (r : DslDatasetPhys) : Bytes :=
  encodeWords e 8 ([r.dirObj.toNat, r.prevSnapObj.toNat] ++ r.front.toList.map UInt64.toNat) ++ r.bp.encode e ++
    encodeWords e 8 (r.back.map UInt64.toNat)

/-- A micro-ZAP: its salt, its flags, its entries, and free slots behind them. -/
structure MzapPhys where
  salt : UInt64
  normflags : UInt64
  entries : List MzapEnt
  free : Nat

/-- The header of a micro-ZAP. -/
def MzapPhys.encodeHdr (e : Endian) (r : MzapPhys) : Bytes :=
  encodeWords e 8 [zbtMicro.toNat, r.salt.toNat, r.normflags.toNat] ++ zeros 40

/-- A micro-ZAP's block. -/
def MzapPhys.encode (e : Endian) (r : MzapPhys) : Bytes :=
  r.encodeHdr e ++ r.entries.flatMap (MzapEnt.encode e) ++ zeros (mzapEntSize * r.free)

/-- The value of a fixed-length attribute: integers of one width. -/
structure SaValue where
  width : Nat
  words : List Nat

/-- The bytes of a value. -/
def SaValue.encode (e : Endian) (v : SaValue) : Bytes := encodeWords e v.width v.words

/-- A System Attributes bonus of fixed-length attributes: a layout number of ten bits, a header of so many units of eight bytes,
and the values. -/
structure SaPhys where
  layoutNum : Nat
  hdrUnits : Nat
  values : List SaValue
  layoutNum_lt : layoutNum < 2 ^ 10
  hdrUnits_pos : 0 < hdrUnits
  hdrUnits_lt : hdrUnits < 2 ^ 6

/-- A System Attributes bonus. -/
def SaPhys.encode (e : Endian) (r : SaPhys) : Bytes :=
  Octets.encode e 4 saMagic.toNat ++ Octets.encode e 2 (r.layoutNum + 2 ^ 10 * r.hdrUnits) ++ zeros (8 * r.hdrUnits - 6) ++
    r.values.flatMap (SaValue.encode e)

/-- Such a micro-ZAP, slot by slot. -/
def MzapPhys.toBlock (e : Endian) (r : MzapPhys) : MzapBlock :=
  { endian := e
    salt := r.salt
    normflags := r.normflags
    slots := r.entries.map MzapSlot.entry ++
      List.replicate r.free (.free (Vector.replicate 14 0) (Vector.replicate 49 0)) }

theorem MzapPhys.encode_toBlock (e : Endian) (r : MzapPhys) : (r.toBlock e).encode = r.encode e := by
  have hfree : (List.replicate r.free (MzapSlot.free (Vector.replicate 14 0) (Vector.replicate 49 0))).flatMap
      (MzapSlot.encode e) = zeros (mzapEntSize * r.free) := by
    induction r.free with
    | zero => rfl
    | succ n ih =>
      have hslot : MzapSlot.encode e (.free (Vector.replicate 14 0) (Vector.replicate 49 0)) = zeros mzapEntSize := rfl
      rw [List.replicate_succ, List.flatMap_cons, ih, hslot, Nat.mul_succ, Nat.add_comm, zeros, zeros, zeros,
        List.replicate_append_replicate]
  have hentries : (r.entries.map MzapSlot.entry).flatMap (MzapSlot.encode e) = r.entries.flatMap (MzapEnt.encode e) :=
    List.flatMap_map _ _ _
  simp only [MzapBlock.encode, toBlock, List.flatMap_append, hfree, hentries, encode, List.append_assoc]
  rfl

theorem MzapPhys.entries_toBlock (e : Endian) (r : MzapPhys) : (r.toBlock e).entries = r.entries := by
  have hentries : (r.entries.map MzapSlot.entry).filterMap MzapSlot.entry? = r.entries := by
    rw [List.filterMap_map]
    exact List.filterMap_some
  have hfree : (List.replicate r.free (MzapSlot.free (Vector.replicate 14 0) (Vector.replicate 49 0))).filterMap
      MzapSlot.entry? = [] := by
    simp [MzapSlot.entry?]
  rw [MzapBlock.entries, toBlock, List.filterMap_append, hentries, hfree, List.append_nil]

/-- A little-endian micro-ZAP lists its entries. -/
theorem zapList_encode_little (r : MzapPhys) :
    zapList (r.encode .little) = r.entries.map (fun r => (fromUtf8Lossy r.name, r.value)) := by
  have h := MzapBlock.zapList_of_little (r := r.toBlock .little) rfl
  rwa [MzapPhys.encode_toBlock, MzapPhys.entries_toBlock] at h

end ZfsForensic
