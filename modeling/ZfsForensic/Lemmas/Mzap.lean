import ZfsForensic.Lemmas.Encode
import ZfsForensic.Zap

/-!
# Micro-ZAPs as they are stored

A micro-ZAP is a header and slots of 64 bytes. A slot holds an entry, or is free: its name begins with a zero byte, and what else it
holds is left over. Entries stand anywhere among free slots. The reader lists the entries of a little-endian one in order, and
nothing of a big-endian one.
-/

namespace ZfsForensic

open Octets

/-- An entry of a micro-ZAP: its value, its collision differentiator and its name, which is neither empty nor too long and holds
no zero byte. -/
structure MzapEnt where
  value : UInt64
  cd : UInt32
  name : Bytes
  name_ne : name ≠ []
  name_le : name.length ≤ mzapNameLen
  name_nul : ∀ b ∈ name, b ≠ 0

/-! The name `f` can stand in an entry. -/

theorem f_ne_nil : ([0x66] : Bytes) ≠ [] := List.cons_ne_nil _ _

theorem length_f_le : ([0x66] : Bytes).length ≤ mzapNameLen := by decide

theorem f_ne_zero : ∀ b ∈ ([0x66] : Bytes), b ≠ 0 := by
  intro b hb
  rw [List.mem_singleton.1 hb]
  decide

/-- The 64 bytes of an entry. -/
def MzapEnt.encode (e : Endian) (r : MzapEnt) : Bytes :=
  Octets.encode e 8 r.value.toNat ++ Octets.encode e 4 r.cd.toNat ++ zeros 2 ++ r.name ++
    zeros (mzapNameLen - r.name.length)

/-- A slot of a micro-ZAP: an entry, or a free one, with the bytes in front of and behind the zero byte its name begins with. -/
inductive MzapSlot where
  | entry (r : MzapEnt)
  | free (front : Vector UInt8 14) (back : Vector UInt8 49)

/-- The entry of a slot. -/
def MzapSlot.entry? : MzapSlot → Option MzapEnt
  | .entry r => some r
  | .free _ _ => none

/-- The 64 bytes of a slot. -/
def MzapSlot.encode (e : Endian) : MzapSlot → Bytes
  | .entry r => r.encode e
  | .free front back => front.toList ++ 0 :: back.toList

/-- A micro-ZAP block: its byte order, its salt, its flags and its slots. -/
structure MzapBlock where
  endian : Endian
  salt : UInt64
  normflags : UInt64
  slots : List MzapSlot

/-- The header of a micro-ZAP. -/
def mzapHdr (e : Endian) (salt normflags : UInt64) : Bytes :=
  encodeWords e 8 [zbtMicro.toNat, salt.toNat, normflags.toNat] ++ zeros 40

/-- The bytes of a micro-ZAP block. -/
def MzapBlock.encode (r : MzapBlock) : Bytes :=
  mzapHdr r.endian r.salt r.normflags ++ r.slots.flatMap (MzapSlot.encode r.endian)

/-- The entries of a micro-ZAP block, in order. -/
def MzapBlock.entries (r : MzapBlock) : List MzapEnt := r.slots.filterMap MzapSlot.entry?

/-- What a reader of names makes of an entry. -/
def MzapEnt.listed (r : MzapEnt) : Bytes × UInt64 := (fromUtf8Lossy r.name, r.value)

@[simp] theorem length_mzapHdr (e : Endian) (salt normflags : UInt64) : (mzapHdr e salt normflags).length = mzapHdrSize := by
  simp [mzapHdr, mzapHdrSize]

@[simp] theorem MzapEnt.length_encode (e : Endian) (r : MzapEnt) : (r.encode e).length = mzapEntSize := by
  have h := r.name_le
  simp only [MzapEnt.encode, List.length_append, Octets.length_encode, length_zeros]
  unfold mzapNameLen at *
  unfold mzapEntSize
  omega

@[simp] theorem MzapSlot.length_encode (e : Endian) (s : MzapSlot) : (s.encode e).length = mzapEntSize := by
  cases s with
  | entry r => exact r.length_encode e
  | free front back => simp [MzapSlot.encode, mzapEntSize]

/-- One turn of the listing, at a slot whose first fourteen bytes and whose name bytes are given. -/
theorem microEntries_step {front head tail rest : Bytes} {i : Nat} (n : Nat)
    (hfront : front.length = mzapHdrSize + i * mzapEntSize) (hhead : head.length = 14) (htail : tail.length = mzapNameLen) :
    microEntries (front ++ (head ++ tail) ++ rest) i (n + 1) =
      if tail.takeWhile (· != 0) = [] then microEntries (front ++ (head ++ tail) ++ rest) (i + 1) n
      else (fromUtf8Lossy (tail.takeWhile (· != 0)), leU64 head 0) ::
        microEntries (front ++ (head ++ tail) ++ rest) (i + 1) n := by
  have hname : slice? (front ++ (head ++ tail) ++ rest) (mzapHdrSize + i * mzapEntSize + 14)
      (mzapHdrSize + i * mzapEntSize + 14 + mzapNameLen) = some tail := by
    have hparts : front ++ (head ++ tail) ++ rest = (front ++ head) ++ tail ++ rest := by simp only [List.append_assoc]
    rw [hparts]
    exact slice?_middle (by rw [List.length_append, hfront, hhead]) (by rw [htail])
  have hvalue : leU64 (front ++ (head ++ tail) ++ rest) (mzapHdrSize + i * mzapEntSize) = leU64 head 0 := by
    simp only [leU64, List.append_assoc]
    rw [readUint_append_right (by omega), hfront, Nat.sub_self, readUint_append_left (by omega)]
  rw [microEntries]
  dsimp only
  rw [hname]
  dsimp only
  rw [hvalue]

/-- The first word of a slot's entry is its value, and its name bytes give the name. -/
theorem MzapEnt.encode_parts (r : MzapEnt) :
    ∃ head tail, r.encode .little = head ++ tail ∧ head.length = 14 ∧ tail.length = mzapNameLen ∧
      tail.takeWhile (· != 0) = r.name ∧ leU64 head 0 = r.value := by
  have hle := r.name_le
  refine ⟨Octets.encode .little 8 r.value.toNat ++ (Octets.encode .little 4 r.cd.toNat ++ zeros 2),
    r.name ++ zeros (mzapNameLen - r.name.length), ?_, ?_, ?_, ?_, ?_⟩
  · simp only [MzapEnt.encode, List.append_assoc]
  · simp only [List.length_append, Octets.length_encode, length_zeros]
  · rw [List.length_append, length_zeros, Nat.add_sub_cancel' hle]
  · rw [List.takeWhile_append_of_pos (by simpa using r.name_nul)]
    cases mzapNameLen - r.name.length with
    | zero => exact List.append_nil _
    | succ n => exact List.append_nil _
  · have hlt : r.value.toNat < 256 ^ 8 := r.value.toNat_lt
    rw [leU64, readUint_encode, Nat.mod_eq_of_lt hlt]
    exact UInt64.ofNat_toNat

/-- The slots of a little-endian micro-ZAP list as their entries, in order. -/
theorem microEntries_slots (ss : List MzapSlot) {front : Bytes} {i : Nat}
    (hfront : front.length = mzapHdrSize + i * mzapEntSize) :
    microEntries (front ++ ss.flatMap (MzapSlot.encode .little)) i ss.length =
      (ss.filterMap MzapSlot.entry?).map MzapEnt.listed := by
  induction ss generalizing front i with
  | nil => rfl
  | cons s ss ih =>
    have hnext : (front ++ s.encode .little).length = mzapHdrSize + (i + 1) * mzapEntSize := by
      rw [List.length_append, hfront, MzapSlot.length_encode, Nat.succ_mul, Nat.add_assoc]
    have hrest := ih hnext
    rw [List.flatMap_cons, List.length_cons, ← List.append_assoc]
    cases s with
    | entry r =>
      obtain ⟨head, tail, hparts, hhead, htail, hname, hvalue⟩ := r.encode_parts
      have hslot : MzapSlot.encode .little (.entry r) = head ++ tail := hparts
      rw [hslot] at hrest ⊢
      rw [microEntries_step _ hfront hhead htail, hname, if_neg r.name_ne, hvalue, hrest]
      rfl
    | free free back =>
      have hname : (0 :: back.toList).takeWhile (· != 0) = ([] : Bytes) := rfl
      have hslot : MzapSlot.encode .little (.free free back) = free.toList ++ 0 :: back.toList := rfl
      rw [hslot] at hrest ⊢
      rw [microEntries_step _ hfront (by simp) (by simp [mzapNameLen]), if_pos hname, hrest]
      rfl

namespace MzapBlock

theorem length_encode (r : MzapBlock) : r.encode.length = mzapHdrSize + mzapEntSize * r.slots.length := by
  rw [encode, List.length_append, length_mzapHdr, Radix.length_flatMap fun s _ => s.length_encode r.endian]

/-- A little-endian micro-ZAP lists its entries. -/
theorem zapList_of_little {r : MzapBlock} (h : r.endian = .little) : zapList r.encode = r.entries.map MzapEnt.listed := by
  have hhead : leU64 r.encode 0 = zbtMicro := by
    simp only [leU64, encode, mzapHdr, List.append_assoc, h]
    rw [readUint_encodeWords .little 8 _ _ (k := 0) rfl]
    rfl
  have hlen : (r.encode.length - mzapHdrSize) / mzapEntSize = r.slots.length := by
    rw [length_encode, Nat.add_sub_cancel_left]
    exact Nat.mul_div_cancel_left _ (by decide)
  rw [zapList, if_pos hhead, microList, hlen, encode, h]
  exact microEntries_slots r.slots (by rw [length_mzapHdr, Nat.zero_mul, Nat.add_zero])

/-- A big-endian one begins with no block type the reader knows, and lists nothing. -/
theorem zapList_of_big {r : MzapBlock} (h : r.endian = .big) : zapList r.encode = [] := by
  have hhead : leU64 r.encode 0 = UInt64.ofNat (decode .little (Octets.encode .big 8 zbtMicro.toNat)) := by
    simp only [leU64, encode, mzapHdr, List.append_assoc, h]
    rw [readUint_of_slice (slice?_encodeWords .big 8 _ _ (k := 0) rfl)]
  refine zapList_of_ne ?_ ?_ <;> (rw [hhead]; decide)

end MzapBlock

end ZfsForensic
