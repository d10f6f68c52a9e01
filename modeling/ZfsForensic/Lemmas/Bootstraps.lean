import ZfsForensic.Lemmas.Encode
import ZfsForensic.Lib.Newest
import ZfsForensic.Vfs

/-!
# Scans of uberblock rings

A scan of a ring keeps a running maximum, so that it finds the first uberblock of the highest transaction group among the slots it reads. A
coarser scan misses nothing where its slots hold every magic. The mount's scan of every ring is one such maximum over all whole slots.
-/

namespace ZfsForensic

open Octets Checked

/-! ## Slots -/

/-- Whether a slot begins with the magic of an uberblock, in either byte order. -/
def StartsWithMagic (slot : Bytes) : Prop := ∃ e : Endian, encode e 8 uberblockMagic.toNat <+: slot

/-- The slot `i` of a ring, as far as the ring reaches. -/
def slotAt (ring : Bytes) (size i : Nat) : Bytes := (ring.drop (i * size)).take size

/-- An integer at the front of a string is read there exactly when its bytes lead the string. -/
theorem readUint_zero_eq_iff {e : Endian} {w n : Nat} {data : Bytes} (hpos : n ≠ 0) (hlt : n < 256 ^ w) :
    readUint e w data 0 = n ↔ encode e w n <+: data := by
  constructor
  · intro hread
    rw [readUint, Nat.zero_add] at hread
    cases hslice : slice? data 0 w with
    | none =>
      rw [hslice] at hread
      exact absurd hread.symm hpos
    | some s =>
      rw [hslice] at hread
      have hlen := slice?_length hslice
      obtain ⟨-, -, hs⟩ := slice?_eq_some_iff.1 hslice
      have hbytes : s = encode e w n := by
        refine decode_inj e (by rw [hlen, length_encode, Nat.sub_zero]) ?_
        rw [decode_encode, Nat.mod_eq_of_lt hlt]
        exact hread
      rw [← hbytes, hs, List.drop_zero]
      exact List.take_prefix _ _
  · rintro ⟨rest, rfl⟩
    rw [readUint_encode, Nat.mod_eq_of_lt hlt]

/-- A slot parses exactly when it begins with the magic. -/
theorem parse_eq_none_iff (slot : Bytes) : Uberblock.parse slot = none ↔ ¬ StartsWithMagic slot := by
  have hmagic (e : Endian) : UInt64.ofNat (readUint e 8 slot 0) = uberblockMagic ↔ encode e 8 uberblockMagic.toNat <+: slot := by
    have hlt : readUint e 8 slot 0 < 2 ^ 64 := readUint_lt e 8 slot 0
    rw [← readUint_zero_eq_iff (by decide) (by decide), ← UInt64.toNat_inj, UInt64.toNat_ofNat', Nat.mod_eq_of_lt hlt]
  rw [Uberblock.parse, detectEndian, leU64, beU64]
  constructor
  · rintro hnone ⟨e, he⟩
    cases e with
    | little => rw [if_pos ((hmagic .little).2 he)] at hnone; cases hnone
    | big =>
      rw [if_pos ((hmagic .big).2 he)] at hnone
      split_ifs at hnone
  · intro hno
    rw [if_neg fun h => hno ⟨.little, (hmagic .little).1 h⟩, if_neg fun h => hno ⟨.big, (hmagic .big).1 h⟩]

/-- The fields of an uberblock lie in its first 168 bytes. -/
theorem parse_take {slot : Bytes} {n : Nat} (hn : 168 ≤ n) : Uberblock.parse (slot.take n) = Uberblock.parse slot := by
  have hread (e : Endian) (off : Nat) (hoff : off + 8 ≤ n) : readUint e 8 (slot.take n) off = readUint e 8 slot off := by
    rw [readUint_take, if_pos hoff]
  have hbp : slice? (slot.take n) offRootbp (offRootbp + 128) = slice? slot offRootbp (offRootbp + 128) := by
    rw [slice?_take, if_pos (by rw [offRootbp]; omega)]
  have hregion : rootbpRegion (slot.take n) = rootbpRegion slot := by
    unfold rootbpRegion
    split <;> split <;> simp_all
  rw [Uberblock.parse, Uberblock.parse, detectEndian_take (by omega)]
  cases detectEndian slot with
  | none => rfl
  | some e =>
    dsimp only
    simp only [Reader.u64_eq]
    rw [hbp, hregion, hread e 8 (by omega), hread e 16 (by omega), hread e 24 (by omega),
      hread e 32 (by omega)]

/-! ## One ring -/

/-- The uberblocks of `n` slots of a ring from `slot` on, each with its slot. -/
def found (ring : Bytes) (size slot n : Nat) : List (Uberblock × Nat) :=
  (List.range' slot n).filterMap fun i => (Uberblock.parse (slotAt ring size i)).map fun ub => (ub, i)

/-- The transaction group, which a scan compares. -/
def txgKey (ub : Uberblock) : Nat := ub.txg.toNat

/-- The transaction group of an uberblock with its slot. -/
def foundTxg (p : Uberblock × Nat) : Nat := txgKey p.1

/-- A scan of a ring finds the first of the highest transaction group. -/
theorem activeUberblockLoop_eq {ring : Bytes} {size : Nat} (hring : ring.length < 2 ^ 63) (n slot : Nat)
    (hfit : (slot + n) * size ≤ ring.length) (best : Option (Uberblock × Nat)) :
    activeUberblockLoop ring size slot n best = List.argmax foundTxg (best.toList ++ found ring size slot n) := by
  induction n generalizing slot best with
  | zero =>
    rw [activeUberblockLoop, found, List.range'_zero, List.filterMap_nil, List.append_nil, Newest.argmax_toList]
  | succ n ih =>
    have hnext : (slot + 1 + n) * size ≤ ring.length := by rwa [Nat.add_assoc, Nat.add_comm 1 n]
    have hend : slot * size + size ≤ ring.length := by
      rw [← Nat.succ_mul]
      exact (Nat.mul_le_mul_right size (by omega)).trans hfit
    have hslice : slice? ring (slot * size) (slot * size + size) = some (slotAt ring size slot) := by
      rw [slice?_of_le (Nat.le_add_right _ _) hend, Nat.add_sub_cancel_left, slotAt]
    have hfound : found ring size slot (n + 1) =
        ((Uberblock.parse (slotAt ring size slot)).map fun ub => (ub, slot)).toList ++ found ring size (slot + 1) n := by
      rw [found, List.range'_succ, List.filterMap_cons]
      cases Uberblock.parse (slotAt ring size slot) <;> rfl
    rw [activeUberblockLoop, if_neg (by omega), satAdd_eq (by omega), hslice, hfound]
    dsimp only
    cases Uberblock.parse (slotAt ring size slot) with
    | none => exact ih (slot + 1) hnext best
    | some ub =>
      rw [Option.map_some, Option.toList_some, List.singleton_append, Newest.argmax_step]
      cases best with
      | none => exact ih (slot + 1) hnext _
      | some cur =>
        by_cases hle : ub.txg ≤ cur.1.txg
        · have hkey : foundTxg (ub, slot) ≤ foundTxg cur := UInt64.le_iff_toNat_le.1 hle
          rw [Newest.better_of_le hkey, ← ih (slot + 1) hnext]
          exact if_pos hle
        · have hkey : ¬ foundTxg (ub, slot) ≤ foundTxg cur := hle ∘ UInt64.le_iff_toNat_le.2
          rw [Newest.better_of_not_le hkey, ← ih (slot + 1) hnext]
          exact if_neg hle

/-- The scan of a whole ring. -/
theorem activeUberblock_eq {ring : Bytes} {size n : Nat} (hring : ring.length < 2 ^ 63) (hfit : n * size ≤ ring.length) :
    activeUberblock ring size n = List.argmax foundTxg (found ring size 0 n) :=
  activeUberblockLoop_eq hring n 0 (by rwa [Nat.zero_add]) none

/-- A slot holds an uberblock exactly where the ring has one at its offset. -/
theorem parse_slotAt {size : Nat} (hsize : 168 ≤ size) (ring : Bytes) (i : Nat) :
    Uberblock.parse (slotAt ring size i) = Uberblock.parse (ring.drop (i * size)) := parse_take hsize

/-- Where every magic at a smallest slot lies at one of `k` times its size, both slot sizes find the same uberblocks. -/
theorem found_mul {ring : Bytes} {size k : Nat} (hsize : 168 ≤ size) (hk : 0 < k)
    (haligned : ∀ i, StartsWithMagic (ring.drop (i * size)) → k ∣ i) (n : Nat) :
    found ring size 0 (n * k) = (found ring (k * size) 0 n).map fun p => (p.1, p.2 * k) := by
  have hsparse (i : Nat) (hi : ¬ k ∣ i) : ((Uberblock.parse (slotAt ring size i)).map fun ub => (ub, i)) = none := by
    rw [parse_slotAt hsize, (parse_eq_none_iff _).2 (hi ∘ haligned i), Option.map_none]
  rw [found, found, Newest.filterMap_range_mul hk hsparse, List.map_filterMap]
  refine List.filterMap_congr fun i _ => ?_
  rw [parse_slotAt hsize, parse_slotAt (hsize.trans (Nat.le_mul_of_pos_left size hk)), Nat.mul_assoc, Option.map_map]
  rfl

/-- So both scans find the same active uberblock. -/
theorem activeUberblock_mul {ring : Bytes} {size k : Nat} (hring : ring.length < 2 ^ 63) (hsize : 168 ≤ size) (hk : 0 < k)
    (haligned : ∀ i, StartsWithMagic (ring.drop (i * size)) → k ∣ i) {n : Nat} (hfit : n * (k * size) ≤ ring.length) :
    activeUberblock ring size (n * k) = (activeUberblock ring (k * size) n).map fun p => (p.1, p.2 * k) := by
  rw [activeUberblock_eq hring hfit, activeUberblock_eq hring (by rwa [Nat.mul_assoc]), found_mul hsize hk haligned,
    Newest.argmax_map]
  rfl

/-! ## Every ring -/

/-- The uberblock ring of the label at `off`, as far as the image reaches. -/
def ringIn (image : Bytes) (off : Nat) : Bytes := (image.drop (off + uberblockRingOffset)).take uberblockRingSize

/-- The whole slots of a ring at the smallest slot size. -/
def wholeSlots (ring : Bytes) : List Bytes := (List.range (ring.length / 1024)).map (slotAt ring 1024)

/-- The whole slots of every ring of an image, in the order of the scan. -/
def scanSlots (image : Bytes) : List Bytes := (labelOffsetList image).flatMap fun off => wholeSlots (ringIn image off)

theorem length_ringIn_le (image : Bytes) (off : Nat) : (ringIn image off).length ≤ 131072 := by
  have hsize : uberblockRingSize = 131072 := rfl
  rw [ringIn, List.length_take, hsize]
  exact Nat.min_le_left _ _

/-- A mount reads the ring of a label where the image reaches it. -/
theorem ringAt_eq {image : Bytes} {off : Nat} (hoff : off ≤ 2 ^ 63) :
    ringAt image off = if off + uberblockRingOffset ≤ image.length then some (ringIn image off) else none := by
  have hstart : uberblockRingOffset = 131072 := rfl
  have hsize : uberblockRingSize = 131072 := rfl
  unfold ringAt
  dsimp only
  rw [if_neg (by omega), satAdd_eq (by omega), Nat.add_comm uberblockRingOffset]
  split
  · rename_i hinside
    rw [slice?_of_le (by omega) (Nat.min_le_right _ _), ringIn, ← Nat.sub_min_sub_right, Nat.add_sub_cancel_left,
      ← List.length_drop, ← List.take_eq_take_min]
  · rename_i houtside
    rw [slice?, if_neg (by omega)]

/-- The offsets of the labels lie in the image or in its first label pair. -/
theorem le_of_mem_labelOffsetList {image : Bytes} {off : Nat} (h : off ∈ labelOffsetList image) :
    off ≤ max image.length labelSize := by
  rw [labelOffsetList, labelOffsets] at h
  split_ifs at h <;> simp only [List.mem_cons, List.not_mem_nil, or_false] at h <;> omega

/-- The uberblocks of a ring at the smallest slot size, without their slots. -/
theorem map_fst_found (ring : Bytes) :
    (found ring 1024 0 (ring.length / 1024)).map Prod.fst = (wholeSlots ring).filterMap Uberblock.parse := by
  rw [found, List.map_filterMap, wholeSlots, List.filterMap_map, ← List.range_eq_range']
  refine List.filterMap_congr fun i _ => ?_
  rw [Option.map_map]
  exact Option.map_id'

/-- A mount's scan of one ring. -/
theorem map_fst_activeUberblock (ring : Bytes) (hring : ring.length < 2 ^ 63) :
    (activeUberblock ring 1024 (ring.length / 1024)).map Prod.fst =
      List.argmax txgKey ((wholeSlots ring).filterMap Uberblock.parse) := by
  rw [activeUberblock_eq hring (Nat.div_mul_le_self _ _), ← map_fst_found, Newest.argmax_map]
  rfl

/-- A label the image does not reach holds no slot. -/
theorem ringIn_eq_nil {image : Bytes} {off : Nat} (h : ¬ off + uberblockRingOffset ≤ image.length) : ringIn image off = [] := by
  rw [ringIn, List.drop_eq_nil_of_le (by omega), List.take_nil]

/-- One label of a mount's scan: the uberblock of its ring is taken into the best. -/
theorem acrossLabels_cons_of_ring {image ring : Bytes} {off : Nat} (hring : ringAt image off = some ring) (offs : List Nat)
    (best : Option Uberblock) :
    acrossLabels image (off :: offs) best =
      match activeUberblock ring 1024 (ring.length / 1024) with
      | none => acrossLabels image offs best
      | some newest => acrossLabels image offs (some (Newest.better txgKey best newest.1)) := by
  have hslot : 1 <<< uberblockMinShift = 1024 := rfl
  rw [acrossLabels, hring]
  dsimp only
  rw [hslot]
  cases activeUberblock ring 1024 (ring.length / 1024) with
  | none => rfl
  | some newest =>
    obtain ⟨ub, slot⟩ := newest
    cases best with
    | none => rfl
    | some cur =>
      dsimp only
      by_cases hle : ub.txg ≤ cur.txg
      · have hkey : txgKey ub ≤ txgKey cur := UInt64.le_iff_toNat_le.1 hle
        rw [if_pos hle, Newest.better_of_le hkey]
      · have hkey : ¬ txgKey ub ≤ txgKey cur := hle ∘ UInt64.le_iff_toNat_le.2
        rw [if_neg hle, Newest.better_of_not_le hkey]

/-- A mount's scan over the labels finds the first of the highest transaction group. -/
theorem acrossLabels_eq {image : Bytes} (offs : List Nat) (hoffs : ∀ off ∈ offs, off ≤ 2 ^ 63) (best : Option Uberblock) :
    acrossLabels image offs best = List.argmax txgKey
      (best.toList ++ (offs.flatMap fun off => wholeSlots (ringIn image off)).filterMap Uberblock.parse) := by
  induction offs generalizing best with
  | nil => rw [acrossLabels, List.flatMap_nil, List.filterMap_nil, List.append_nil, Newest.argmax_toList]
  | cons off offs ih =>
    have hrest := ih fun off' hoff' => hoffs off' (List.mem_cons_of_mem off hoff')
    have hring := @ringAt_eq image off (hoffs off List.mem_cons_self)
    rw [List.flatMap_cons, List.filterMap_append]
    by_cases hinside : off + uberblockRingOffset ≤ image.length
    · rw [if_pos hinside] at hring
      rw [acrossLabels_cons_of_ring hring, Newest.argmax_part,
        ← map_fst_activeUberblock (ringIn image off) ((length_ringIn_le image off).trans_lt (by decide))]
      generalize activeUberblock (ringIn image off) 1024 ((ringIn image off).length / 1024) = newest
      cases newest with
      | none =>
        rw [Option.map_none, Option.toList_none, List.append_nil, Newest.argmax_toList]
        exact hrest best
      | some ub =>
        rw [Option.map_some, Option.toList_some, Newest.argmax_snoc, Newest.argmax_toList]
        exact hrest _
    · rw [if_neg hinside] at hring
      rw [acrossLabels, hring, ringIn_eq_nil hinside]
      exact hrest best

/-- A mount's bootstrap finds the first uberblock of the highest transaction group over every ring. -/
theorem activeUberblockAcrossLabels_eq {image : Bytes} (himage : image.length < 2 ^ 63) :
    activeUberblockAcrossLabels image =
      List.argmax txgKey ((scanSlots image).filterMap Uberblock.parse) := by
  refine acrossLabels_eq (labelOffsetList image) (fun off hoff => ?_) none
  have hsize : labelSize = 262144 := rfl
  have := le_of_mem_labelOffsetList hoff
  omega

/-! ## Declared slots -/

/-- The slot size is a power of two between 1 KiB and 64 KiB. -/
theorem slotShift_range (config : NvList) : 10 ≤ slotShift config ∧ slotShift config ≤ 16 := by
  have hmin : uberblockMinShift = 10 := rfl
  unfold slotShift
  split
  · split_ifs with h
    · rwa [hmin] at h
    · omega
  · omega

/-- The slots of the declared size, in slots of 1 KiB. -/
theorem slot_counts {a : Nat} (hlo : 10 ≤ a) (hhi : a ≤ 16) :
    1 <<< a = 2 ^ (a - 10) * 1024 ∧ uberblockRingSize / (1 <<< a) * 2 ^ (a - 10) = 128 ∧
      uberblockRingSize / (1 <<< a) * (2 ^ (a - 10) * 1024) = 131072 := by
  interval_cases a <;> decide

end ZfsForensic
