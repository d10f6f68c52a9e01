import ZfsForensic.Lemmas.Bootstraps
import ZfsForensic.Theorems.Labels

/-!
# Writing labels

A label is written as its packed configuration and its ring: slots of the size the configuration declares, each empty or with an uberblock in
a byte order of its own. One of them is the current one, of a higher transaction group than those before it and of no lower one than those
behind it. Both ways of reading a label find it.
-/

namespace ZfsForensic

open Octets Checked

/-- An uberblock in a ring, in a byte order of its own. -/
structure RingSlot where
  order : Endian
  ub : Uberblock

/-- The uberblock a reader makes of it. -/
def RingSlot.parsed (s : RingSlot) : Uberblock := s.ub.inOrder s.order

/-- A slot: empty, or an uberblock filled up with zeros. -/
def slotBytes (size : Nat) : Option RingSlot → Bytes
  | none => zeros size
  | some s => s.ub.encode s.order ++ zeros (size - 168)

/-- A label to be written: its configuration, and the slots of its ring around the current uberblock. -/
structure VdevLabelPhys where
  config : XdrList
  before : List (Option RingSlot)
  current : RingSlot
  after : List (Option RingSlot)

namespace VdevLabelPhys

variable (l : VdevLabelPhys)

/-- The slot size its configuration declares. -/
def slotSize : Nat := 1 <<< slotShift l.config.tree

/-- The slots of its ring. -/
def slots : List (Option RingSlot) := l.before ++ some l.current :: l.after

/-- The packed configuration. -/
def packed : Bytes := l.config.pack 1 0 0 0 1

/-- The region of the configuration. -/
def region : Bytes := l.packed ++ zeros (nvlistSize - l.packed.length)

/-- The ring. -/
def ring : Bytes := l.slots.flatMap (slotBytes l.slotSize)

/-- The bytes of a label. -/
def encode : Bytes := zeros nvlistOffset ++ l.region ++ l.ring

/-- What a written label is: its configuration is one that packs into its region, its slots are those of a ring, every uberblock is stored
as it is, and the current one is the newest. -/
structure Stored : Prop where
  config : l.config.Stored
  count : l.config.count < maxPairs
  depth : l.config.depth ≤ maxDepth
  fits : l.packed.length ≤ nvlistSize
  slots : l.slots.length * l.slotSize = uberblockRingSize
  uberblocks : ∀ s, some s ∈ l.slots → s.ub.Stored
  older : ∀ s, some s ∈ l.before → s.ub.txg < l.current.ub.txg
  newer : ∀ s, some s ∈ l.after → s.ub.txg ≤ l.current.ub.txg

/-- What a reader makes of a label. -/
def parsed : VdevLabel := { config := l.config.tree, activeUberblock := l.current.parsed, activeSlot := l.before.length }

end VdevLabelPhys

/-! ## Slots -/

/-- An uberblock takes 168 bytes. -/
theorem Uberblock.length_encode (e : Endian) (ub : Uberblock) : (ub.encode e).length = 168 := by
  rw [Uberblock.encode, List.length_append, length_encodeWords, Blkptr.length_encode]
  rfl

theorem length_slotBytes {size : Nat} (hsize : 168 ≤ size) (slot : Option RingSlot) : (slotBytes size slot).length = size := by
  cases slot with
  | none => exact length_zeros size
  | some s =>
    rw [slotBytes, List.length_append, Uberblock.length_encode, length_zeros]
    omega

/-- A slot holds its uberblock, if any. -/
theorem parse_slotBytes (size : Nat) {slot : Option RingSlot} (h : ∀ s, slot = some s → s.ub.Stored) :
    Uberblock.parse (slotBytes size slot) = slot.map RingSlot.parsed := by
  cases slot with
  | none => exact parse_zeros size
  | some s => exact (Uberblock.parse_encode s.order (h s rfl) _).1

/-- Behind its uberblock a slot holds zeros. -/
theorem drop_slotBytes {size n : Nat} (hn : 168 ≤ n) (slot : Option RingSlot) :
    (slotBytes size slot).drop n = zeros (size - n) := by
  cases slot with
  | none => rw [slotBytes, zeros, List.drop_replicate, zeros]
  | some s =>
    have hrest : size - 168 - (n - 168) = size - n := by omega
    rw [slotBytes, List.drop_append, List.drop_eq_nil_of_le (by rw [Uberblock.length_encode]; exact hn), List.nil_append,
      Uberblock.length_encode, zeros, List.drop_replicate, zeros, hrest]

/-- Eight zeros are no magic. -/
theorem not_startsWithMagic_of_zeros {slot : Bytes} (h : zeros 8 <+: slot) : ¬ StartsWithMagic slot := by
  rintro ⟨e, he⟩
  have heq : encode e 8 uberblockMagic.toNat = zeros 8 :=
    (List.prefix_of_prefix_length_le he h (by rw [length_encode, length_zeros])).eq_of_length (by rw [length_encode, length_zeros])
  cases e <;> exact absurd heq (by decide)

/-! ## The ring -/

namespace VdevLabelPhys

variable {l : VdevLabelPhys}

theorem slotSize_range : 168 ≤ l.slotSize ∧ 1024 ∣ l.slotSize := by
  obtain ⟨hlo, hhi⟩ := slotShift_range l.config.tree
  obtain ⟨hsize, -, -⟩ := slot_counts hlo hhi
  have hpos := Nat.two_pow_pos (slotShift l.config.tree - 10)
  rw [slotSize, hsize]
  exact ⟨by omega, Nat.dvd_mul_left 1024 _⟩

theorem length_of_slots (slot : Option RingSlot) : (slotBytes l.slotSize slot).length = l.slotSize :=
  length_slotBytes slotSize_range.1 slot

theorem Stored.length_ring (h : l.Stored) : l.ring.length = uberblockRingSize := by
  rw [ring, Radix.length_flatMap fun slot _ => length_of_slots slot, Nat.mul_comm, h.slots]

theorem slotAt_ring {i : Nat} {slot : Option RingSlot} (hslot : l.slots[i]? = some slot) :
    slotAt l.ring l.slotSize i = slotBytes l.slotSize slot := by
  have hpart := Radix.take_drop_flatMap (f := slotBytes l.slotSize) (r := 0) (k := l.slotSize) (fun s _ => length_of_slots s) hslot
    (by omega)
  rw [Nat.add_zero, Nat.mul_comm, List.drop_zero] at hpart
  rw [slotAt, ring, hpart, List.take_of_length_le (length_of_slots slot).le]

theorem Stored.parse_slot (h : l.Stored) {i : Nat} {slot : Option RingSlot} (hslot : l.slots[i]? = some slot) :
    Uberblock.parse (slotAt l.ring l.slotSize i) = slot.map RingSlot.parsed := by
  rw [slotAt_ring hslot]
  exact parse_slotBytes _ fun s hs => h.uberblocks s (by rw [← hs]; exact List.mem_of_getElem? hslot)

/-- A scan at the declared size finds the current uberblock. -/
theorem Stored.find_current (h : l.Stored) :
    activeUberblock l.ring l.slotSize l.slots.length = some (l.current.parsed, l.before.length) := by
  have hring := h.length_ring
  have hsize : uberblockRingSize = 131072 := rfl
  have hcurrent : l.slots[l.before.length]? = some (some l.current) := by
    rw [VdevLabelPhys.slots, List.getElem?_append_right le_rfl, Nat.sub_self, List.getElem?_cons_zero]
  have hmid : found l.ring l.slotSize l.before.length 1 = [(l.current.parsed, l.before.length)] := by
    rw [found, List.range'_one, List.filterMap_cons, h.parse_slot hcurrent]
    rfl
  have hlen : l.slots.length = l.before.length + (1 + l.after.length) := by
    rw [VdevLabelPhys.slots, List.length_append, List.length_cons]
    omega
  have hsplit : found l.ring l.slotSize 0 l.slots.length =
      found l.ring l.slotSize 0 l.before.length ++ (l.current.parsed, l.before.length) ::
        found l.ring l.slotSize (l.before.length + 1) l.after.length := by
    rw [← List.singleton_append, ← hmid, hlen]
    simp only [found]
    rw [← List.filterMap_append, ← List.filterMap_append, List.range'_append_1, ← List.range'_append_1, Nat.zero_add]
  rw [activeUberblock_eq (by omega) (by rw [h.slots, hring]), hsplit]
  refine Newest.argmax_of_split (fun p hp => ?_) (fun p hp => ?_)
  · obtain ⟨i, hi, hparse⟩ := List.mem_filterMap.1 hp
    obtain ⟨-, hi⟩ := List.mem_range'_1.1 hi
    obtain ⟨slot, hslot⟩ : ∃ slot, l.before[i]? = some slot := ⟨_, List.getElem?_eq_getElem (by omega)⟩
    have hslots : l.slots[i]? = some slot := by rw [VdevLabelPhys.slots, List.getElem?_append_left (by omega), hslot]
    rw [h.parse_slot hslots] at hparse
    obtain ⟨ub, hub, rfl⟩ := Option.map_eq_some_iff.1 hparse
    obtain ⟨s, rfl, rfl⟩ := Option.map_eq_some_iff.1 hub
    exact UInt64.lt_iff_toNat_lt.1 (h.older s (List.mem_of_getElem? hslot))
  · obtain ⟨i, hi, hparse⟩ := List.mem_filterMap.1 hp
    obtain ⟨hlo, hi⟩ := List.mem_range'_1.1 hi
    obtain ⟨slot, hslot⟩ : ∃ slot, l.after[i - l.before.length - 1]? = some slot := ⟨_, List.getElem?_eq_getElem (by omega)⟩
    have hslots : l.slots[i]? = some slot := by
      rw [VdevLabelPhys.slots, List.getElem?_append_right (by omega), List.getElem?_cons, if_neg (by omega), hslot]
    rw [h.parse_slot hslots] at hparse
    obtain ⟨ub, hub, rfl⟩ := Option.map_eq_some_iff.1 hparse
    obtain ⟨s, rfl, rfl⟩ := Option.map_eq_some_iff.1 hub
    exact UInt64.le_iff_toNat_le.1 (h.newer s (List.mem_of_getElem? hslot))

/-! ## The label -/

theorem Stored.length_region (h : l.Stored) : l.region.length = nvlistSize := by
  have hfits := h.fits
  rw [region, List.length_append, length_zeros]
  omega

theorem Stored.length_encode (h : l.Stored) : l.encode.length = labelSize := by
  rw [encode, List.length_append, List.length_append, length_zeros, h.length_region, h.length_ring]
  rfl

theorem Stored.parse_region (h : l.Stored) : nvlistParse l.region = .ok l.config.tree := by
  refine @nvlistParse_of_part l.region 0 1 l.config rfl h.config h.depth h.count ?_
  exact part_middle [nvEncodeXdr, 1, 0, 0] _ _

/-- The parts of a label where it lies in an image. -/
theorem Stored.parts (h : l.Stored) {image : Bytes} {off : Nat} (hpart : Part image off l.encode) :
    Part image (off + nvlistOffset) l.region ∧ Part image (off + uberblockRingOffset) l.ring := by
  have hright := hpart.right
  rw [List.length_append, length_zeros, h.length_region] at hright
  have hleft := hpart.left.right
  rw [length_zeros] at hleft
  exact ⟨hleft, hright⟩

/-- A label is parsed as what was written. -/
theorem Stored.parse (h : l.Stored) : VdevLabel.parse l.encode = .ok l.parsed := by
  have hself : Part l.encode 0 l.encode := by
    have hpart := part_middle [] l.encode []
    rwa [List.nil_append, List.append_nil] at hpart
  obtain ⟨hregion, hring⟩ := h.parts hself
  rw [Nat.zero_add] at hregion hring
  have hslots := h.slots
  have hpos : 0 < l.slotSize := by
    have hsize := (slotSize_range (l := l)).1
    omega
  have hcount : uberblockRingSize / (1 <<< slotShift l.config.tree) = l.slots.length := by
    rw [← hslots]
    exact Nat.mul_div_cancel _ hpos
  refine VdevLabel.parse_eq_ok h.length_encode.ge (hregion.slice? (by rw [h.length_region])) h.parse_region
    (hring.slice? (by rw [h.length_ring])) ?_
  rw [hcount]
  exact h.find_current

/-! ## Every label -/

/-- At the smallest slot size no magic stands behind the start of a slot. -/
theorem Stored.aligned (h : l.Stored) {i : Nat} (hi : StartsWithMagic (l.ring.drop (i * 1024))) : l.slotSize ∣ i * 1024 := by
  obtain ⟨hlo, k, hk⟩ := slotSize_range (l := l)
  have hpos : 0 < l.slotSize := by omega
  have hdiv := Nat.div_add_mod (i * 1024) l.slotSize
  have hmod := Nat.mod_lt (i * 1024) hpos
  by_contra hnot
  have hne : i * 1024 % l.slotSize ≠ 0 := fun hzero => hnot (Nat.dvd_of_mod_eq_zero hzero)
  -- the remainder is one of whole KiB, so it lies behind the uberblock of its slot, and 1 KiB or more before the next
  have hrem : 1024 ∣ i * 1024 % l.slotSize := (Nat.dvd_mod_iff ⟨k, hk⟩).2 (Nat.dvd_mul_left 1024 i)
  obtain ⟨r, hr⟩ := hrem
  have hroom : 1024 * r + 1024 ≤ l.slotSize := by
    rw [hr, hk] at hmod
    rw [hk]
    have hlt : r < k := Nat.lt_of_mul_lt_mul_left hmod
    omega
  refine not_startsWithMagic_of_zeros ?_ hi
  cases hslot : l.slots[i * 1024 / l.slotSize]? with
  | none =>
    have hlen := List.getElem?_eq_none_iff.1 hslot
    have hring := h.length_ring
    have hslots := h.slots
    have hpast : l.ring.length ≤ i * 1024 := by
      rw [hring, ← hslots]
      exact (Nat.mul_le_mul_right _ hlen).trans (Nat.div_mul_le_self _ _)
    obtain ⟨e, he⟩ := hi
    rw [List.drop_eq_nil_of_le hpast, List.prefix_nil] at he
    have hnil := congrArg List.length he
    rw [Octets.length_encode] at hnil
    cases hnil
  | some slot =>
    have hrange := Radix.take_drop_flatMap (f := slotBytes l.slotSize) (r := i * 1024 % l.slotSize) (k := 8)
      (fun s _ => length_of_slots s) hslot (by omega)
    rw [hdiv, drop_slotBytes (by omega)] at hrange
    rw [ring]
    have hzeros : (zeros (l.slotSize - i * 1024 % l.slotSize)).take 8 = zeros 8 := by
      rw [zeros, List.take_replicate, Nat.min_eq_left (by omega), zeros]
    rw [hzeros] at hrange
    rw [← hrange]
    exact List.take_prefix _ _

/-- The uberblocks of a ring at the smallest slot size, the current one the best of them. -/
theorem Stored.newest (h : l.Stored) : List.argmax txgKey ((wholeSlots l.ring).filterMap Uberblock.parse) = some l.current.parsed := by
  obtain ⟨hlo, hhi⟩ := slotShift_range l.config.tree
  obtain ⟨hsize, hcount, hbytes⟩ := slot_counts hlo hhi
  have hring := h.length_ring
  have hringSize : uberblockRingSize = 131072 := rfl
  have hslots := h.slots
  have hpos := Nat.two_pow_pos (slotShift l.config.tree - 10)
  have hslotSize : l.slotSize = 2 ^ (slotShift l.config.tree - 10) * 1024 := hsize
  have hnumber : l.slots.length * 2 ^ (slotShift l.config.tree - 10) = 128 := by
    rw [hslotSize, ← Nat.mul_assoc, hringSize] at hslots
    omega
  have haligned : ∀ i, StartsWithMagic (l.ring.drop (i * 1024)) → 2 ^ (slotShift l.config.tree - 10) ∣ i := by
    intro i hi
    have hdvd := h.aligned hi
    rw [hslotSize] at hdvd
    exact Nat.dvd_of_mul_dvd_mul_right (by decide) hdvd
  have hmul := activeUberblock_mul (n := l.slots.length) (by omega) (by decide) hpos haligned (by rw [← hslotSize, hslots, hring])
  rw [hnumber, ← hslotSize, h.find_current] at hmul
  have hkib : l.ring.length / 1024 = 128 := by rw [hring, hringSize]
  rw [← map_fst_activeUberblock l.ring (by omega), hkib, hmul]
  rfl

/-- The ring of an image where a label lies is the label's. -/
theorem Stored.ringIn_eq (h : l.Stored) {image : Bytes} {off : Nat} (hpart : Part image off l.encode) : ringIn image off = l.ring := by
  obtain ⟨-, -, heq⟩ := slice?_eq_some_iff.1 (h.parts hpart).2
  rw [Nat.add_sub_cancel_left, h.length_ring] at heq
  rw [ringIn, ← heq]

/-- Where every label of an image is this one, a mount finds its current uberblock. -/
theorem Stored.acrossLabels (h : l.Stored) {image : Bytes} (himage : image.length < 2 ^ 63)
    (hparts : ∀ off ∈ labelOffsetList image, Part image off l.encode) :
    activeUberblockAcrossLabels image = some l.current.parsed := by
  have hrings : ∀ off ∈ labelOffsetList image, ringIn image off = l.ring := fun off hoff => h.ringIn_eq (hparts off hoff)
  have hfirst : ∃ rest, labelOffsetList image = 0 :: rest := by
    rw [labelOffsetList, labelOffsets]
    split_ifs <;> exact ⟨_, rfl⟩
  obtain ⟨rest, hrest⟩ := hfirst
  have hslots : ∀ offs : List Nat, (∀ off ∈ offs, off ∈ labelOffsetList image) → ∀ ub,
      ub ∈ (offs.flatMap fun off => wholeSlots (ringIn image off)).filterMap Uberblock.parse →
        txgKey ub ≤ txgKey l.current.parsed := by
    intro offs hoffs ub hub
    obtain ⟨slot, hslot, hparse⟩ := List.mem_filterMap.1 hub
    obtain ⟨off, hoff, hslot⟩ := List.mem_flatMap.1 hslot
    rw [hrings off (hoffs off hoff)] at hslot
    exact List.le_of_mem_argmax (List.mem_filterMap.2 ⟨slot, hslot, hparse⟩) (Option.mem_def.2 h.newest)
  rw [activeUberblockAcrossLabels_eq himage, scanSlots, hrest, List.flatMap_cons, List.filterMap_append]
  refine Newest.argmax_append_of_le ?_ (hslots rest fun off hoff => by rw [hrest]; exact List.mem_cons_of_mem _ hoff)
  rw [hrings 0 (by rw [hrest]; exact List.mem_cons_self)]
  exact h.newest

end VdevLabelPhys

end ZfsForensic
