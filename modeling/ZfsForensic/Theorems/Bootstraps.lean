import ZfsForensic.Lemmas.Bootstraps
import ZfsForensic.Lemmas.SnapshotReads

/-!
# The two bootstraps

A label names its active uberblock at the slot size its configuration declares. A mount does not trust the configuration: it
scans every ring of the image at the smallest slot size. Both scans keep a running maximum, so that each finds the first
uberblock of the highest transaction group among the slots it reads, and the coarser one misses nothing where its slots hold
every magic.
-/

namespace ZfsForensic

open Octets Checked

/-- A parsed label has the active uberblock of its ring at the slot size its configuration declares. -/
theorem activeUberblock_of_parse {label : Bytes} {l0 : VdevLabel} (h : VdevLabel.parse label = .ok l0) :
    labelSize ≤ label.length ∧ activeUberblock (ringIn label 0) (1 <<< slotShift l0.config)
      (uberblockRingSize / (1 <<< slotShift l0.config)) = some (l0.activeUberblock, l0.activeSlot) := by
  rw [VdevLabel.parse] at h
  by_cases hlen : label.length < labelSize
  · rw [if_pos hlen] at h
    cases h
  · have hend : uberblockRingOffset + uberblockRingSize ≤ label.length := by
      rw [labelSize] at hlen
      rw [uberblockRingOffset, uberblockRingSize]
      omega
    have hring := slice?_of_le (Nat.le_add_right uberblockRingOffset uberblockRingSize) hend
    rw [Nat.add_sub_cancel_left] at hring
    rw [if_neg hlen, hring] at h
    refine ⟨Nat.not_lt.1 hlen, ?_⟩
    rw [ringIn, Nat.zero_add]
    split at h
    · cases h
    · split at h
      · cases h
      · dsimp only at h
        split at h
        · cases h
        · rename_i hactive
          cases h
          exact hactive

/-- The ring of a label's bytes is that of the image they are the start of. -/
theorem ringIn_take (image : Bytes) : ringIn (image.take labelSize) 0 = ringIn image 0 := by
  have hsize : labelSize - (0 + uberblockRingOffset) = uberblockRingSize := rfl
  rw [ringIn, ringIn, List.drop_take, hsize, List.take_take, Nat.min_self]

/-- A parsed front label has its whole ring. -/
theorem length_ringIn_of_parse {image : Bytes} {l0 : VdevLabel} (h : VdevLabel.parse (image.take labelSize) = .ok l0) :
    (ringIn image 0).length = 131072 := by
  have hlabel : labelSize = 262144 := rfl
  have hlen := (activeUberblock_of_parse h).1
  rw [List.length_take] at hlen
  rw [ringIn, List.length_take, List.length_drop, uberblockRingOffset, uberblockRingSize]
  omega

/-- The declared slot size finds the active uberblock of the smallest one, where it holds every magic. -/
theorem activeUberblock_of_aligned {image : Bytes} {l0 : VdevLabel} (h : VdevLabel.parse (image.take labelSize) = .ok l0)
    (haligned : ∀ i, StartsWithMagic ((ringIn image 0).drop (i * 1024)) → 2 ^ slotShift l0.config ∣ i * 1024) :
    activeUberblock (ringIn image 0) 1024 128 =
      some (l0.activeUberblock, l0.activeSlot * 2 ^ (slotShift l0.config - 10)) := by
  have hactive := (activeUberblock_of_parse h).2
  obtain ⟨hlo, hhi⟩ := slotShift_range l0.config
  obtain ⟨hsize, hcount, hbytes⟩ := slot_counts hlo hhi
  have hpow : 2 ^ slotShift l0.config = 2 ^ (slotShift l0.config - 10) * 1024 := by rw [← hsize, Nat.one_shiftLeft]
  have hring := length_ringIn_of_parse h
  rw [ringIn_take] at hactive
  have hmultiples (i : Nat) (hi : StartsWithMagic ((ringIn image 0).drop (i * 1024))) :
      2 ^ (slotShift l0.config - 10) ∣ i := by
    have hdvd := haligned i hi
    rw [hpow] at hdvd
    exact Nat.dvd_of_mul_dvd_mul_right (by omega) hdvd
  have hmul := activeUberblock_mul (n := uberblockRingSize / (1 <<< slotShift l0.config)) (by rw [hring]; decide) (by decide)
    (Nat.two_pow_pos (slotShift l0.config - 10)) hmultiples (by rw [hring, hbytes])
  rw [hcount, ← hsize, hactive] at hmul
  exact hmul

/-- Where the first label parses, the mount finds an uberblock that is no older. -/
theorem exists_newer {image : Bytes} (himage : image.length < 2 ^ 63) {cur : Uberblock} {slot : Nat}
    (hactive : activeUberblock (ringIn image 0) 1024 ((ringIn image 0).length / 1024) = some (cur, slot)) :
    ∃ ub, activeUberblockAcrossLabels image = some ub ∧ cur.txg ≤ ub.txg := by
  have hscan := map_fst_activeUberblock (ringIn image 0) ((length_ringIn_le image 0).trans_lt (by decide))
  rw [hactive, Option.map_some] at hscan
  obtain ⟨bytes, hbytes, hparse⟩ := List.mem_filterMap.1 (List.argmax_mem (Option.mem_def.2 hscan.symm))
  have hfirst : 0 ∈ labelOffsetList image := by
    rw [labelOffsetList, labelOffsets]
    split_ifs <;> exact List.mem_cons_self
  have hmem : cur ∈ (scanSlots image).filterMap Uberblock.parse :=
    List.mem_filterMap.2 ⟨bytes, List.mem_flatMap.2 ⟨0, hfirst, hbytes⟩, hparse⟩
  rw [activeUberblockAcrossLabels_eq himage]
  cases hmax : List.argmax txgKey ((scanSlots image).filterMap Uberblock.parse) with
  | none =>
    rw [List.argmax_eq_none.1 hmax] at hmem
    cases hmem
  | some ub =>
    have hle : txgKey cur ≤ txgKey ub := List.le_of_mem_argmax hmem hmax
    exact ⟨ub, rfl, UInt64.le_iff_toNat_le.2 hle⟩

/-- The cross-label uberblock stands in a slot behind older ones only, and before none that is newer. -/
theorem exists_slot_of_newest {image : Bytes} (himage : image.length < 2 ^ 63) {ub : Uberblock}
    (hub : activeUberblockAcrossLabels image = some ub) :
    ∃ pre slot post, scanSlots image = pre ++ slot :: post ∧ Uberblock.parse slot = some ub ∧
      (∀ s ∈ pre, ∀ u, Uberblock.parse s = some u → u.txg < ub.txg) ∧
      ∀ s ∈ post, ∀ u, Uberblock.parse s = some u → u.txg ≤ ub.txg := by
  rw [activeUberblockAcrossLabels_eq himage] at hub
  obtain ⟨pre, post, hsplit, hpre, hpost⟩ := Newest.exists_split_of_argmax hub
  obtain ⟨front, rest, hslots, hfront, hrest⟩ := List.filterMap_eq_append_iff.1 hsplit
  obtain ⟨skipped, slot, back, rfl, hskipped, hslot, hback⟩ := List.filterMap_eq_cons_iff.1 hrest
  refine ⟨front ++ skipped, slot, back, by rw [hslots, List.append_assoc], hslot, ?_, ?_⟩
  · intro s hs u hu
    rcases List.mem_append.1 hs with hs | hs
    · exact UInt64.lt_iff_toNat_lt.2 (hpre u (hfront ▸ List.mem_filterMap.2 ⟨s, hs, hu⟩))
    · rw [hskipped s hs] at hu
      cases hu
  · intro s hs u hu
    exact UInt64.le_iff_toNat_le.2 (hpost u (hback ▸ List.mem_filterMap.2 ⟨s, hs, hu⟩))

/-- Both bootstraps find the newest uberblock. The mount finds none exactly where no whole slot begins with the magic, and
otherwise the first of the highest transaction group. Where the first label parses and its slots hold every magic of its ring,
its active uberblock is the one a scan at 1 KiB finds, and the mount's is no older. -/
theorem bootstraps_find_newest (image : Bytes) (himage : image.length < 2 ^ 63) :
    (activeUberblockAcrossLabels image = none ↔ ∀ slot ∈ scanSlots image, ¬ StartsWithMagic slot) ∧
      (∀ ub, activeUberblockAcrossLabels image = some ub →
        ∃ pre slot post, scanSlots image = pre ++ slot :: post ∧ Uberblock.parse slot = some ub ∧
          (∀ s ∈ pre, ∀ u, Uberblock.parse s = some u → u.txg < ub.txg) ∧
          ∀ s ∈ post, ∀ u, Uberblock.parse s = some u → u.txg ≤ ub.txg) ∧
      ∀ l0, VdevLabel.parse (image.take labelSize) = .ok l0 →
        (∀ i, StartsWithMagic ((ringIn image 0).drop (i * 1024)) → 2 ^ slotShift l0.config ∣ i * 1024) →
        activeUberblock (ringIn image 0) 1024 128 =
          some (l0.activeUberblock, l0.activeSlot * 2 ^ (slotShift l0.config - 10)) ∧
        ∃ ub, activeUberblockAcrossLabels image = some ub ∧ l0.activeUberblock.txg ≤ ub.txg := by
  refine ⟨?_, fun ub hub => exists_slot_of_newest himage hub, fun l0 hl0 haligned => ?_⟩
  · rw [activeUberblockAcrossLabels_eq himage, List.argmax_eq_none, List.filterMap_eq_nil_iff]
    exact forall₂_congr fun slot _ => parse_eq_none_iff slot
  · have hactive := activeUberblock_of_aligned hl0 haligned
    have hslots : (ringIn image 0).length / 1024 = 128 := by rw [length_ringIn_of_parse hl0]
    refine ⟨hactive, ?_⟩
    rw [← hslots] at hactive
    exact exists_newer himage hactive

/-- On the image of the small pool, whose slots are of 4 KiB, both bootstraps find the sixth slot of the ring: the slot in front of it holds an older
uberblock, in the other byte order, and the one behind it another of the same transaction group. -/
theorem bootstraps_find_newest_smallPool :
    slotShift smallPool.config.tree = 12 ∧
      activeUberblock (ringIn smallImage 0) 1024 128 = some (((Packer.stored plainCtx).labelAt smallPool).current.parsed, 20) ∧
      ∃ ub, activeUberblockAcrossLabels smallImage = some ub ∧ 9 ≤ ub.txg ∧ ∃ pre slot post, scanSlots smallImage = pre ++ slot :: post ∧
        Uberblock.parse slot = some ub ∧ (∀ s ∈ pre, ∀ u, Uberblock.parse s = some u → u.txg < ub.txg) ∧
        ∀ s ∈ post, ∀ u, Uberblock.parse s = some u → u.txg ≤ ub.txg := by
  have hstored := poolAt_smallImage.body.label_stored (Packer.stored plainCtx)
  have hfront := poolAt_smallImage.labels 0 (zero_mem_labelOffsetList smallImage)
  have hshift : slotShift smallPool.config.tree = 12 := by decide
  have hparse : VdevLabel.parse (smallImage.take labelSize) = .ok ((Packer.stored plainCtx).labelAt smallPool).parsed := by
    obtain ⟨-, -, hbytes⟩ := slice?_eq_some_iff.1 hfront
    rw [List.drop_zero, Nat.sub_zero, Nat.zero_add, hstored.length_encode] at hbytes
    rw [← hbytes]
    exact hstored.parse
  obtain ⟨-, hslot, hboth⟩ := bootstraps_find_newest smallImage poolAt_smallImage.size
  obtain ⟨hactive, ub, hub, hle⟩ := hboth _ hparse fun i hi => by
    rw [hstored.ringIn_eq hfront] at hi
    have hdvd := hstored.aligned hi
    rwa [VdevLabelPhys.slotSize, Nat.one_shiftLeft] at hdvd
  exact ⟨hshift, hactive, ub, hub, hle, hslot ub hub⟩

end ZfsForensic
