import ZfsForensic.Theorems.WrittenPools
import ZfsForensic.Theorems.WrittenRecovery

/-!
# Pools with torn labels

Of the four labels of a pool some may be torn, wiped, or left behind by an earlier transaction group. As long as one is the pool's own, and the
others hold no uberblock of its transaction group or a later one, the mount serves the pool. The recovery and the audit read the front label alone.
-/

namespace ZfsForensic

open Octets Checked Checked.Run

/-! ## Labels -/

/-- A label without an uberblock of a transaction group or a later one: torn, wiped or older. -/
structure Outdated (txg : UInt64) (label : Bytes) : Prop where
  length : label.length = labelSize
  older : ∀ ub ∈ (wholeSlots (label.drop uberblockRingOffset)).filterMap Uberblock.parse, ub.txg < txg

/-- A label of zeros is outdated. -/
theorem outdated_zeros (txg : UInt64) : Outdated txg (zeros labelSize) := by
  refine ⟨length_zeros _, fun ub hub => ?_⟩
  obtain ⟨slot, hslot, hparse⟩ := List.mem_filterMap.1 hub
  obtain ⟨i, -, rfl⟩ := List.mem_map.1 hslot
  have hzeros : ∃ n, slotAt ((zeros labelSize).drop uberblockRingOffset) 1024 i = zeros n := by
    rw [slotAt, zeros, List.drop_replicate, List.drop_replicate, List.take_replicate]
    exact ⟨_, rfl⟩
  obtain ⟨n, hn⟩ := hzeros
  rw [hn, parse_zeros] at hparse
  exact absurd hparse (by simp)

/-- The ring of a label that lies in an image. -/
theorem ringIn_of_part {image label : Bytes} {off : Nat} (hpart : Part image off label) (hlen : label.length = labelSize) :
    ringIn image off = label.drop uberblockRingOffset := by
  have hlabel : labelSize = 262144 := rfl
  have hring : uberblockRingOffset = 131072 := rfl
  have hsize : uberblockRingSize = 131072 := rfl
  obtain ⟨-, -, heq⟩ := slice?_eq_some_iff.1 hpart
  rw [Nat.add_sub_cancel_left, hlen] at heq
  have hsplit : labelSize - uberblockRingOffset = uberblockRingSize := by omega
  rw [heq, List.drop_take, List.drop_drop, hsplit, ringIn]

section Torn

variable {Γ : Ctx} (P : Packer Γ) {image : Bytes} {pool : Pool}

/-- Where a pool lies in an image whose labels are its own or outdated, one of them its own. -/
structure Packer.TornAt (image : Bytes) (pool : Pool) : Prop where
  body : P.BodyAt image pool
  labels : ∀ off ∈ labelOffsetList image, ∃ label, Part image off label ∧ (label = (P.labelAt pool).encode ∨ Outdated pool.txg label)
  own : ∃ off ∈ labelOffsetList image, Part image off (P.labelAt pool).encode
  size : image.length < 2 ^ 63

/-- The newest uberblock over the labels is the current one of the pool. -/
theorem Packer.TornAt.acrossLabels (h : P.TornAt image pool) :
    activeUberblockAcrossLabels image = some (P.labelAt pool).current.parsed := by
  have hstored := h.body.label_stored P
  have hown : ∀ {off}, Part image off (P.labelAt pool).encode →
      List.argmax txgKey ((wholeSlots (ringIn image off)).filterMap Uberblock.parse) = some (P.labelAt pool).current.parsed := by
    intro off hpart
    have hring := (hstored.parts hpart).2
    obtain ⟨-, -, heq⟩ := slice?_eq_some_iff.1 hring
    rw [Nat.add_sub_cancel_left, hstored.length_ring] at heq
    rw [ringIn, ← heq]
    exact hstored.newest
  rw [activeUberblockAcrossLabels_eq h.size, scanSlots, List.filterMap_flatMap]
  refine Newest.argmax_flatMap (fun off hoff => ?_) ?_
  · obtain ⟨label, hpart, rfl | hold⟩ := h.labels off hoff
    · exact Or.inl (hown hpart)
    · refine Or.inr fun ub hub => ?_
      rw [ringIn_of_part hpart hold.length] at hub
      exact UInt64.lt_iff_toNat_lt.1 (hold.older ub hub)
  · obtain ⟨off, hoff, hpart⟩ := h.own
    exact ⟨off, hoff, hown hpart⟩

/-- A pool lies in an image with labels of its own or outdated ones. -/
theorem Packer.tornAt_writeLabelled {front front' back back' : Bytes} (hbody : (P.body pool).length < 2 ^ 59)
    (hlabels : ∀ label ∈ [front, front', back, back'], label = (P.labelAt pool).encode ∨ Outdated pool.txg label)
    (hown : (P.labelAt pool).encode ∈ [front, front', back, back']) : P.TornAt (P.writeLabelled pool front front' back back') pool := by
  have hlabel : labelSize = 262144 := rfl
  have hfits : sectorsOf (P.body pool) < 2 ^ 50 := by
    have hsectored := (P.sectored_body pool).1
    rw [Sectored] at hsectored
    omega
  have hlen : ∀ label ∈ [front, front', back, back'], label.length = labelSize := by
    intro label hmem
    rcases hlabels label hmem with rfl | hold
    · exact P.length_labelAt hfits
    · exact hold.length
  obtain ⟨htotal, hpart, hparts⟩ := P.parts_writeLabelled hlen
  refine ⟨⟨hpart, hfits⟩, fun off hoff => ?_, ?_, by omega⟩
  · obtain ⟨i, hi⟩ := List.getElem?_of_mem hoff
    obtain ⟨label, hmem, hat⟩ := exists_of_forall₂ hparts.flip hi
    exact ⟨label, hat, hlabels label (List.mem_of_getElem? hmem)⟩
  · obtain ⟨i, hi⟩ := List.getElem?_of_mem hown
    obtain ⟨off, hmem, hat⟩ := exists_of_forall₂ hparts hi
    exact ⟨off, List.mem_of_getElem? hmem, hat⟩

end Torn

/-! ## Without the front label -/

/-- Where the front label does not parse, nothing is recovered and nothing is reported. -/
theorem blind_of_parse_error {Γ : Ctx} {image bytes : Bytes} {e : ZfsError} (hbytes : slice? image 0 labelSize = some bytes)
    (hparse : VdevLabel.parse bytes = .error e) : recoverDeleted Γ image = pure [] ∧ auditImage Γ image = [] := by
  have hopen : openMos Γ image = none := by
    rw [openMos, hbytes]
    dsimp only
    rw [hparse]
  constructor
  · rw [recoverDeleted, hopen]
  · rw [auditImage, hbytes]
    dsimp only
    rw [hparse]

/-- A pool with torn labels mounts as long as one of the four is its own, wherever that lies, and the mount serves its head volume. What it has
deleted is recovered where the front label is its own; where the front label does not parse, nothing is recovered and nothing reported. -/
theorem open_of_tornLabels {Γ : Ctx} (P : Packer Γ) (pool : Pool) (front front' back back' : Bytes) (hbody : (P.body pool).length < 2 ^ 59)
    (hlabels : ∀ label ∈ [front, front', back, back'], label = (P.labelAt pool).encode ∨ Outdated pool.txg label)
    (hown : (P.labelAt pool).encode ∈ [front, front', back, back']) :
    (∃ fs, (ZfsFs.open Γ (P.writeLabelled pool front front' back back')).value = .ok fs ∧ fs.Serves Γ pool.head) ∧
      (front = (P.labelAt pool).encode → (recoverDeleted Γ (P.writeLabelled pool front front' back back')).value = pool.deleted Γ) ∧
      ∀ e, VdevLabel.parse front = .error e → recoverDeleted Γ (P.writeLabelled pool front front' back back') = pure [] ∧
        auditImage Γ (P.writeLabelled pool front front' back back') = [] := by
  have hat := P.tornAt_writeLabelled hbody hlabels hown
  have hfront : Part (P.writeLabelled pool front front' back back') 0 front :=
    (parts_of_six front front' (zeros 3670016) (P.body pool) back back').1
  refine ⟨?_, fun hsame => ?_, fun e hparse => ?_⟩
  · obtain ⟨s, hopen, hhead⟩ := hat.body.open P hat.acrossLabels
    exact ⟨_, hopen, hhead.serves P rfl rfl rfl rfl rfl⟩
  · exact hat.body.recovered P (by rw [← hsame]; exact hfront)
  · have hlen : front.length = labelSize := by
      rcases hlabels front List.mem_cons_self with rfl | hold
      · exact (hat.body.label_stored P).length_encode
      · exact hold.length
    exact blind_of_parse_error (hfront.slice? (by rw [hlen, Nat.zero_add])) hparse

/-- The small pool mounts with its third label alone. -/
theorem open_smallPool_third :
    ∃ fs, (ZfsFs.open plainCtx ((Packer.stored plainCtx).writeLabelled smallPool (zeros labelSize) (zeros labelSize)
        ((Packer.stored plainCtx).labelAt smallPool).encode (zeros labelSize))).value = .ok fs ∧
      (fs.readAt plainCtx 6 1 5).value = .ok [2, 3] := by
  have hbody := (Packer.stored plainCtx).length_body_le smallPool
  have hsize := length_smallPool (Packer.stored plainCtx)
  have hfile : smallHead.object? 6 = some (smallFile [1, 2, 3] (by decide)) := rfl
  have hlabels : ∀ label ∈ [zeros labelSize, zeros labelSize, ((Packer.stored plainCtx).labelAt smallPool).encode, zeros labelSize],
      label = ((Packer.stored plainCtx).labelAt smallPool).encode ∨ Outdated smallPool.txg label := by
    intro label hlabel
    simp only [List.mem_cons, List.not_mem_nil, or_false] at hlabel
    rcases hlabel with rfl | rfl | rfl | rfl
    · exact Or.inr (outdated_zeros _)
    · exact Or.inr (outdated_zeros _)
    · exact Or.inl rfl
    · exact Or.inr (outdated_zeros _)
  obtain ⟨⟨fs, hopen, hserves⟩, -⟩ := open_of_tornLabels (Packer.stored plainCtx) smallPool _ _ _ _ (Nat.lt_of_le_of_lt hbody hsize) hlabels
    (List.mem_cons_of_mem _ (List.mem_cons_of_mem _ List.mem_cons_self))
  exact ⟨fs, hopen, hserves.content 6 _ 1 5 hfile⟩

end ZfsForensic
