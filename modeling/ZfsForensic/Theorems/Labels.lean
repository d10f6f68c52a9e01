import ZfsForensic.Lemmas.Image
import ZfsForensic.Lemmas.Reports
import ZfsForensic.Theorems.NvlistRoundTrip

/-!
# What the comparison of the labels reports

The labels are compared only in a whole vdev: its last label must parse. Behind that gate every torn label and every differing
`pool_guid` and `ashift` is reported, for its own label, and nothing else is. A vdev whose last label is the torn one is taken for
a slice or a truncated image, and no label of it is reported.
-/

namespace ZfsForensic

open Octets Checked

/-- Whether an audit reports a field of a label. -/
def Reported (Γ : Ctx) (image : Bytes) (field : String) (label : Nat) : Prop :=
  ∃ reason, Anomaly.new (.labelDivergence field label reason) ∈ auditImage Γ image

/-- The labels compared with the front one, with their offsets in an image of a length. -/
def comparedLabels (imageLen : Nat) : List (Nat × Nat) :=
  [(1, labelSize), (2, imageLen - 2 * labelSize), (3, imageLen - labelSize)]

theorem mem_comparedLabels (imageLen : Nat) :
    (1, labelSize) ∈ comparedLabels imageLen ∧ (2, imageLen - 2 * labelSize) ∈ comparedLabels imageLen := by
  simp [comparedLabels]

/-- Whether the label at an offset differs in a field from a `pool_guid` and an `ashift`; `config` stands for one that cannot be
read. -/
def Diverges (image : Bytes) (baseGuid baseAshift : UInt64) (field : String) (off : Nat) : Prop :=
  match labelIdentity image off with
  | none => field = "config"
  | some (guid, _, ashift) => (field = "pool_guid" ∧ guid ≠ baseGuid) ∨ (field = "ashift" ∧ ashift ≠ baseAshift)

/-! ## One label -/

theorem mem_ite_singleton {c : Prop} [Decidable c] {a b : Anomaly} : a ∈ (if c then [b] else []) ↔ c ∧ a = b := by
  split <;> simp_all

theorem Anomaly.new_labelDivergence_inj {f g r s : String} {i j : Nat} :
    Anomaly.new (.labelDivergence f i r) = Anomaly.new (.labelDivergence g j s) ↔ f = g ∧ i = j ∧ r = s := by
  constructor
  · intro h
    have hkind := congrArg Anomaly.kind h
    simpa only [Anomaly.new, AnomalyKind.labelDivergence.injEq] using hkind
  · rintro ⟨rfl, rfl, rfl⟩
    rfl

/-- One label is reported for what it differs in. -/
theorem exists_mem_labelDivergence_iff (image : Bytes) (baseGuid baseAshift : UInt64) (idx off : Nat) (field : String)
    (label : Nat) :
    (∃ reason, Anomaly.new (.labelDivergence field label reason) ∈ labelDivergence image baseGuid baseAshift idx off) ↔
      label = idx ∧ Diverges image baseGuid baseAshift field off := by
  unfold labelDivergence Diverges
  cases labelIdentity image off with
  | none =>
    simp only [List.mem_singleton, Anomaly.new_labelDivergence_inj]
    constructor
    · rintro ⟨reason, hfield, hlabel, -⟩
      exact ⟨hlabel, hfield⟩
    · rintro ⟨hlabel, hfield⟩
      exact ⟨_, hfield, hlabel, rfl⟩
  | some identity =>
    obtain ⟨guid, txg, ashift⟩ := identity
    simp only [List.mem_append, mem_ite_singleton, Anomaly.new_labelDivergence_inj]
    constructor
    · rintro ⟨reason, ⟨hne, hfield, hlabel, -⟩ | ⟨hne, hfield, hlabel, -⟩⟩
      · exact ⟨hlabel, Or.inl ⟨hfield, hne⟩⟩
      · exact ⟨hlabel, Or.inr ⟨hfield, hne⟩⟩
    · rintro ⟨hlabel, ⟨hfield, hne⟩ | ⟨hfield, hne⟩⟩
      · exact ⟨_, Or.inl ⟨hne, hfield, hlabel, rfl⟩⟩
      · exact ⟨_, Or.inr ⟨hne, hfield, hlabel, rfl⟩⟩

/-! ## The audit -/

/-- What a front label with an identity parses to. -/
theorem exists_parse_of_labelIdentity {image : Bytes} {guid txg ashift : UInt64}
    (h : labelIdentity image 0 = some (guid, txg, ashift)) :
    ∃ l0Bytes l0, slice? image 0 labelSize = some l0Bytes ∧ VdevLabel.parse l0Bytes = .ok l0 ∧
      NvList.getU64 l0.config (ascii "pool_guid") = some guid ∧
      ((NvList.vdevTree l0.config).map VdevTree.ashift).getD 0 = ashift := by
  have hstop : satAdd 0 labelSize = labelSize := rfl
  unfold labelIdentity at h
  rw [hstop] at h
  split at h
  · exact absurd h (by simp)
  · rename_i l0Bytes hbytes
    split at h
    · exact absurd h (by simp)
    · split at h
      · exact absurd h (by simp)
      · rename_i l0 hlabel
        split at h
        · exact absurd h (by simp)
        · rename_i g hguid
          simp only [Option.some.injEq, Prod.mk.injEq] at h
          obtain ⟨rfl, -, rfl⟩ := h
          exact ⟨l0Bytes, l0, hbytes, hlabel, hguid, rfl⟩

/-- A field of a label is reported exactly when the last label can be read and the label differs in the field. -/
theorem reported_iff {image : Bytes} {baseGuid baseTxg baseAshift : UInt64} (Γ : Ctx) (hlen : 4 * labelSize ≤ image.length)
    (h0 : labelIdentity image 0 = some (baseGuid, baseTxg, baseAshift)) (field : String) (label : Nat) :
    Reported Γ image field label ↔
      labelIdentity image (image.length - labelSize) ≠ none ∧
        ∃ p ∈ comparedLabels image.length, label = p.1 ∧ Diverges image baseGuid baseAshift field p.2 := by
  obtain ⟨l0Bytes, l0, hbytes, hlabel, hguid, hashift⟩ := exists_parse_of_labelIdentity h0
  have haudit : ∀ reason, Anomaly.new (.labelDivergence field label reason) ∈ auditImage Γ image ↔
      Anomaly.new (.labelDivergence field label reason) ∈ checkLabelDivergence image l0 :=
    fun _ => mem_auditImage_iff_labels hbytes hlabel rfl
  simp only [Reported, haudit, checkLabelDivergence, hguid, hashift]
  rw [if_neg (by omega)]
  by_cases h3 : labelIdentity image (image.length - labelSize) = none
  · simp [h3]
  · rw [if_neg (by simpa [Option.isNone_iff_eq_none] using h3)]
    simp only [List.mem_append, exists_or, exists_mem_labelDivergence_iff, comparedLabels, List.mem_cons, List.not_mem_nil,
      or_false, exists_eq_or_imp, exists_eq_left, or_assoc, ne_eq, h3, not_false_eq_true, true_and]

/-- Behind the gate, a compared label is reported for exactly what it differs in: each is one label of its number. -/
theorem reported_compared_iff {image : Bytes} {baseGuid baseTxg baseAshift : UInt64} (Γ : Ctx)
    (hlen : 4 * labelSize ≤ image.length) (h0 : labelIdentity image 0 = some (baseGuid, baseTxg, baseAshift))
    (h3 : labelIdentity image (image.length - labelSize) ≠ none) {label off : Nat}
    (hmem : (label, off) ∈ comparedLabels image.length) (field : String) :
    Reported Γ image field label ↔ Diverges image baseGuid baseAshift field off := by
  rw [reported_iff Γ hlen h0]
  constructor
  · rintro ⟨-, q, hq, heq, hdiv⟩
    have hsame : (label, off) = q := by
      simp only [comparedLabels, List.mem_cons, List.not_mem_nil, or_false] at hmem hq
      rcases hmem with hp | hp | hp <;> rcases hq with rfl | rfl | rfl <;> simp_all
    rwa [← hsame] at hdiv
  · intro hdiv
    exact ⟨h3, (label, off), hmem, rfl, hdiv⟩

/-- With the last label readable, every torn label and every differing `pool_guid` and `ashift` is reported for its label, no
equal one is, and the front label never; with the last label torn, no label is reported. -/
theorem torn_labels_reported (Γ : Ctx) (image : Bytes) (baseGuid baseTxg baseAshift : UInt64)
    (hlen : 4 * labelSize ≤ image.length) (h0 : labelIdentity image 0 = some (baseGuid, baseTxg, baseAshift)) :
    (labelIdentity image (image.length - labelSize) ≠ none →
      (∀ field, ¬ Reported Γ image field 0) ∧
      ∀ label off, (label, off) ∈ comparedLabels image.length →
        (Reported Γ image "config" label ↔ labelIdentity image off = none) ∧
        ∀ guid txg ashift, labelIdentity image off = some (guid, txg, ashift) →
          (Reported Γ image "pool_guid" label ↔ guid ≠ baseGuid) ∧ (Reported Γ image "ashift" label ↔ ashift ≠ baseAshift)) ∧
    (labelIdentity image (image.length - labelSize) = none → ∀ field label, ¬ Reported Γ image field label) := by
  constructor
  · intro h3
    constructor
    · intro field hreported
      obtain ⟨-, p, hp, hlabel, -⟩ := (reported_iff Γ hlen h0 field 0).1 hreported
      simp only [comparedLabels, List.mem_cons, List.not_mem_nil, or_false] at hp
      rcases hp with rfl | rfl | rfl <;> simp at hlabel
    · intro label off hmem
      have hiff := reported_compared_iff Γ hlen h0 h3 hmem
      constructor
      · rw [hiff, Diverges]
        cases labelIdentity image off with
        | none => simp
        | some identity => simp
      · intro guid txg ashift hidentity
        rw [hiff, hiff, Diverges, Diverges, hidentity]
        simp
  · intro h3 field label hreported
    exact ((reported_iff Γ hlen h0 field label).1 hreported).1 h3

/-! ## The identity of a label -/

/-- The identity of a label that parses is that of its configuration. -/
theorem labelIdentity_of_parse {image bytes : Bytes} {off : Nat} {label : VdevLabel} (hoff : off < 2 ^ 63)
    (h : slice? image off (off + labelSize) = some bytes) (hparse : VdevLabel.parse bytes = .ok label) :
    labelIdentity image off =
      (NvList.getU64 label.config (ascii "pool_guid")).map (fun guid =>
        (guid, (NvList.getU64 label.config (ascii "txg")).getD 0,
          ((NvList.vdevTree label.config).map VdevTree.ashift).getD 0)) := by
  have hsize : labelSize = 262144 := rfl
  have hstop : satAdd off labelSize = off + labelSize := satAdd_eq (by omega)
  have hlen := slice?_length h
  have hnv := @slice?_of_le bytes _ _ (Nat.le_add_right nvlistOffset nvlistSize)
    (by rw [hlen, hsize, nvlistOffset, nvlistSize]; omega)
  simp only [labelIdentity, hstop, h, hnv, hparse]
  cases NvList.getU64 label.config (ascii "pool_guid") with
  | none => rfl
  | some guid => rfl

/-- A label whose configuration does not parse has no identity. -/
theorem labelIdentity_of_parse_error {image bytes : Bytes} {off : Nat} {e : ZfsError} (hoff : off < 2 ^ 63)
    (h : slice? image off (off + labelSize) = some bytes) (hparse : VdevLabel.parse bytes = .error e) :
    labelIdentity image off = none := by
  have hsize : labelSize = 262144 := rfl
  have hstop : satAdd off labelSize = off + labelSize := satAdd_eq (by omega)
  have hlen := slice?_length h
  have hnv := @slice?_of_le bytes _ _ (Nat.le_add_right nvlistOffset nvlistSize)
    (by rw [hlen, hsize, nvlistOffset, nvlistSize]; omega)
  simp only [labelIdentity, hstop, h, hnv, hparse]

/-- Four labels in a row. -/
theorem part_four {a b c d : Bytes} (ha : a.length = labelSize) (hb : b.length = labelSize) (hc : c.length = labelSize) :
    Part (a ++ b ++ c ++ d) 0 a ∧ Part (a ++ b ++ c ++ d) labelSize b ∧ Part (a ++ b ++ c ++ d) (2 * labelSize) c ∧
      Part (a ++ b ++ c ++ d) (3 * labelSize) d := by
  have hall : Part (a ++ b ++ c ++ d) 0 (a ++ b ++ c ++ d) := slice?_self (Nat.zero_add _).symm
  have hpartb := hall.left.left.right
  have hpartc := hall.left.right
  have hpartd := hall.right
  simp only [List.length_append, ha, hb, hc, Nat.zero_add] at hpartb hpartc hpartd
  have h2 : labelSize + labelSize = 2 * labelSize := by omega
  have h3 : 2 * labelSize + labelSize = 3 * labelSize := by omega
  rw [h2] at hpartc
  rw [h2, h3] at hpartd
  exact ⟨hall.left.left.left, hpartb, hpartc, hpartd⟩

/-! ## A torn label

Three labels of each image are one good label of a pool; the fourth is zeros. In the first image it is the third label, which is
reported; in the second it is the last, which is not.
-/

/-- The configuration of the good label: its `pool_guid`. -/
def guidList : XdrList := .leaf (ascii "pool_guid") 32 (.u64 7) .nil

/-- The configuration region of the good label. -/
def guidConfig : Bytes := guidList.pack 1 0 0 0 1 ++ zeros 114628

/-- The good label. -/
def guidLabel : Bytes := zeros 16384 ++ guidConfig ++ ringOf 7 (Vector.replicate 128 0)

/-- The image with its third label torn. -/
def tornThirdImage : Bytes := guidLabel ++ guidLabel ++ zeros labelSize ++ guidLabel

/-- The image with its last label torn. -/
def tornLastImage : Bytes := guidLabel ++ guidLabel ++ guidLabel ++ zeros labelSize

theorem length_guidConfig : guidConfig.length = 114688 := by
  have hpack : (guidList.pack 1 0 0 0 1).length = 60 := rfl
  rw [guidConfig, List.length_append, length_zeros, hpack]

theorem length_guidLabel : guidLabel.length = labelSize := by
  rw [guidLabel, List.length_append, List.length_append, length_zeros, length_guidConfig, length_ringOf, labelSize]

theorem length_tornThirdImage : tornThirdImage.length = 4 * labelSize := by
  rw [tornThirdImage, List.length_append, List.length_append, List.length_append, length_guidLabel, length_zeros, labelSize]

theorem length_tornLastImage : tornLastImage.length = 4 * labelSize := by
  rw [tornLastImage, List.length_append, List.length_append, List.length_append, length_guidLabel, length_zeros, labelSize]

theorem nvlistParse_guidConfig : nvlistParse guidConfig = .ok [(ascii "pool_guid", .u64 7)] := by
  have hutf : IsUtf8 (ascii "pool_guid") := (fromUtf8Lossy_eq_self_iff _).1 (by decide)
  have hstored : guidList.Stored := ⟨by decide, fun _ => hutf, trivial, by decide, trivial⟩
  have hpart : Part guidConfig 4 (xdrWord (0 : UInt32).toNat ++ xdrWord (1 : UInt32).toNat ++ guidList.encode) :=
    part_middle [nvEncodeXdr, 1, 0, 0] _ (zeros 114628)
  have hencoding : u8At guidConfig 0 = nvEncodeXdr := by
    rw [u8At, guidConfig, List.getElem?_append_left (by decide)]
    rfl
  exact nvlistParse_of_part hencoding hstored (by decide) (by decide) hpart

/-- The good label parses. -/
theorem parse_guidLabel :
    VdevLabel.parse guidLabel =
      .ok ⟨[(ascii "pool_guid", .u64 7)], uberblockOf 7 (Vector.replicate 128 0), 0⟩ := by
  have hnv : slice? guidLabel nvlistOffset (nvlistOffset + nvlistSize) = some guidConfig :=
    slice?_middle (length_zeros _) (by rw [length_guidConfig, nvlistSize])
  have hring : slice? guidLabel uberblockRingOffset (uberblockRingOffset + uberblockRingSize) =
      some (ringOf 7 (Vector.replicate 128 0)) :=
    slice?_suffix (by rw [List.length_append, length_zeros, length_guidConfig, uberblockRingOffset])
      (by rw [length_ringOf, uberblockRingSize])
  have hshift : slotShift [(ascii "pool_guid", .u64 7)] = 10 := by decide
  refine VdevLabel.parse_eq_ok length_guidLabel.ge hnv nvlistParse_guidConfig hring ?_
  rw [hshift]
  exact activeUberblock_ringOf 7 (Vector.replicate 128 0)

/-- Where the good label lies, its identity is read. -/
theorem labelIdentity_of_guidLabel {image : Bytes} {off : Nat} (hoff : off < 2 ^ 63) (h : Part image off guidLabel) :
    labelIdentity image off = some (7, 0, 0) := by
  rw [labelIdentity_of_parse hoff (h.slice? (by rw [length_guidLabel])) parse_guidLabel]
  decide

/-- A label of zeros has no identity. -/
theorem labelIdentity_of_zeros {image : Bytes} {off : Nat} (hoff : off < 2 ^ 63) (h : Part image off (zeros labelSize)) :
    labelIdentity image off = none := by
  have hnv : slice? (zeros labelSize) nvlistOffset (nvlistOffset + nvlistSize) = some (zeros nvlistSize) := by
    rw [slice?_zeros (Nat.le_add_right _ _) (by rw [labelSize, nvlistOffset, nvlistSize]; omega),
      Nat.add_sub_cancel_left]
  have hencoding : u8At (zeros nvlistSize) 0 = 0 := by
    rw [u8At, List.getElem?_replicate_of_lt (by rw [nvlistSize]; omega), Option.getD_some]
  have hconfig : nvlistParse (zeros nvlistSize) = .error (.badNvlistEncoding 0 0) := by
    rw [nvlistParse, hencoding, if_pos (by decide)]
  have hparse : VdevLabel.parse (zeros labelSize) = .error (.badNvlistEncoding 0 0) := by
    simp only [VdevLabel.parse, length_zeros, lt_irrefl, if_false, hnv, hconfig]
  exact labelIdentity_of_parse_error hoff (h.slice? (by rw [length_zeros])) hparse

theorem labelIdentity_tornThirdImage :
    labelIdentity tornThirdImage 0 = some (7, 0, 0) ∧ labelIdentity tornThirdImage labelSize = some (7, 0, 0) ∧
      labelIdentity tornThirdImage (tornThirdImage.length - 2 * labelSize) = none ∧
      labelIdentity tornThirdImage (tornThirdImage.length - labelSize) = some (7, 0, 0) := by
  have hsize : labelSize = 262144 := rfl
  obtain ⟨hpart0, hpart1, hpart2, hpart3⟩ : Part tornThirdImage 0 guidLabel ∧ Part tornThirdImage labelSize guidLabel ∧
      Part tornThirdImage (2 * labelSize) (zeros labelSize) ∧ Part tornThirdImage (3 * labelSize) guidLabel :=
    part_four length_guidLabel length_guidLabel (length_zeros _)
  have hoff2 : 4 * labelSize - 2 * labelSize = 2 * labelSize := by omega
  have hoff3 : 4 * labelSize - labelSize = 3 * labelSize := by omega
  rw [length_tornThirdImage, hoff2, hoff3]
  exact ⟨labelIdentity_of_guidLabel (by omega) hpart0, labelIdentity_of_guidLabel (by omega) hpart1,
    labelIdentity_of_zeros (by omega) hpart2, labelIdentity_of_guidLabel (by omega) hpart3⟩

theorem labelIdentity_tornLastImage :
    labelIdentity tornLastImage 0 = some (7, 0, 0) ∧ labelIdentity tornLastImage labelSize = some (7, 0, 0) ∧
      labelIdentity tornLastImage (tornLastImage.length - 2 * labelSize) = some (7, 0, 0) ∧
      labelIdentity tornLastImage (tornLastImage.length - labelSize) = none := by
  have hsize : labelSize = 262144 := rfl
  obtain ⟨hpart0, hpart1, hpart2, hpart3⟩ : Part tornLastImage 0 guidLabel ∧ Part tornLastImage labelSize guidLabel ∧
      Part tornLastImage (2 * labelSize) guidLabel ∧ Part tornLastImage (3 * labelSize) (zeros labelSize) :=
    part_four length_guidLabel length_guidLabel length_guidLabel
  have hoff2 : 4 * labelSize - 2 * labelSize = 2 * labelSize := by omega
  have hoff3 : 4 * labelSize - labelSize = 3 * labelSize := by omega
  rw [length_tornLastImage, hoff2, hoff3]
  exact ⟨labelIdentity_of_guidLabel (by omega) hpart0, labelIdentity_of_guidLabel (by omega) hpart1,
    labelIdentity_of_guidLabel (by omega) hpart2, labelIdentity_of_zeros (by omega) hpart3⟩

/-- The torn third label is reported, and the second label, which equals the first, is not. -/
theorem audit_reports_torn_third :
    Reported plainCtx tornThirdImage "config" 2 ∧ ¬ Reported plainCtx tornThirdImage "pool_guid" 1 := by
  obtain ⟨h0, h1, h2, h3⟩ := labelIdentity_tornThirdImage
  have hmain := torn_labels_reported plainCtx tornThirdImage 7 0 0 length_tornThirdImage.ge h0
  have hgate : labelIdentity tornThirdImage (tornThirdImage.length - labelSize) ≠ none := by
    rw [h3]
    exact Option.some_ne_none _
  obtain ⟨hsecond, hthird⟩ := mem_comparedLabels tornThirdImage.length
  obtain ⟨hconfig, -⟩ := (hmain.1 hgate).2 _ _ hthird
  obtain ⟨-, hfields⟩ := (hmain.1 hgate).2 _ _ hsecond
  obtain ⟨hguid, -⟩ := hfields 7 0 0 h1
  rw [hconfig, hguid]
  exact ⟨h2, fun hne => hne rfl⟩

/-- Of four labels the last alone has no identity, and no label is reported. -/
theorem audit_misses_torn_last :
    4 * labelSize ≤ tornLastImage.length ∧ labelIdentity tornLastImage 0 = some (7, 0, 0) ∧
      labelIdentity tornLastImage labelSize = some (7, 0, 0) ∧
      labelIdentity tornLastImage (tornLastImage.length - 2 * labelSize) = some (7, 0, 0) ∧
      labelIdentity tornLastImage (tornLastImage.length - labelSize) = none ∧
      ∀ field label, ¬ Reported plainCtx tornLastImage field label := by
  obtain ⟨h0, h1, h2, h3⟩ := labelIdentity_tornLastImage
  refine ⟨length_tornLastImage.ge, h0, h1, h2, h3, fun field label hreported => ?_⟩
  exact ((reported_iff plainCtx length_tornLastImage.ge h0 field label).1 hreported).1 h3

end ZfsForensic
