import ZfsForensic.Audit

/-!
# What each check of an audit reports

An audit is three checks in a row, and no two of them report an anomaly of the same kind. So what an audit says of one kind is what
the check of that kind says.
-/

namespace ZfsForensic

open Octets

/-- The three checks of an audit. -/
inductive AuditCheck where
  | rootbp
  | labels
  | sweep

/-- The check that reports an anomaly of a kind. -/
def AnomalyKind.check : AnomalyKind → AuditCheck
  | .uberblockChecksumMismatch .. => .rootbp
  | .labelDivergence .. => .labels
  | .blkptrChecksumMismatch .. => .sweep
  | .impossibleGeometry .. => .rootbp

theorem check_of_mem_checkUberblockRootbp {Γ : Ctx} {image : Bytes} {l0 : VdevLabel} {a : Anomaly}
    (h : a ∈ checkUberblockRootbp Γ image l0) : a.kind.check = .rootbp := by
  unfold checkUberblockRootbp at h
  split at h
  · rw [List.mem_singleton.1 h]
    rfl
  · rw [List.mem_singleton.1 h]
    rfl
  all_goals exact absurd h List.not_mem_nil

theorem check_of_mem_labelDivergence {image : Bytes} {baseGuid baseAshift : UInt64} {idx off : Nat} {a : Anomaly}
    (h : a ∈ labelDivergence image baseGuid baseAshift idx off) : a.kind.check = .labels := by
  unfold labelDivergence at h
  split at h
  · rw [List.mem_singleton.1 h]
    rfl
  · rcases List.mem_append.1 h with h | h
    all_goals
      split at h
      · rw [List.mem_singleton.1 h]
        rfl
      · exact absurd h List.not_mem_nil

theorem check_of_mem_checkLabelDivergence {image : Bytes} {l0 : VdevLabel} {a : Anomaly} (h : a ∈ checkLabelDivergence image l0) :
    a.kind.check = .labels := by
  unfold checkLabelDivergence at h
  split at h
  · exact absurd h List.not_mem_nil
  · dsimp only at h
    split at h
    · exact absurd h List.not_mem_nil
    · split at h
      · exact absurd h List.not_mem_nil
      · rcases List.mem_append.1 h with h | h
        · rcases List.mem_append.1 h with h | h
          · exact check_of_mem_labelDivergence h
          · exact check_of_mem_labelDivergence h
        · exact check_of_mem_labelDivergence h

theorem check_of_mem_sweepReachableBlkptrs {Γ : Ctx} {image : Bytes} {l0 : VdevLabel} {a : Anomaly}
    (h : a ∈ sweepReachableBlkptrs Γ image l0) : a.kind.check = .sweep := by
  unfold sweepReachableBlkptrs at h
  split at h
  · exact absurd h List.not_mem_nil
  · split at h
    · exact absurd h List.not_mem_nil
    · obtain ⟨bp, -, hbp⟩ := List.mem_flatMap.1 h
      unfold sweepBlkptr at hbp
      split at hbp
      · exact absurd hbp List.not_mem_nil
      · split at hbp
        · rw [List.mem_singleton.1 hbp]
          rfl
        · exact absurd hbp List.not_mem_nil

section Audit

variable {Γ : Ctx} {image l0Bytes : Bytes} {l0 : VdevLabel} (hbytes : slice? image 0 labelSize = some l0Bytes)
  (hlabel : VdevLabel.parse l0Bytes = .ok l0)
include hbytes hlabel

/-- A swept block is reported by the sweep. -/
theorem mem_auditImage_iff_sweep {a : Anomaly} (ha : a.kind.check = .sweep) :
    a ∈ auditImage Γ image ↔ a ∈ sweepReachableBlkptrs Γ image l0 := by
  have hroot : a ∉ checkUberblockRootbp Γ image l0 := fun h => by
    have hcheck := ha.symm.trans (check_of_mem_checkUberblockRootbp h)
    contradiction
  have hlabels : a ∉ checkLabelDivergence image l0 := fun h => by
    have hcheck := ha.symm.trans (check_of_mem_checkLabelDivergence h)
    contradiction
  simp only [auditImage, hbytes, hlabel, List.mem_append, hroot, hlabels, false_or]

/-- A divergence of the labels is reported by their comparison. -/
theorem mem_auditImage_iff_labels {a : Anomaly} (ha : a.kind.check = .labels) :
    a ∈ auditImage Γ image ↔ a ∈ checkLabelDivergence image l0 := by
  have hroot : a ∉ checkUberblockRootbp Γ image l0 := fun h => by
    have hcheck := ha.symm.trans (check_of_mem_checkUberblockRootbp h)
    contradiction
  have hsweep : a ∉ sweepReachableBlkptrs Γ image l0 := fun h => by
    have hcheck := ha.symm.trans (check_of_mem_sweepReachableBlkptrs h)
    contradiction
  simp only [auditImage, hbytes, hlabel, List.mem_append, hroot, hsweep, false_or, or_false]

end Audit

end ZfsForensic
