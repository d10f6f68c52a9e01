import ZfsForensic.Lemmas.Leaves
import ZfsForensic.Lemmas.Mzap

/-!
# The two listings of a ZAP agree

A ZAP is listed with a word for each value, or with the bytes of each. The two walks over the leaves of a fat-ZAP are written out
separately, and accept the same leaves, entries and chains of every object, well-formed or not.
-/

namespace ZfsForensic

open Octets Checked

/-- The eight bytes of a word read as that word. -/
theorem leU64_toLeBytes (v : UInt64) : leU64 (toLeBytes v) 0 = v := by
  have hread := readUint_encode .little 8 v.toNat []
  rw [List.append_nil] at hread
  have hlt : v.toNat % 256 ^ 8 = v.toNat := Nat.mod_eq_of_lt v.toNat_lt
  rw [leU64, toLeBytes, hread, hlt, UInt64.ofNat_toNat]

/-- Making something of each value leaves the names. -/
theorem map_fst_map {α β γ : Type} (value : β → γ) (entries : List (α × β)) :
    (entries.map fun e => (e.1, value e.2)).map Prod.fst = entries.map Prod.fst := by
  rw [List.map_map]
  rfl

theorem map_toLeBytes (entries : List (Bytes × UInt64)) :
    (entries.map fun e => (e.1, toLeBytes e.2)).map (fun e => (e.1, leU64 e.2 0)) = entries := by
  induction entries with
  | nil => rfl
  | cons e entries ih => simp only [List.map_cons, leU64_toLeBytes, ih]

/-- The two listings of a ZAP object agree: a fat-ZAP's words are the values folded, a micro-ZAP's are the values read little-endian,
and no other object lists anything. The names are the same, in the same order, each as often. -/
theorem zap_listings_agree (block : Bytes) :
    (leU64 block 0 = zbtHeader → zapList block = (zapListArrays block).map fun e => (e.1, foldValue e.2)) ∧
      (leU64 block 0 = zbtMicro → zapList block = (zapListArrays block).map fun e => (e.1, leU64 e.2 0)) ∧
      (leU64 block 0 ≠ zbtHeader → leU64 block 0 ≠ zbtMicro → zapList block = [] ∧ zapListArrays block = []) ∧
      (zapList block).map Prod.fst = (zapListArrays block).map Prod.fst := by
  have hne : zbtHeader ≠ zbtMicro := by decide
  have hfat : leU64 block 0 = zbtHeader → zapList block = (zapListArrays block).map fun e => (e.1, foldValue e.2) := by
    intro h
    rw [zapList, zapListArrays, h, if_neg hne, if_neg hne, if_pos rfl, if_pos rfl, fatList_eq_leavesOf,
      fatListArrays_eq_leavesOf]
    exact leavesOf_map foldValue block
  have hmicro : leU64 block 0 = zbtMicro → zapList block = (zapListArrays block).map fun e => (e.1, leU64 e.2 0) := by
    intro h
    rw [zapList, zapListArrays, h, if_pos rfl, if_pos rfl, map_toLeBytes]
  have hother : leU64 block 0 ≠ zbtHeader → leU64 block 0 ≠ zbtMicro → zapList block = [] ∧ zapListArrays block = [] := by
    intro hh hm
    exact ⟨zapList_of_ne hm hh, by rw [zapListArrays, if_neg hm, if_neg hh]⟩
  refine ⟨hfat, hmicro, hother, ?_⟩
  by_cases hh : leU64 block 0 = zbtHeader
  · rw [hfat hh, map_fst_map]
  · by_cases hm : leU64 block 0 = zbtMicro
    · rw [hmicro hm, map_fst_map fun v => leU64 v 0]
    · rw [(hother hh hm).1, (hother hh hm).2]
      rfl

end ZfsForensic
