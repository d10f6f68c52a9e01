import ZfsForensic.Lemmas.PoolReads

/-!
# The size of what is written

A block takes no more sectors than a pointer can say, so the size of what is written is bounded by the number of its blocks.
-/

namespace ZfsForensic

open Octets

section Size

variable {Γ : Ctx} (P : Packer Γ)

/-- Blocks laid end to end. -/
theorem sectorsOf_flatMap_le {lay : Bytes → Bytes} {blocks : List Bytes} {c : Nat}
    (h : ∀ b ∈ blocks, Sectored (lay b) ∧ sectorsOf (lay b) ≤ c) : sectorsOf (blocks.flatMap lay) ≤ blocks.length * c := by
  induction blocks with
  | nil => exact sectored_nil.2.le.trans (Nat.zero_le _)
  | cons b bs ih =>
    have hbs : ∀ b' ∈ bs, Sectored (lay b') ∧ sectorsOf (lay b') ≤ c := fun b' hb' => h b' (List.mem_cons_of_mem b hb')
    obtain ⟨hb, hle⟩ := h b List.mem_cons_self
    have hrest := ih hbs
    rw [List.flatMap_cons, (hb.append (sectored_flatMap fun b' hb' => (hbs b' hb').1)).2, List.length_cons, Nat.succ_mul]
    omega

theorem Packer.sectorsOf_pack_le {data : Bytes} (h : Whole data) : sectorsOf (P.pack data) ≤ 2 ^ 16 := (P.whole data h).sectors.2.1.le

/-- Levels of indirect blocks have no more blocks each than there are pointers. -/
theorem Packer.sectorsOf_raise_le (objectType : UInt8) (n level sector : Nat) (ptrs : List Blkptr) :
    sectorsOf (P.raise objectType n level sector ptrs).1 ≤ n * (ptrs.length * 2 ^ 16) := by
  induction n generalizing level sector ptrs with
  | zero => exact sectored_nil.2.le.trans (Nat.zero_le _)
  | succ n ih =>
    have hblocks : sectorsOf ((indirectBlocks ptrs).flatMap P.pack) ≤ (indirectBlocks ptrs).length * 2 ^ 16 := sectorsOf_flatMap_le fun b hb =>
      ⟨(P.whole b (whole_of_mem_indirectBlocks hb)).sectored, P.sectorsOf_pack_le (@whole_of_mem_indirectBlocks ptrs b hb)⟩
    have hfew : (indirectBlocks ptrs).length ≤ ptrs.length := by
      rw [indirectBlocks, List.length_map, Radix.length_groups]
      omega
    rw [raise]
    dsimp only
    have habove := ih (level + 1) (sector + sectorsOf ((indirectBlocks ptrs).flatMap P.pack))
      (P.indirectPtrs objectType (level + 1) sector (indirectBlocks ptrs))
    rw [indirectPtrs, length_ptrsFrom] at habove
    have hmul : n * ((indirectBlocks ptrs).length * 2 ^ 16) ≤ n * (ptrs.length * 2 ^ 16) :=
      Nat.mul_le_mul_left n (Nat.mul_le_mul_right _ hfew)
    rw [((P.sectored_indirectBlocks ptrs).append (P.sectored_raise _ _ _ _ _)).2, Nat.succ_mul, indirectPtrs]
    omega

theorem Packer.sectorsOf_writeObject_le (sector : Nat) (o : DmuObject) :
    sectorsOf (P.writeObject sector o) ≤ (o.height + 1) * o.records.length * 2 ^ 16 := by
  have hrecords : sectorsOf (P.recordsBytes o.records) ≤ o.records.length * 2 ^ 16 := by
    refine sectorsOf_flatMap_le fun r hr => ⟨P.sectored_recordBytes (o.whole hr), ?_⟩
    rw [recordBytes]
    split
    · exact sectored_nil.2.le.trans (Nat.zero_le _)
    · exact P.sectorsOf_pack_le (o.whole hr)
  have hlevels := P.sectorsOf_raise_le o.type o.height 0 (sector + sectorsOf (P.recordsBytes o.records)) (P.recordPtrs o.type sector o.records)
  rw [recordPtrs, length_ptrsFrom, ← recordPtrs] at hlevels
  rw [(P.sectored_writeObject sector o).2, levelsAt, Nat.succ_mul, Nat.add_mul, Nat.mul_assoc]
  omega

/-- The blocks of an object, and of the levels above it. -/
def DmuObject.FewBlocks (o : DmuObject) (k : Nat) : Prop := (o.height + 1) * o.records.length ≤ k

theorem Packer.sectorsOf_writeObjects_le (sector : Nat) {objects : List DmuObject} {k : Nat} (h : ∀ o ∈ objects, o.FewBlocks k) :
    sectorsOf (P.writeObjects sector objects) ≤ objects.length * k * 2 ^ 16 := by
  induction objects generalizing sector with
  | nil => exact sectored_nil.2.le.trans (Nat.zero_le _)
  | cons o os ih =>
    have hone := (P.sectorsOf_writeObject_le sector o).trans (Nat.mul_le_mul_right _ (h o List.mem_cons_self))
    have hrest := ih (sector + sectorsOf (P.writeObject sector o)) fun o' ho' => h o' (List.mem_cons_of_mem o ho')
    rw [writeObjects, ((P.sectored_writeObject sector o).1.append (P.sectored_writeObjects _ os)).2, List.length_cons, Nat.succ_mul, Nat.add_mul]
    omega

theorem Packer.sectorsOf_writeObjset_le (sector : Nat) {os : DmuObjset} {k : Nat} (h : ∀ o ∈ os.objects, o.FewBlocks k) :
    sectorsOf (P.writeObjset sector os) ≤ (os.objects.length * k + (os.height + 1) * (os.objects.length + 1) + 1) * 2 ^ 16 := by
  have hobjects := P.sectorsOf_writeObjects_le sector h
  have hblocks : (P.arrayObject sector os).records.length ≤ os.objects.length + 1 := by
    have hpos := os.perBlock_pos
    have hrecords : (P.arrayObject sector os).records = P.slotBlocksAt sector os := rfl
    rw [hrecords, slotBlocksAt, List.length_map, Radix.length_groups, length_slotsAt]
    refine Nat.div_le_of_le_mul ?_
    have hmul := Nat.le_mul_of_pos_left (os.objects.length + 1) hpos
    rw [Nat.mul_add, Nat.mul_one] at hmul ⊢
    have hn := Nat.le_mul_of_pos_left os.objects.length hpos
    omega
  have harray := (P.sectorsOf_writeObject_le (P.arraySector sector os) (P.arrayObject sector os)).trans
    (Nat.mul_le_mul_right (2 ^ 16) (Nat.mul_le_mul_left ((P.arrayObject sector os).height + 1) hblocks))
  have hheight : (P.arrayObject sector os).height = os.height := rfl
  have hblock := P.sectorsOf_pack_le (P.whole_objsetBlock sector os)
  rw [hheight] at harray
  rw [(P.sectored_writeObjset sector os).2, writeArray, Nat.add_mul, Nat.add_mul]
  omega

theorem Packer.sectorsOf_writeVolumes_le (sector : Nat) {vs : List Volume} {c : Nat} (h : ∀ v ∈ vs, ∀ s, sectorsOf (P.writeObjset s v.objset) ≤ c) :
    sectorsOf (P.writeVolumes sector vs) ≤ vs.length * c := by
  induction vs generalizing sector with
  | nil => exact sectored_nil.2.le.trans (Nat.zero_le _)
  | cons v vs ih =>
    have hone := h v List.mem_cons_self sector
    have hrest := ih (sector + sectorsOf (P.writeObjset sector v.objset)) fun v' hv' => h v' (List.mem_cons_of_mem v hv')
    rw [writeVolumes, ((P.sectored_writeObjset sector v.objset).1.append (P.sectored_writeVolumes _ vs)).2, List.length_cons, Nat.succ_mul]
    omega

/-- The objects of a MOS are of one record each. -/
theorem fewBlocks_dslDatasets (id : Nat) (bps : List Blkptr) : ∀ o ∈ dslDatasets id bps, o.FewBlocks 1 := by
  induction bps generalizing id with
  | nil => exact fun o ho => absurd ho List.not_mem_nil
  | cons bp bps ih =>
    intro o ho
    rcases List.mem_cons.1 ho with rfl | ho
    · exact Nat.le_refl 1
    · exact ih (id + 1) o ho

theorem Packer.fewBlocks_mos (pool : Pool) : ∀ o ∈ (P.mos pool).objects, o.FewBlocks 1 := by
  intro o ho
  have hlist : (P.mos pool).objects = objectDirectory :: dslDirectory :: dslDatasets 3 (P.volumePtrs 0 pool.datasets) := rfl
  rw [hlist, List.mem_cons, List.mem_cons] at ho
  rcases ho with rfl | rfl | ho
  · exact Nat.le_refl 1
  · exact Nat.le_refl 1
  · exact fewBlocks_dslDatasets 3 _ o ho

end Size

/-! ## Volumes -/

section Volumes

variable {k : Nat}

/-- The records of a file are the groups of its bytes. -/
theorem VolObject.records_file (tables : SaTables) (attrs : ZplAttrs) (f : VolFile) (known : attrs.unknownAttrIds = [])
    (size : attrs.size.toNat = f.data.length) :
    ((VolObject.file attrs f known size).dmu tables).records = Radix.groups (512 * f.sectors.toNat) f.padded := rfl

/-- A file has the blocks its records and its height say. -/
theorem VolObject.fewBlocks_file (tables : SaTables) (attrs : ZplAttrs) (f : VolFile) (known : attrs.unknownAttrIds = [])
    (size : attrs.size.toNat = f.data.length) (h : (f.height + 1) * fileRecords f.data.length (512 * f.sectors.toNat) ≤ k) :
    ((VolObject.file attrs f known size).dmu tables).FewBlocks k := by
  have hheight : ((VolObject.file attrs f known size).dmu tables).height = f.height := rfl
  rw [DmuObject.FewBlocks, VolObject.records_file, hheight, f.length_groups_padded]
  exact h

/-- The writer's own objects are of one record each. -/
theorem Volume.fewBlocks {v : Volume} (hk : 1 ≤ k) (h : ∀ o ∈ v.objects, (o.dmu v.tables).FewBlocks k) : ∀ o ∈ v.objset.objects, o.FewBlocks k := by
  intro o ho
  rw [Volume.objset, List.mem_cons, List.mem_cons, List.mem_cons, List.mem_cons, List.mem_map] at ho
  rcases ho with rfl | rfl | rfl | rfl | ⟨o, ho, rfl⟩
  · exact hk
  · exact hk
  · exact hk
  · exact hk
  · exact h o ho

end Volumes

end ZfsForensic
