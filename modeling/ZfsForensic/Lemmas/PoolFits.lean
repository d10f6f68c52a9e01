import ZfsForensic.Lemmas.PoolReads
import ZfsForensic.Theorems.Holes
import ZfsForensic.Theorems.NoPanic

/-!
# Pools that run through

Whatever object of a written pool is taken for a dataset, the object sets it leads to are those of the pool: a bonus that is too short for a
pointer, or is zeros there, leads to none. So every dnode a pool leads to has shifts that fit, and no check fails on the way.
-/

namespace ZfsForensic

open Octets Checked Checked.Run

/-- The object sets written for a pool. -/
inductive Packer.WrittenOs {Γ : Ctx} (P : Packer Γ) (pool : Pool) : DmuObjset → Prop
  | mos : WrittenOs P pool (P.mos pool)
  | volume {v : Volume} (hv : v ∈ pool.datasets) : WrittenOs P pool v.objset

/-- A bonus without a pointer: too short for one, or zeros there. -/
def NoPointer (bonus : Bytes) : Prop :=
  bonus.length < 256 ∨ slice? bonus dsBpOffset (dsBpOffset + 128) = some (zeros blkptrSize)

theorem noPointer_nil : NoPointer [] := Or.inl (by decide)

/-- Such a bonus leads to no object set. -/
theorem datasetZplObjset_of_noPointer {Γ : Ctx} {image : Bytes} {ds : Dnode} (h : NoPointer ds.bonus) (e : Endian) :
    datasetZplObjset (readBlock Γ image) ds e = none := by
  have hole : (dslDatasetBp ds).isHole = true ∧ (dslDatasetBp ds).lsizeBytes = 512 := by
    rcases h with hshort | hzeros
    · have hend : dsBpOffset + 128 = 256 := rfl
      rw [dslDatasetBp, slice?_eq_none_of_lt (by rw [hend]; exact hshort), Option.getD_none]
      cases ds.endian <;> decide
    · rw [dslDatasetBp, hzeros, Option.getD_some]
      exact parse_zeros_isHole ds.endian
  have hmax : maxBlockSize = 33554432 := rfl
  have hmin : objsetMinSize = 1024 := rfl
  rw [datasetZplObjset, readBlock_of_isHole Γ image hole.1 (by omega), hole.2]
  dsimp only
  rw [ObjsetPhys.parse, if_pos (by rw [length_zeros]; omega)]
  rfl

section Fits

variable {Γ : Ctx} (P : Packer Γ) {image : Bytes} {pool : Pool}

/-- Every dnode of a written object set has shifts that fit. -/
theorem Packer.ObjsetAt.fits_objset {sector : Nat} {os : DmuObjset} (h : P.ObjsetAt image sector os) :
    (P.objsetAt sector os).Fits (readBlock Γ image) := by
  refine ⟨P.shiftsFit_dnodeAt _ _, fun id d hd => ?_⟩
  rw [h.resolve_id P, value_pure] at hd
  split at hd
  · exact absurd hd (by simp)
  · obtain ⟨s, o, rfl⟩ := P.exists_of_mem_dnodesAt (List.mem_of_getElem? hd)
    exact P.shiftsFit_dnodeAt s o

/-- A dnode that resolves is that of an object. -/
theorem Packer.ObjsetAt.object_of_resolve {sector : Nat} {os : DmuObjset} (h : P.ObjsetAt image sector os) {id : UInt64} {d : Dnode}
    (hd : (mosDnode (readBlock Γ image) (P.objsetAt sector os) id).value = some d) :
    id.toNat ≠ 0 ∧ ∃ s o, os.objects[id.toNat - 1]? = some o ∧ d = P.dnodeAt s o := by
  rw [h.resolve_id P, value_pure] at hd
  split at hd
  · exact absurd hd (by simp)
  · rename_i hid
    have hlt := (List.getElem?_eq_some_iff.1 hd).1
    rw [length_dnodesAt] at hlt
    obtain ⟨s, hs, -⟩ := h.object P (List.getElem?_eq_getElem hlt)
    exact ⟨hid, s, _, List.getElem?_eq_getElem hlt, Option.some.inj (hd.symm.trans hs)⟩

/-- No object of a volume has a pointer in its bonus. -/
theorem Volume.noPointer (v : Volume) : ∀ o ∈ v.objset.objects, NoPointer o.bonus := by
  intro o ho
  simp only [objset, List.mem_cons, List.mem_map] at ho
  rcases ho with rfl | rfl | rfl | rfl | ⟨o, -, rfl⟩
  · exact noPointer_nil
  · exact noPointer_nil
  · exact noPointer_nil
  · exact noPointer_nil
  · rw [(o.bonus_dmu v.tables).2]
    exact Or.inl (by rw [SaOrder.length_encode]; decide)

/-- The DSL directory has zeros there. -/
theorem noPointer_dslDirectory : NoPointer dslDirectory.bonus := by
  refine Or.inr ?_
  have hsplit : dslDirectory.bonus = encodeWords .little 8 [0, 3] ++ zeros 112 ++ zeros blkptrSize := by
    have hzeros : zeros 240 = zeros 112 ++ zeros blkptrSize := by
      rw [zeros, zeros, zeros, List.replicate_append_replicate]
      rfl
    rw [List.append_assoc, ← hzeros]
    rfl
  rw [hsplit]
  exact slice?_suffix (by rw [List.length_append, length_encodeWords, length_zeros]; rfl) (by rw [length_zeros]; rfl)

/-- What a dnode of a written object set leads to is a volume of the pool. -/
theorem Packer.BodyAt.dataset_of_resolve (h : P.BodyAt image pool) {sector : Nat} {os : DmuObjset} (hos : P.WrittenOs pool os)
    (hat : P.ObjsetAt image sector os) {id : UInt64} {ds : Dnode} {zpl : ObjsetPhys}
    (hsector : os = P.mos pool → sector = P.mosSector pool)
    (hds : (mosDnode (readBlock Γ image) (P.objsetAt sector os) id).value = some ds)
    (hzpl : datasetZplObjset (readBlock Γ image) ds .little = some zpl) :
    ∃ s v, v ∈ pool.datasets ∧ zpl = P.objsetAt s v.objset ∧ P.ObjsetAt image s v.objset := by
  obtain ⟨hid, s, o, ho, hd⟩ := hat.object_of_resolve P hds
  have hpointer : ¬ NoPointer o.bonus := by
    intro hno
    have hbonus : ds.bonus = o.bonus := by rw [hd]; rfl
    rw [datasetZplObjset_of_noPointer (by rw [hbonus]; exact hno)] at hzpl
    exact absurd hzpl (by simp)
  cases hos with
  | volume hv => exact absurd (Volume.noPointer _ o (List.mem_of_getElem? ho)) hpointer
  | mos =>
    have hid1 : id.toNat ≠ 1 := by
      intro hone
      rw [hone, Packer.mos] at ho
      obtain rfl := Option.some.inj ho
      exact hpointer noPointer_nil
    have hid2 : id.toNat ≠ 2 := by
      intro htwo
      rw [htwo, Packer.mos] at ho
      obtain rfl := Option.some.inj ho
      exact hpointer noPointer_dslDirectory
    have hlen := (List.getElem?_eq_some_iff.1 ho).1
    rw [Packer.mos, List.length_cons, List.length_cons, length_dslDatasets, length_volumePtrs] at hlen
    obtain ⟨v, hv⟩ : ∃ v, pool.datasets[id.toNat - 3]? = some v := ⟨_, List.getElem?_eq_getElem (by omega)⟩
    obtain ⟨s', ds', hds', hzpl', hat', -⟩ := h.resolve P hv
    have hthree : 3 + (id.toNat - 3) = id.toNat := by omega
    rw [hthree, UInt64.ofNat_toNat] at hds'
    rw [hsector rfl, hds', value_pure] at hds
    rw [← Option.some.inj hds, hzpl'] at hzpl
    exact ⟨s', v, List.mem_of_getElem? hv, (Option.some.inj hzpl).symm, hat'⟩

/-- The object sets a pool leads to are those written for it. -/
theorem Packer.PoolAt.written_of_opened (h : P.PoolAt image pool) {os : ObjsetPhys} (hos : Opened Γ image os) :
    ∃ s w, P.WrittenOs pool w ∧ P.ObjsetAt image s w ∧ os = P.objsetAt s w ∧ (w = P.mos pool → s = P.mosSector pool) := by
  have hmos : ∃ s w, P.WrittenOs pool w ∧ P.ObjsetAt image s w ∧ P.objsetAt (P.mosSector pool) (P.mos pool) = P.objsetAt s w ∧
      (w = P.mos pool → s = P.mosSector pool) := ⟨_, _, .mos, h.body.mos, rfl, fun _ => rfl⟩
  induction hos with
  | front hopen =>
    rw [h.openMos P] at hopen
    obtain ⟨rfl, -⟩ := Prod.mk.inj (Option.some.inj hopen)
    exact hmos
  | newest hub hblock hparse =>
    obtain ⟨⟨-, hread⟩, hobjset⟩ := h.body.mos.read
    have hstored := h.body.label_stored P
    have hendian : (P.labelAt pool).current.parsed.endian = .little := rfl
    have hroot := (h.body.uberblock P).2.2.1
    rw [hstored.acrossLabels h.size h.labels, Option.some.injEq] at hub
    rw [← hub, hroot] at hblock
    rw [← hub, hendian] at hparse
    have hptr : P.rootPtr pool = P.objsetPtr (P.mosSector pool) (P.mos pool) := rfl
    rw [hptr, hread, Except.ok.injEq] at hblock
    rw [← hblock, hobjset, Except.ok.injEq] at hparse
    rw [← hparse]
    exact hmos
  | dataset hmos' hds hzpl ih =>
    obtain ⟨s, w, hw, hat, rfl, hsector⟩ := ih
    obtain ⟨s', v, hv, rfl, hat'⟩ := h.body.dataset_of_resolve P hw hat hsector hds hzpl
    refine ⟨s', v.objset, .volume hv, hat', rfl, fun heq => ?_⟩
    have htype : dmuOstZfs = 1 := congrArg DmuObjset.osType heq
    exact absurd htype (by decide)

/-- Every dnode a written pool leads to has shifts that fit. -/
theorem Packer.PoolAt.poolFits (h : P.PoolAt image pool) : PoolFits Γ image := by
  intro os hos
  obtain ⟨s, w, -, hat, rfl, -⟩ := h.written_of_opened P hos
  exact hat.fits_objset P

end Fits

end ZfsForensic
