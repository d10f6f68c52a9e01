import ZfsForensic.Lemmas.VolumeReads
import ZfsForensic.Lemmas.WriteLabel

/-!
# Pools

A pool is a configuration, a ring of uberblocks, and a root dataset with its snapshots, newest first, each a volume. It is written as a whole
vdev: the volumes, the MOS behind them, whose DSL objects name them, and the four labels, whose current uberblock points at the MOS.
-/

namespace ZfsForensic

open Octets Checked Checked.Run

/-- A pool to be written: what its labels hold besides the root pointer, the shape of the MOS, and its volumes, no more snapshots than recovery
follows. -/
structure Pool where
  config : XdrList
  before : List (Option RingSlot)
  after : List (Option RingSlot)
  version : UInt64
  txg : UInt64
  guidSum : UInt64
  timestamp : UInt64
  perBlock : UInt16
  height : Nat
  head : Volume
  snapshots : List Volume
  config_stored : config.Stored
  config_count : config.count < maxPairs
  config_depth : config.depth ≤ maxDepth
  config_fits : (config.pack 1 0 0 0 1).length ≤ nvlistSize
  ring_count : (before.length + 1 + after.length) * (1 <<< slotShift config.tree) = uberblockRingSize
  ring_stored : ∀ s, some s ∈ before ++ after → s.ub.Stored
  older : ∀ s, some s ∈ before → s.ub.txg < txg
  newer : ∀ s, some s ∈ after → s.ub.txg ≤ txg
  perBlock_pos : 0 < perBlock.toNat
  height_le : height ≤ 6
  count : snapshots.length + 4 ≤ perBlock.toNat * 1024 ^ height
  snapshots_le : snapshots.length ≤ snapshotBudget

/-- Its datasets: the head and the snapshots, newest first. -/
def Pool.datasets (pool : Pool) : List Volume := pool.head :: pool.snapshots

/-! ## The MOS -/

/-- A bonus whose second word is a link. -/
def linkBonus (first link : Nat) (rest : Bytes) : Bytes := encodeWords .little 8 [first, link] ++ rest

theorem length_linkBonus (first link : Nat) (rest : Bytes) : (linkBonus first link rest).length = 16 + rest.length := by
  rw [linkBonus, List.length_append, length_encodeWords]
  rfl

theorem leU64_linkBonus (first : Nat) {link : Nat} (h : link < 2 ^ 64) (rest : Bytes) : leU64 (linkBonus first link rest) 8 = UInt64.ofNat link := by
  have hread := readUint_encodeWords .little 8 [first, link] rest (k := 1) rfl
  have hmod : link % 256 ^ 8 = link := Nat.mod_eq_of_lt h
  rw [leU64, linkBonus, hread, hmod]

theorem plain_rootDataset : PlainName "root_dataset" := .of_checks (by decide) (by decide) (by decide)

theorem directoryType_ne : (1 : UInt8) ≠ 0 := by decide

/-- One entry fits in a sector. -/
theorem one_le_room : 1 ≤ 7 := by decide

/-- The object directory: it names the root dataset. -/
def objectDirectory : DmuObject :=
  linkZap 1 directoryType_ne [linkEnt "root_dataset" 2 plain_rootDataset] one_le_room

/-- A sector of zeros. -/
theorem whole_zeros : Whole (zeros 512) := ⟨1, by decide, by decide, length_zeros 512⟩

/-- The DSL directory: it names its head dataset. -/
def dslDirectory : DmuObject :=
  oneRecord 12 12 (linkBonus 0 3 (zeros 240)) (zeros 512) (by decide) (by rw [length_linkBonus, length_zeros]; decide) whole_zeros

/-- A DSL dataset: it names the snapshot before it, and points at its objset. -/
def dslDataset (prev : Nat) (bp : Blkptr) : DmuObject :=
  oneRecord 16 16 (linkBonus 2 prev (zeros 112 ++ bp.encode .little)) (zeros 512) (by decide)
    (by rw [length_linkBonus, List.length_append, length_zeros, Blkptr.length_encode]; decide) whole_zeros

/-- The datasets of a pool from an id on, each naming the next as the snapshot before it. -/
def dslDatasets : Nat → List Blkptr → List DmuObject
  | _, [] => []
  | id, bp :: bps => dslDataset (if bps = [] then 0 else id + 1) bp :: dslDatasets (id + 1) bps

theorem length_dslDatasets (id : Nat) (bps : List Blkptr) : (dslDatasets id bps).length = bps.length := by
  induction bps generalizing id with
  | nil => rfl
  | cons bp bps ih => rw [dslDatasets, List.length_cons, List.length_cons, ih]

theorem getElem?_dslDatasets (id : Nat) {bps : List Blkptr} {i : Nat} {bp : Blkptr} (h : bps[i]? = some bp) :
    (dslDatasets id bps)[i]? = some (dslDataset (if i + 1 = bps.length then 0 else id + i + 1) bp) := by
  induction bps generalizing id i with
  | nil => exact absurd h (by simp)
  | cons b bps ih =>
    cases i with
    | zero =>
      obtain rfl : b = bp := Option.some.inj h
      have hlast : (0 + 1 = (b :: bps).length) = (bps = []) := by
        rw [List.length_cons, eq_iff_iff, ← List.length_eq_zero_iff]
        omega
      rw [dslDatasets, List.getElem?_cons_zero]
      simp only [hlast, Nat.add_zero]
    | succ i =>
      rw [dslDatasets, List.getElem?_cons_succ, ih (id + 1) h, List.length_cons]
      have hid : id + 1 + i + 1 = id + (i + 1) + 1 := by omega
      simp only [Nat.add_right_cancel_iff, hid]

namespace Packer

variable {Γ : Ctx} (P : Packer Γ)

/-- Volumes laid down one after the other. -/
def writeVolumes : Nat → List Volume → Bytes
  | _, [] => []
  | sector, v :: vs => P.writeObjset sector v.objset ++ writeVolumes (sector + sectorsOf (P.writeObjset sector v.objset)) vs

/-- The pointers to them. -/
def volumePtrs : Nat → List Volume → List Blkptr
  | _, [] => []
  | sector, v :: vs => P.objsetPtr sector v.objset :: volumePtrs (sector + sectorsOf (P.writeObjset sector v.objset)) vs

theorem length_volumePtrs (sector : Nat) (vs : List Volume) : (P.volumePtrs sector vs).length = vs.length := by
  induction vs generalizing sector with
  | nil => rfl
  | cons v vs ih => rw [volumePtrs, List.length_cons, List.length_cons, ih]

/-- The MOS of a pool. -/
def mos (pool : Pool) : DmuObjset where
  osType := 1
  objects := objectDirectory :: dslDirectory :: dslDatasets 3 (P.volumePtrs 0 pool.datasets)
  perBlock := pool.perBlock
  height := pool.height
  perBlock_pos := pool.perBlock_pos
  height_le := pool.height_le
  count := by
    have hcount := pool.count
    simp only [List.length_cons, length_dslDatasets, length_volumePtrs, Pool.datasets]
    omega

/-- Its sector. -/
def mosSector (pool : Pool) : Nat := sectorsOf (P.writeVolumes 0 pool.datasets)

/-- The root pointer. -/
def rootPtr (pool : Pool) : Blkptr := P.objsetPtr (P.mosSector pool) (P.mos pool)

/-- The current uberblock. -/
def uberblockAt (pool : Pool) : Uberblock :=
  { endian := .little
    magic := uberblockMagic
    version := pool.version
    txg := pool.txg
    guidSum := pool.guidSum
    timestamp := pool.timestamp
    rootbp := (P.rootPtr pool).summary
    rootbpRaw := (P.rootPtr pool).encodeVector .little }

/-- The label of a pool. -/
def labelAt (pool : Pool) : VdevLabelPhys :=
  { config := pool.config, before := pool.before, current := ⟨.little, P.uberblockAt pool⟩, after := pool.after }

/-- What lies behind the front labels and the boot area: the volumes and the MOS. -/
def body (pool : Pool) : Bytes := P.writeVolumes 0 pool.datasets ++ P.writeObjset (P.mosSector pool) (P.mos pool)

/-- The image of a pool: two labels, the boot area, the body, and two labels. -/
def writePool (pool : Pool) : Bytes :=
  (P.labelAt pool).encode ++ (P.labelAt pool).encode ++ zeros 3670016 ++ P.body pool ++
    ((P.labelAt pool).encode ++ (P.labelAt pool).encode)

end Packer

/-! ## Where everything lies -/

section Layout

variable {Γ : Ctx} (P : Packer Γ) {image : Bytes}

theorem Packer.sectored_writeVolumes (sector : Nat) (vs : List Volume) : Sectored (P.writeVolumes sector vs) := by
  induction vs generalizing sector with
  | nil => exact sectored_nil.1
  | cons v vs ih => exact ((P.sectored_writeObjset sector v.objset).1.append (ih _)).1

/-- Every volume lies where its pointer says. -/
theorem Packer.objsetAt_volumes {vs : List Volume} {sector : Nat}
    (hpart : Part image (0x400000 + 512 * sector) (P.writeVolumes sector vs))
    (hfits : sector + sectorsOf (P.writeVolumes sector vs) < 2 ^ 50) :
    List.Forall₂ (fun bp v => ∃ s, bp = P.objsetPtr s v.objset ∧ P.ObjsetAt image s v.objset) (P.volumePtrs sector vs) vs := by
  induction vs generalizing sector with
  | nil => exact List.Forall₂.nil
  | cons v vs ih =>
    have hvolume := (P.sectored_writeObjset sector v.objset).1
    rw [writeVolumes] at hpart hfits
    rw [(hvolume.append (P.sectored_writeVolumes _ vs)).2] at hfits
    exact List.Forall₂.cons ⟨sector, rfl, hpart.left, by omega⟩ (ih (part_behind hvolume hpart) (by omega))

/-- Where the body of a pool lies in an image, inside the addresses of a 64-bit vdev. -/
structure Packer.BodyAt (image : Bytes) (pool : Pool) : Prop where
  part : Part image 0x400000 (P.body pool)
  fits : sectorsOf (P.body pool) < 2 ^ 50

variable {pool : Pool}

theorem Packer.sectored_body (pool : Pool) : Sectored (P.body pool) ∧
    sectorsOf (P.body pool) = P.mosSector pool + sectorsOf (P.writeObjset (P.mosSector pool) (P.mos pool)) :=
  (P.sectored_writeVolumes 0 pool.datasets).append (P.sectored_writeObjset _ _).1

theorem Packer.BodyAt.mos (h : P.BodyAt image pool) : P.ObjsetAt image (P.mosSector pool) (P.mos pool) := by
  have hsum := (P.sectored_body pool).2
  have hfits := h.fits
  have hpart := @part_behind image _ _ 0 (P.sectored_writeVolumes 0 pool.datasets) h.part
  rw [Nat.zero_add] at hpart
  exact ⟨hpart, by omega⟩

/-- A dataset lies where its pointer says. -/
theorem Packer.BodyAt.dataset (h : P.BodyAt image pool) {i : Nat} {v : Volume} (hv : pool.datasets[i]? = some v) :
    ∃ s, (P.volumePtrs 0 pool.datasets)[i]? = some (P.objsetPtr s v.objset) ∧ P.ObjsetAt image s v.objset := by
  have hsum := (P.sectored_body pool).2
  have hfits := h.fits
  have hsector : P.mosSector pool = sectorsOf (P.writeVolumes 0 pool.datasets) := rfl
  have hall := @Packer.objsetAt_volumes Γ P image pool.datasets 0 h.part.left (by omega)
  obtain ⟨bp, hbp, s, rfl, hat⟩ := exists_of_forall₂ hall hv
  exact ⟨s, hbp, hat⟩

/-! ## Its datasets -/

theorem zapLookup_objectDirectory : zapLookup objectDirectory.records.flatten (ascii "root_dataset") = some 2 := by
  rw [objectDirectory, linkZap_flatten, zapLookup_zapBytes]
  · rfl
  · intro e he
    rw [List.mem_singleton.1 he]
    exact plain_rootDataset.utf8

/-- A dataset's id resolves to a dnode that leads to its volume and to the snapshot before it. -/
theorem Packer.BodyAt.resolve (h : P.BodyAt image pool) {i : Nat} {v : Volume} (hv : pool.datasets[i]? = some v) :
    ∃ s ds, mosDnode (readBlock Γ image) (P.objsetAt (P.mosSector pool) (P.mos pool)) (UInt64.ofNat (3 + i)) = pure (some ds) ∧
      datasetZplObjset (readBlock Γ image) ds .little = some (P.objsetAt s v.objset) ∧ P.ObjsetAt image s v.objset ∧
      dslDatasetPrevSnap ds = UInt64.ofNat (if i = pool.snapshots.length then 0 else 3 + (i + 1)) := by
  obtain ⟨s, hbp, hat⟩ := h.dataset P hv
  have hi := (List.getElem?_eq_some_iff.1 hv).1
  have hbudget : pool.snapshots.length ≤ 4096 := pool.snapshots_le
  have hcount : pool.datasets.length = pool.snapshots.length + 1 := rfl
  have hid : (UInt64.ofNat (3 + i)).toNat = 3 + i := by
    rw [UInt64.toNat_ofNat']
    omega
  have hprev : (if i + 1 = (P.volumePtrs 0 pool.datasets).length then 0 else 3 + i + 1) =
      (if i = pool.snapshots.length then 0 else 3 + (i + 1)) := by
    rw [length_volumePtrs, hcount, Nat.add_assoc]
    simp only [Nat.add_right_cancel_iff]
  have hobject : (P.mos pool).objects[(UInt64.ofNat (3 + i)).toNat - 1]? =
      some (dslDataset (if i = pool.snapshots.length then 0 else 3 + (i + 1)) (P.objsetPtr s v.objset)) := by
    have hsplit : 3 + i - 1 = i + 2 := by omega
    rw [hid, hsplit, Packer.mos, List.getElem?_cons_succ, List.getElem?_cons_succ, getElem?_dslDatasets 3 hbp, hprev]
  obtain ⟨t, ht, -⟩ := h.mos.resolve P (by rw [hid]; omega) hobject
  obtain ⟨⟨hstored, hread⟩, hparse⟩ := hat.read
  refine ⟨s, _, ht, ?_, hat, ?_⟩
  · have hbp : dslDatasetBp (P.dnodeAt t (dslDataset (if i = pool.snapshots.length then 0 else 3 + (i + 1)) (P.objsetPtr s v.objset))) =
        P.objsetPtr s v.objset := by
      have hslice : slice? (linkBonus 2 (if i = pool.snapshots.length then 0 else 3 + (i + 1))
          (zeros 112 ++ (P.objsetPtr s v.objset).encode .little)) dsBpOffset (dsBpOffset + 128) =
          some ((P.objsetPtr s v.objset).encode .little) := by
        rw [linkBonus, ← List.append_assoc]
        exact slice?_suffix (by rw [List.length_append, length_encodeWords, length_zeros]; rfl) (by rw [Blkptr.length_encode]; rfl)
      change Blkptr.parse ((slice? (linkBonus 2 (if i = pool.snapshots.length then 0 else 3 + (i + 1))
          (zeros 112 ++ (P.objsetPtr s v.objset).encode .little)) dsBpOffset (dsBpOffset + 128)).getD []) .little = _
      rw [hslice, Option.getD_some, Blkptr.parse_encode hstored]
    rw [datasetZplObjset, hbp, hread]
    dsimp only
    rw [hparse]
    rfl
  · exact leU64_linkBonus 2 (by split <;> omega) _

/-- The head dataset is the first one. -/
theorem Packer.BodyAt.headDataset (h : P.BodyAt image pool) :
    (headDataset (readBlock Γ image) (P.objsetAt (P.mosSector pool) (P.mos pool))).value =
      (mosDnode (readBlock Γ image) (P.objsetAt (P.mosSector pool) (P.mos pool)) 3).value := by
  have hflat : objectDirectory.records.flatten.length ≤ maxZapBytes := by
    rw [objectDirectory, linkZap_flatten]
    exact (whole_zapBytes (by decide) (by decide)).le_maxZapBytes
  have hdata := h.mos.read_zapData P (show (1 : UInt64).toNat ≠ 0 by decide) (o := objectDirectory) rfl hflat
  obtain ⟨t, ht, -⟩ := h.mos.resolve P (show (2 : UInt64).toNat ≠ 0 by decide) (o := dslDirectory) rfl
  have hlink : dslDirHeadDataset (P.dnodeAt t dslDirectory) = 3 := leU64_linkBonus 0 (by decide) _
  rw [ZfsForensic.headDataset, value_bind, hdata]
  dsimp only
  rw [zapLookup_objectDirectory]
  dsimp only
  rw [ht, pure_bind]
  dsimp only
  rw [hlink, if_neg (by decide)]

end Layout

end ZfsForensic
