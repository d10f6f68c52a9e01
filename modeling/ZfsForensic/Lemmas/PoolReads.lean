import ZfsForensic.Lemmas.Pool

/-!
# Pools read back

Where an image holds a pool, with its labels at every offset a reader looks, both bootstraps come to its root pointer, the root dataset
resolves to the head volume, and a mount has its root and its tables.
-/

namespace ZfsForensic

open Octets Checked Checked.Run

/-- Where a pool lies in an image: its body behind the boot area, and its label at the offset of every label. -/
structure Packer.PoolAt {Γ : Ctx} (P : Packer Γ) (image : Bytes) (pool : Pool) : Prop where
  body : P.BodyAt image pool
  labels : ∀ off ∈ labelOffsetList image, Part image off (P.labelAt pool).encode
  size : image.length < 2 ^ 63

/-- An image mounts where every stage resolves. -/
theorem open_of_stages {Γ : Ctx} {image : Bytes} {ub : Uberblock} {block : Block} {mos zpl : ObjsetPhys} {rootId : UInt64}
    {registry : SaRegistry} {layouts : SaLayouts} (hub : activeUberblockAcrossLabels image = some ub)
    (hread : readBlock Γ image ub.rootbpFull = .ok block) (hparse : ObjsetPhys.parse block.data ub.endian = .ok mos)
    (hzpl : (zplObjset (readBlock Γ image) mos).value = some zpl) (htype : zpl.osType = dmuOstZfs)
    (hroot : (zplMasterRoot (readBlock Γ image) zpl).value = some rootId)
    (htables : (zplSaContext (readBlock Γ image) zpl).value = some (registry, layouts)) :
    (ZfsFs.open Γ image).value = .ok
      { image := image
        zpl := zpl
        registry := registry
        layouts := layouts
        rootId := rootId
        recordSize := recordSizeOf (mosDnode (readBlock Γ image) zpl rootId).value
        poolName := (poolConfig image).bind (fun c => NvList.getStr c (ascii "name")) } := by
  rw [ZfsFs.open, hub]
  dsimp only
  rw [hread]
  dsimp only
  rw [hparse]
  dsimp only
  rw [value_bind, hzpl]
  dsimp only
  rw [ZfsFs.openDataset, if_neg (fun hne => hne htype), value_bind, hroot]
  simp only [value_bind, value_pure, htables, Option.getD_some]

section Labels

variable {Γ : Ctx} (P : Packer Γ) {image : Bytes} {pool : Pool}

/-- The current uberblock holds the root pointer. -/
theorem Packer.BodyAt.uberblock (h : P.BodyAt image pool) :
    (P.rootPtr pool).Stored ∧ (P.uberblockAt pool).rootbpFull = P.rootPtr pool ∧
      ((P.labelAt pool).current.parsed.rootbpFull = P.rootPtr pool) ∧ (P.uberblockAt pool).Stored := by
  have hstored : (P.rootPtr pool).Stored := (h.mos.read).1.stored
  have hfull : (P.uberblockAt pool).rootbpFull = P.rootPtr pool := Blkptr.parse_encode hstored .little
  have hub : (P.uberblockAt pool).Stored := ⟨rfl, by rw [hfull]; exact hstored, by rw [hfull]; rfl⟩
  exact ⟨hstored, hfull, by rw [← hfull]; exact (Uberblock.parse_encode .little hub []).2, hub⟩

/-- The label of a pool is one that is written. -/
theorem Packer.BodyAt.label_stored (h : P.BodyAt image pool) : (P.labelAt pool).Stored := by
  refine ⟨pool.config_stored, pool.config_count, pool.config_depth, pool.config_fits, ?_, ?_, pool.older, pool.newer⟩
  · have hlen : (P.labelAt pool).slots.length = pool.before.length + 1 + pool.after.length := by
      have hbefore : (P.labelAt pool).before = pool.before := rfl
      have hafter : (P.labelAt pool).after = pool.after := rfl
      rw [VdevLabelPhys.slots, List.length_append, List.length_cons, hbefore, hafter]
      omega
    rw [hlen]
    exact pool.ring_count
  · intro s hs
    have hcases : some s ∈ pool.before ++ pool.after ∨ s = (P.labelAt pool).current := by
      rcases List.mem_append.1 hs with hs | hs
      · exact Or.inl (List.mem_append_left _ hs)
      · rcases List.mem_cons.1 hs with hs | hs
        · exact Or.inr (Option.some.inj hs)
        · exact Or.inl (List.mem_append_right _ hs)
    rcases hcases with hs | rfl
    · exact pool.ring_stored s hs
    · exact (h.uberblock P).2.2.2

/-- The six parts of an image. -/
theorem parts_of_six (a b c d e f : Bytes) :
    Part (a ++ b ++ c ++ d ++ (e ++ f)) 0 a ∧ Part (a ++ b ++ c ++ d ++ (e ++ f)) a.length b ∧
      Part (a ++ b ++ c ++ d ++ (e ++ f)) (a.length + b.length + c.length) d ∧
      Part (a ++ b ++ c ++ d ++ (e ++ f)) (a.length + b.length + c.length + d.length) e ∧
      Part (a ++ b ++ c ++ d ++ (e ++ f)) (a.length + b.length + c.length + d.length + e.length) f := by
  have hself : Part (a ++ b ++ c ++ d ++ (e ++ f)) 0 (a ++ b ++ c ++ d ++ (e ++ f)) := slice?_self (Nat.zero_add _).symm
  have hb := hself.left.left.left.right
  have hd := hself.left.right
  have hback := hself.right
  simp only [List.length_append, Nat.zero_add] at hb hd hback
  exact ⟨hself.left.left.left.left, hb, hd, hback.left, hback.right⟩

/-- The size of a pool's image, whatever its labels hold, when they have the size of labels. -/
theorem Packer.length_writePool (hlen : (P.labelAt pool).encode.length = labelSize) :
    (P.writePool pool).length = 0x400000 + (P.body pool).length + 2 * labelSize := by
  have hsize : labelSize = 262144 := rfl
  simp only [writePool, List.length_append, hlen, length_zeros]
  omega

theorem Packer.length_body_le (pool : Pool) : (P.body pool).length ≤ (P.writePool pool).length := by
  simp only [writePool, List.length_append]
  omega

/-- The labels have their size wherever the body is stored. -/
theorem Packer.length_labelAt (hfits : sectorsOf (P.body pool) < 2 ^ 50) : (P.labelAt pool).encode.length = labelSize := by
  have hpart := part_middle (zeros 0x400000) (P.body pool) []
  rw [length_zeros] at hpart
  exact (Packer.BodyAt.label_stored P ⟨hpart, hfits⟩).length_encode

/-- The image of a pool is a bounded amount larger than its body. -/
theorem Packer.length_writePool_lt (hbody : (P.body pool).length < 2 ^ 58) : (P.writePool pool).length < 2 ^ 59 := by
  have hlabel : labelSize = 262144 := rfl
  have hfits : sectorsOf (P.body pool) < 2 ^ 50 := by
    have hsize := (P.sectored_body pool).1
    rw [Sectored] at hsize
    omega
  rw [P.length_writePool (P.length_labelAt hfits)]
  omega

/-- An image of a pool with four labels given. -/
def Packer.writeLabelled (pool : Pool) (front front' back back' : Bytes) : Bytes :=
  front ++ front' ++ zeros 3670016 ++ P.body pool ++ (back ++ back')

/-- Where the body and the labels of such an image lie. -/
theorem Packer.parts_writeLabelled {front front' back back' : Bytes}
    (hlen : ∀ label ∈ [front, front', back, back'], label.length = labelSize) :
    (P.writeLabelled pool front front' back back').length = 0x400000 + (P.body pool).length + 2 * labelSize ∧
      Part (P.writeLabelled pool front front' back back') 0x400000 (P.body pool) ∧
      List.Forall₂ (Part (P.writeLabelled pool front front' back back'))
        (labelOffsetList (P.writeLabelled pool front front' back back')) [front, front', back, back'] := by
  have hlabel : labelSize = 262144 := rfl
  have h0 := hlen front (by simp)
  have h1 := hlen front' (by simp)
  have h2 := hlen back (by simp)
  have h3 := hlen back' (by simp)
  obtain ⟨p0, p1, pbody, p2, p3⟩ := parts_of_six front front' (zeros 3670016) (P.body pool) back back'
  have hstart : front.length + front'.length + (zeros 3670016).length = 0x400000 := by rw [h0, h1, length_zeros, hlabel]
  have htotal : (P.writeLabelled pool front front' back back').length = 0x400000 + (P.body pool).length + 2 * labelSize := by
    simp only [writeLabelled, List.length_append, h2, h3]
    omega
  rw [hstart] at pbody p2 p3
  rw [h0] at p1
  rw [h2] at p3
  rw [← writeLabelled] at p0 p1 pbody p2 p3
  have hback : (P.writeLabelled pool front front' back back').length - 2 * labelSize = 0x400000 + (P.body pool).length := by omega
  have hback' : (P.writeLabelled pool front front' back back').length - labelSize = 0x400000 + (P.body pool).length + labelSize := by omega
  refine ⟨htotal, pbody, ?_⟩
  rw [labelOffsetList, labelOffsets, if_pos (by omega), hback, hback']
  exact .cons p0 (.cons p1 (.cons p2 (.cons p3 .nil)))

/-- A pool written as a whole vdev lies in its image: the four labels are its own. -/
theorem Packer.poolAt_writePool (hsize : (P.writePool pool).length < 2 ^ 59) : P.PoolAt (P.writePool pool) pool := by
  have hbody := (P.sectored_body pool).1
  have hle := P.length_body_le pool
  have hfits : sectorsOf (P.body pool) < 2 ^ 50 := by
    rw [hbody] at hle
    omega
  have hlen : ∀ label ∈ List.replicate 4 (P.labelAt pool).encode, label.length = labelSize := fun label hmem => by
    rw [List.eq_of_mem_replicate hmem, P.length_labelAt hfits]
  obtain ⟨-, hpart, hlabels⟩ := P.parts_writeLabelled hlen
  refine ⟨⟨hpart, hfits⟩, fun off hoff => ?_, Nat.lt_trans hsize (by decide)⟩
  obtain ⟨i, hi⟩ := List.getElem?_of_mem hoff
  obtain ⟨label, hmem, hlabel⟩ := exists_of_forall₂ hlabels.flip hi
  have hown : label = (P.labelAt pool).encode := List.eq_of_mem_replicate (n := 4) (List.mem_of_getElem? hmem)
  rwa [hown] at hlabel

/-! ## Both bootstraps -/

/-- The label is parsed, wherever a label lies. -/
theorem Packer.PoolAt.parse_label (h : P.PoolAt image pool) {off : Nat} (hoff : off ∈ labelOffsetList image) :
    slice? image off (off + labelSize) = some (P.labelAt pool).encode ∧
      VdevLabel.parse (P.labelAt pool).encode = .ok (P.labelAt pool).parsed := by
  have hstored := h.body.label_stored P
  exact ⟨(h.labels off hoff).slice? (by rw [hstored.length_encode]), hstored.parse⟩

theorem zero_mem_labelOffsetList (image : Bytes) : 0 ∈ labelOffsetList image := by
  rw [labelOffsetList, labelOffsets]
  split_ifs <;> exact List.mem_cons_self

/-- The front label opens the MOS. -/
theorem Packer.BodyAt.openMos (h : P.BodyAt image pool) (hfront : Part image 0 (P.labelAt pool).encode) :
    openMos Γ image = some (P.objsetAt (P.mosSector pool) (P.mos pool), .little) := by
  have hstored := h.label_stored P
  have hbytes := hfront.slice? (by rw [hstored.length_encode])
  obtain ⟨⟨-, hread⟩, hobjset⟩ := h.mos.read
  rw [Nat.zero_add] at hbytes
  have hendian : (P.labelAt pool).parsed.activeUberblock.endian = .little := rfl
  have hroot : (P.labelAt pool).parsed.activeUberblock.rootbpFull = P.objsetPtr (P.mosSector pool) (P.mos pool) :=
    (h.uberblock P).2.2.1
  rw [openMos_of_label hbytes hstored.parse, hroot, hendian, hread]
  dsimp only
  rw [hobjset]

theorem Packer.PoolAt.openMos (h : P.PoolAt image pool) :
    openMos Γ image = some (P.objsetAt (P.mosSector pool) (P.mos pool), .little) :=
  h.body.openMos P (h.labels 0 (zero_mem_labelOffsetList image))

/-- The root dataset resolves to the head volume. -/
theorem Packer.BodyAt.zplObjset (h : P.BodyAt image pool) :
    ∃ s, (zplObjset (readBlock Γ image) (P.objsetAt (P.mosSector pool) (P.mos pool))).value = some (P.objsetAt s pool.head.objset) ∧
      P.ObjsetAt image s pool.head.objset := by
  obtain ⟨s, ds, hds, hzpl, hat, -⟩ := h.resolve P (i := 0) (v := pool.head) rfl
  have hthree : UInt64.ofNat (3 + 0) = 3 := rfl
  rw [hthree] at hds
  have hmos : (P.objsetAt (P.mosSector pool) (P.mos pool)).endian = .little := rfl
  refine ⟨s, ?_, hat⟩
  rw [ZfsForensic.zplObjset, value_bind, h.headDataset P, hds, value_pure]
  dsimp only
  rw [value_pure, hmos, hzpl]

/-- The configuration a mount finds. -/
def Pool.configuration (pool : Pool) : Option NvList := if isPoolConfig pool.config.tree then some pool.config.tree else none

theorem Packer.PoolAt.poolConfig (h : P.PoolAt image pool) : poolConfig image = pool.configuration := by
  have hstored := h.body.label_stored P
  have hregion := (hstored.parts (h.labels 0 (zero_mem_labelOffsetList image))).1
  have hend := hregion.end_le
  have hlen := hstored.length_region
  have hoff : nvlistOffset = 16384 := rfl
  have hsize : nvlistSize = 114688 := rfl
  rw [Nat.zero_add, hoff] at hregion hend
  rw [hsize] at hlen
  have hconfig : configRegion image 0 = some (P.labelAt pool).region := by
    unfold configRegion
    rw [hoff, hsize, Nat.zero_add, if_neg (by omega), satAdd_eq (by omega), Nat.min_eq_left (by omega)]
    exact hregion.slice? (by rw [hlen])
  rw [ZfsForensic.poolConfig, hconfig]
  dsimp only
  rw [hstored.parse_region]
  cases hpool : isPoolConfig pool.config.tree with
  | true =>
    have hfilter : (some pool.config.tree).filter isPoolConfig = some pool.config.tree := by simp [Option.filter, hpool]
    rw [Pool.configuration, if_pos hpool]
    exact hfilter
  | false =>
    have hfilter : (some pool.config.tree).filter isPoolConfig = none := by simp [Option.filter, hpool]
    rw [Pool.configuration, if_neg (by rw [hpool]; exact Bool.false_ne_true)]
    exact hfilter

/-- A mount of a pool, under a name. -/
def Packer.mountAt (image : Bytes) (pool : Pool) (sector : Nat) (poolName : Option Bytes) : ZfsFs :=
  { image := image
    zpl := P.objsetAt sector pool.head.objset
    registry := pool.head.registry
    layouts := pool.head.layouts
    rootId := pool.head.root
    recordSize := recordSizeOf (mosDnode (readBlock Γ image) (P.objsetAt sector pool.head.objset) pool.head.root).value
    poolName := poolName }

/-- A pool mounts where its current uberblock is the one found, whatever the labels say of its name. -/
theorem Packer.BodyAt.open (h : P.BodyAt image pool) (hub : activeUberblockAcrossLabels image = some (P.labelAt pool).current.parsed) :
    ∃ s, (ZfsFs.open Γ image).value =
        .ok (P.mountAt image pool s ((ZfsForensic.poolConfig image).bind fun c => NvList.getStr c (ascii "name"))) ∧
      P.ObjsetAt image s pool.head.objset := by
  obtain ⟨s, hzpl, hat⟩ := h.zplObjset
  obtain ⟨⟨-, hread⟩, hobjset⟩ := h.mos.read
  have hendian : (P.labelAt pool).current.parsed.endian = .little := rfl
  have hroot : (P.labelAt pool).current.parsed.rootbpFull = P.objsetPtr (P.mosSector pool) (P.mos pool) := (h.uberblock P).2.2.1
  refine ⟨s, ?_, hat⟩
  rw [← hroot] at hread
  rw [← hendian] at hobjset
  exact open_of_stages hub hread hobjset hzpl rfl hat.find_root hat.find_tables

/-- A pool mounts. -/
theorem Packer.PoolAt.open (h : P.PoolAt image pool) :
    ∃ s, (ZfsFs.open Γ image).value =
        .ok (P.mountAt image pool s (pool.configuration.bind fun c => NvList.getStr c (ascii "name"))) ∧
      P.ObjsetAt image s pool.head.objset := by
  have hopen := h.body.open P ((h.body.label_stored P).acrossLabels h.size h.labels)
  rwa [h.poolConfig] at hopen

end Labels

end ZfsForensic
