import ZfsForensic.Read

/-!
# The walk down a block tree, in plain arithmetic

The source picks the child at each level by shifts and masks of 64-bit words. Where the shift amounts fit a word, the walk is the
one that follows the digits of `blkid` in base `2 ^ shift`, and both builds agree on it. A read ends at one pointer; `resolveBlkptr`
is that pointer, and the read is its.
-/

namespace ZfsForensic

open Octets Checked Checked.Run

/-- The level of `dn_blkptr[]` above the data. -/
def Dnode.topLevel (d : Dnode) : Nat := (min d.dnNlevels maxIndirectLevels).toNat - 1

/-- Whether every shift of a walk from the top stays below the width of a word. -/
def Dnode.ShiftsFit (d : Dnode) : Prop := d.topLevel * d.levelShift.toNat < 64

instance (d : Dnode) : Decidable d.ShiftsFit := inferInstanceAs (Decidable (_ < _))

/-- The digit of a block id at a level: the index of the child there. -/
def Dnode.digit (d : Dnode) (n level : Nat) : Nat := n / 2 ^ (level * d.levelShift.toNat) % 2 ^ d.levelShift.toNat

/-- The walk from a pointer `level` levels above the data, to block `n`. -/
def walk (disk : Disk) (dnode : Dnode) (n : Nat) : Nat → Blkptr → Except ZfsError Block
  | 0, bp => disk bp
  | level + 1, bp =>
    match disk bp with
    | .error e => .error e
    | .ok block =>
      let i := dnode.digit n level
      match slice? block.data (i * blkptrSize) (i * blkptrSize + blkptrSize) with
      | none => .error (.outOfRange "indirect child index" i (block.data.length / blkptrSize))
      | some child =>
        let bp := Blkptr.parse child dnode.endian
        if bp.isHole then disk bp else walk disk dnode n level bp

/-! ## The descent, with what to make of the pointer it ends at -/

section With

variable {α β : Type}

/-- The descent of `readDnodeData`, the pointer it ends at handed to `last`. -/
def descendWith (last : Blkptr → Except ZfsError α) (disk : Disk) (dnode : Dnode) (blkid : UInt64) :
    Nat → Blkptr → Run (Except ZfsError α)
  | 0, bp => pure (last bp)
  | level + 1, bp =>
    match disk bp with
    | .error e => pure (.error e)
    | .ok block => do
      let index ← levelIndex dnode blkid level
      let mask ← subU64 (UInt64.ofNat dnode.ptrsPerIndirect) 1
      let childIndex := (index &&& mask).toNat
      let off := satMul childIndex blkptrSize
      match slice? block.data off (satAdd off blkptrSize) with
      | none => pure (.error (.outOfRange "indirect child index" childIndex (block.data.length / blkptrSize)))
      | some child =>
        let bp := Blkptr.parse child dnode.endian
        if bp.isHole then pure (last bp) else descendWith last disk dnode blkid level bp

/-- The read of a block, the pointer it ends at handed to `last`. -/
def resolveWith (last : Blkptr → Except ZfsError α) (disk : Disk) (dnode : Dnode) (blkid : UInt64) :
    Run (Except ZfsError α) :=
  if dnode.dnNlevels = 0 then pure (.error (.outOfRange "dn_nlevels" 0 maxIndirectLevels.toNat))
  else if dnode.dnMaxblkid < blkid then pure (.error (.outOfRange "blkid" blkid.toNat dnode.dnMaxblkid.toNat))
  else do
    let topLevel ← subU8 (min dnode.dnNlevels maxIndirectLevels) 1
    let topIndex ← levelIndex dnode blkid topLevel.toNat
    match dnode.blkptr topIndex.toNat with
    | none => pure (.error (.outOfRange "top blkptr index" topIndex.toNat dnode.blkptrs.length))
    | some bp => descendWith last disk dnode blkid topLevel.toNat bp

/-- The pointer a block id resolves to. -/
def resolveBlkptr (disk : Disk) (dnode : Dnode) (blkid : UInt64) : Run (Except ZfsError Blkptr) :=
  resolveWith Except.ok disk dnode blkid

/-- The walk by digits, the pointer it ends at handed to `last`. -/
def walkWith (last : Blkptr → Except ZfsError α) (disk : Disk) (dnode : Dnode) (n : Nat) :
    Nat → Blkptr → Except ZfsError α
  | 0, bp => last bp
  | level + 1, bp =>
    match disk bp with
    | .error e => .error e
    | .ok block =>
      let i := dnode.digit n level
      match slice? block.data (i * blkptrSize) (i * blkptrSize + blkptrSize) with
      | none => .error (.outOfRange "indirect child index" i (block.data.length / blkptrSize))
      | some child =>
        let bp := Blkptr.parse child dnode.endian
        if bp.isHole then last bp else walkWith last disk dnode n level bp

/-- What `walkWith` makes of the top pointer a block id selects. -/
def topWith (last : Blkptr → Except ZfsError α) (disk : Disk) (d : Dnode) (n : Nat) : Except ZfsError α :=
  let i := n / 2 ^ (d.topLevel * d.levelShift.toNat)
  match d.blkptrs[i]? with
  | none => .error (.outOfRange "top blkptr index" i d.blkptrs.length)
  | some bp => walkWith last disk d n d.topLevel bp

theorem descend_eq_descendWith (disk : Disk) (d : Dnode) (blkid : UInt64) (level : Nat) (bp : Blkptr) :
    descend disk d blkid level bp = descendWith disk disk d blkid level bp := by
  induction level generalizing bp with
  | zero => rfl
  | succ level ih =>
    have hrest : descend disk d blkid level = descendWith disk disk d blkid level := funext ih
    unfold descend descendWith
    rewrite [hrest]
    rfl

/-- A block read is the read of the pointer its id resolves to. -/
theorem readDnodeData_eq_resolveWith (disk : Disk) (d : Dnode) (blkid : UInt64) :
    readDnodeData disk d blkid = resolveWith disk disk d blkid := by
  have hdescend : descend disk d blkid = descendWith disk disk d blkid :=
    funext fun level => funext fun bp => descend_eq_descendWith disk d blkid level bp
  unfold readDnodeData resolveWith
  rewrite [hdescend]
  rfl

theorem walk_eq_walkWith (disk : Disk) (d : Dnode) (n level : Nat) (bp : Blkptr) :
    walk disk d n level bp = walkWith disk disk d n level bp := by
  induction level generalizing bp with
  | zero => rfl
  | succ level ih => simp only [walk, walkWith, ih]

/-- What is made of the last pointer may be made after the descent. -/
theorem value_descendWith_bind (last : Blkptr → Except ZfsError α) (next : α → Except ZfsError β) (disk : Disk) (d : Dnode)
    (blkid : UInt64) (level : Nat) (bp : Blkptr) :
    (descendWith (fun bp => (last bp).bind next) disk d blkid level bp).value =
      (descendWith last disk d blkid level bp).value.bind next := by
  induction level generalizing bp with
  | zero => rfl
  | succ level ih =>
    rw [descendWith, descendWith]
    cases disk bp with
    | error e => rfl
    | ok block =>
      simp only [value_bind]
      split
      · rfl
      · split
        · rfl
        · exact ih _

theorem value_resolveWith_bind (last : Blkptr → Except ZfsError α) (next : α → Except ZfsError β) (disk : Disk) (d : Dnode)
    (blkid : UInt64) :
    (resolveWith (fun bp => (last bp).bind next) disk d blkid).value = (resolveWith last disk d blkid).value.bind next := by
  unfold resolveWith
  split
  · rfl
  · split
    · rfl
    · simp only [value_bind]
      split
      · rfl
      · exact value_descendWith_bind last next disk d blkid _ _

/-- A block read reads the pointer its id resolves to. -/
theorem readDnodeData_value (disk : Disk) (d : Dnode) (blkid : UInt64) :
    (readDnodeData disk d blkid).value = (resolveBlkptr disk d blkid).value.bind disk := by
  rw [readDnodeData_eq_resolveWith]
  exact value_resolveWith_bind Except.ok disk disk d blkid

end With

theorem Dnode.digit_lt (d : Dnode) (n level : Nat) : d.digit n level < 2 ^ 17 := by
  have h : d.digit n level < 2 ^ d.levelShift.toNat := Nat.mod_lt _ (Nat.pow_pos (by omega))
  exact lt_of_lt_of_le h (Nat.pow_le_pow_right (by omega) d.levelShift_le)

/-- The levels followed, as a number: those of the dnode, at most eight. -/
theorem Dnode.levels_toNat (d : Dnode) : (min d.dnNlevels maxIndirectLevels).toNat = min d.dnNlevels.toNat 8 := by
  change (if d.dnNlevels ≤ maxIndirectLevels then d.dnNlevels else maxIndirectLevels).toNat = _
  have h8 : maxIndirectLevels.toNat = 8 := rfl
  split
  · rename_i h
    rw [UInt8.le_iff_toNat_le, h8] at h
    omega
  · rename_i h
    rw [UInt8.le_iff_toNat_le, h8] at h
    rw [h8]
    omega

theorem Dnode.topLevel_eq (d : Dnode) : d.topLevel = min d.dnNlevels.toNat 8 - 1 := by
  rw [topLevel, levels_toNat]

theorem Dnode.topLevel_lt (d : Dnode) : d.topLevel < 8 := by
  rw [topLevel_eq]
  omega

/-- The cap of the levels is above zero where the dnode has levels, so the subtraction of one does not wrap. -/
theorem Dnode.subU8_levels {d : Dnode} (h : d.dnNlevels ≠ 0) :
    (subU8 (min d.dnNlevels maxIndirectLevels) 1).panics = false ∧
      (subU8 (min d.dnNlevels maxIndirectLevels) 1).value.toNat = d.topLevel := by
  have h0 : d.dnNlevels.toNat ≠ 0 := fun hz => h (UInt8.toNat_inj.1 hz)
  have hone : (1 : UInt8).toNat = 1 := rfl
  have hpos : 1 ≤ min d.dnNlevels maxIndirectLevels := by
    rw [UInt8.le_iff_toNat_le, levels_toNat, hone]
    omega
  constructor
  · simp only [subU8, decide_eq_false_iff_not, UInt8.not_lt]
    exact hpos
  · simp only [subU8, topLevel]
    rw [UInt8.toNat_sub_of_le _ _ hpos]
    rfl

/-- The mask of a child index keeps the low digit. -/
theorem Dnode.masked_index (d : Dnode) (index : UInt64) :
    (subU64 (UInt64.ofNat d.ptrsPerIndirect) 1).panics = false ∧
      (index &&& (subU64 (UInt64.ofNat d.ptrsPerIndirect) 1).value).toNat =
        index.toNat % 2 ^ d.levelShift.toNat := by
  have hle := d.ptrsPerIndirect_le
  have hpos : 1 ≤ d.ptrsPerIndirect := by
    rw [ptrsPerIndirect_eq]
    exact Nat.pow_pos (by omega)
  have hto : (UInt64.ofNat d.ptrsPerIndirect).toNat = d.ptrsPerIndirect := by
    rw [UInt64.toNat_ofNat']
    omega
  have h1 : (1 : UInt64) ≤ UInt64.ofNat d.ptrsPerIndirect := by
    rw [UInt64.le_iff_toNat_le, hto]
    exact hpos
  constructor
  · simp only [subU64, decide_eq_false_iff_not, UInt64.not_lt]
    exact h1
  · simp only [subU64]
    rw [UInt64.toNat_and, UInt64.toNat_sub_of_le _ _ h1, hto, ptrsPerIndirect_eq_two_pow]
    exact Nat.and_two_pow_sub_one_eq_mod _ _

/-- Where the amounts fit, the descent is the walk by digits, and no check fails on it. -/
theorem descendWith_eq {α : Type} (last : Blkptr → Except ZfsError α) (disk : Disk) (d : Dnode) (blkid : UInt64) {level : Nat}
    (h8 : level < 8) (hs : (level - 1) * d.levelShift.toNat < 64) (bp : Blkptr) :
    descendWith last disk d blkid level bp = pure (walkWith last disk d blkid.toNat level bp) := by
  induction level generalizing bp with
  | zero => rfl
  | succ level ih =>
    rw [descendWith, walkWith]
    cases disk bp with
    | error e => rfl
    | ok block =>
      have hamount : level * d.levelShift.toNat < 64 := hs
      have hrest : (level - 1) * d.levelShift.toNat < 64 :=
        lt_of_le_of_lt (Nat.mul_le_mul_right _ (Nat.sub_le _ _)) hamount
      have hip := levelIndex_panics d blkid (show level < 8 by omega)
      have hiv := levelIndex_value d blkid (show level < 8 by omega) hamount
      obtain ⟨hmp, hmv⟩ := d.masked_index (levelIndex d blkid level).value
      rw [hiv] at hmv
      have hlt := d.digit_lt blkid.toNat level
      have hoff : satMul (d.digit blkid.toNat level) blkptrSize = d.digit blkid.toNat level * blkptrSize :=
        satMul_eq (by unfold blkptrSize; omega)
      have hstop : satAdd (d.digit blkid.toNat level * blkptrSize) blkptrSize =
          d.digit blkid.toNat level * blkptrSize + blkptrSize :=
        satAdd_eq (by unfold blkptrSize; omega)
      have hidx : levelIndex d blkid level = pure (levelIndex d blkid level).value :=
        Run.ext rfl (by rw [hip]; simpa using hamount)
      have hmask : subU64 (UInt64.ofNat d.ptrsPerIndirect) 1 =
          pure (subU64 (UInt64.ofNat d.ptrsPerIndirect) 1).value := Run.ext rfl hmp
      dsimp only
      rw [hidx, hmask]
      simp only [pure_bind]
      rw [hmv]
      change (match slice? block.data (satMul (d.digit blkid.toNat level) blkptrSize)
        (satAdd (satMul (d.digit blkid.toNat level) blkptrSize) blkptrSize) with
        | none => _
        | some child => _) = _
      rw [hoff, hstop]
      cases slice? block.data (d.digit blkid.toNat level * blkptrSize)
          (d.digit blkid.toNat level * blkptrSize + blkptrSize) with
      | none => rfl
      | some child =>
        dsimp only
        split
        · rfl
        · exact ih (by omega) hrest _

/-- What a read of block `blkid` selects at the top. -/
def topRead (disk : Disk) (d : Dnode) (n : Nat) : Except ZfsError Block :=
  let i := n / 2 ^ (d.topLevel * d.levelShift.toNat)
  match d.blkptrs[i]? with
  | none => .error (.outOfRange "top blkptr index" i d.blkptrs.length)
  | some bp => walk disk d n d.topLevel bp

/-- Where the amounts fit, the resolution of an allocated block is the walk from the top pointer its quotient selects. -/
theorem resolveWith_eq {α : Type} (last : Blkptr → Except ZfsError α) (disk : Disk) {d : Dnode} {blkid : UInt64}
    (hn : d.dnNlevels ≠ 0) (hb : blkid ≤ d.dnMaxblkid) (hs : d.ShiftsFit) :
    resolveWith last disk d blkid = pure (topWith last disk d blkid.toNat) := by
  obtain ⟨hsp, hsv⟩ := Dnode.subU8_levels hn
  have htop := d.topLevel_lt
  have hip := levelIndex_panics d blkid htop
  have hiv := levelIndex_value d blkid htop hs
  have hsub : subU8 (min d.dnNlevels maxIndirectLevels) 1 = pure (subU8 (min d.dnNlevels maxIndirectLevels) 1).value :=
    Run.ext rfl hsp
  have hidx : levelIndex d blkid d.topLevel = pure (levelIndex d blkid d.topLevel).value :=
    Run.ext rfl (by rw [hip]; simpa [Dnode.ShiftsFit] using hs)
  have hdesc (bp : Blkptr) : descendWith last disk d blkid d.topLevel bp = pure (walkWith last disk d blkid.toNat d.topLevel bp) :=
    descendWith_eq last disk d blkid htop
      (lt_of_le_of_lt (Nat.mul_le_mul_right _ (Nat.sub_le _ _)) hs) bp
  rw [resolveWith, if_neg hn, if_neg (UInt64.not_lt.2 hb), hsub]
  simp only [pure_bind]
  rw [hsv, hidx]
  simp only [pure_bind]
  rw [hiv, topWith, Dnode.blkptr]
  cases d.blkptrs[blkid.toNat / 2 ^ (d.topLevel * d.levelShift.toNat)]? with
  | none => rfl
  | some bp => exact hdesc bp

/-- Where the amounts fit, a read of an allocated block is the walk from the top pointer its quotient selects. -/
theorem readDnodeData_eq (disk : Disk) {d : Dnode} {blkid : UInt64} (hn : d.dnNlevels ≠ 0)
    (hb : blkid ≤ d.dnMaxblkid) (hs : d.ShiftsFit) :
    readDnodeData disk d blkid = pure (topRead disk d blkid.toNat) := by
  rw [readDnodeData_eq_resolveWith, resolveWith_eq disk disk hn hb hs]
  simp only [topRead, topWith, walk_eq_walkWith]

/-- A read of an allocated block stops a debug build where the top amount does not fit. -/
theorem readDnodeData_panics_of_not_fit (disk : Disk) {d : Dnode} {blkid : UInt64} (hn : d.dnNlevels ≠ 0)
    (hb : blkid ≤ d.dnMaxblkid) (hs : ¬ d.ShiftsFit) : (readDnodeData disk d blkid).panics = true := by
  obtain ⟨hsp, hsv⟩ := Dnode.subU8_levels hn
  have hip := levelIndex_panics d blkid d.topLevel_lt
  rw [readDnodeData, if_neg hn, if_neg (UInt64.not_lt.2 hb), panics_bind, hsp, hsv, panics_bind, hip]
  unfold Dnode.ShiftsFit at hs
  simp only [Bool.false_or, Bool.or_eq_true, decide_eq_true_eq]
  exact Or.inl (by omega)

/-- A dnode without levels has no shift to fit. -/
theorem Dnode.shiftsFit_of_no_levels {d : Dnode} (h : d.dnNlevels = 0) : d.ShiftsFit := by
  have hz : d.dnNlevels.toNat = 0 := by rw [h]; rfl
  simp [ShiftsFit, topLevel_eq, hz]

/-- A block read runs through in a debug build exactly when the block id is past the object or its shift amounts fit. -/
theorem readDnodeData_panics_iff (disk : Disk) (d : Dnode) (blkid : UInt64) :
    (readDnodeData disk d blkid).panics = false ↔ d.dnMaxblkid < blkid ∨ d.ShiftsFit := by
  by_cases hn : d.dnNlevels = 0
  · have hfit := Dnode.shiftsFit_of_no_levels hn
    simp [readDnodeData, hn, hfit]
  · by_cases hb : d.dnMaxblkid < blkid
    · simp [readDnodeData, hn, hb]
    · rw [UInt64.not_lt] at hb
      constructor
      · intro h
        by_contra hc
        rw [readDnodeData_panics_of_not_fit disk hn hb (fun hs => hc (Or.inr hs))] at h
        exact absurd h (by simp)
      · intro h
        rcases h with h | h
        · exact absurd h (UInt64.not_lt.2 hb)
        · rw [readDnodeData_eq disk hn hb h]
          rfl

/-! ## Object lookup -/

theorem Dnode.dataBlockSize_eq (d : Dnode) : d.dataBlockSize = d.dnDatablkszsec.toNat * 512 := by
  simp [dataBlockSize, Nat.shiftLeft_eq]

/-- The number of dnodes in a block of the meta-dnode. -/
def ObjsetPhys.dnodesPerBlock (os : ObjsetPhys) : Nat := os.metaDnode.dnDatablkszsec.toNat

/-- The block of the meta-dnode that holds an object's first slot. -/
def ObjsetPhys.blockOf (os : ObjsetPhys) (id : UInt64) : UInt64 := id / UInt64.ofNat os.dnodesPerBlock

theorem ObjsetPhys.dnodesPerBlock_lt (os : ObjsetPhys) : os.dnodesPerBlock < 2 ^ 16 := os.metaDnode.dnDatablkszsec.toNat_lt

theorem ObjsetPhys.blockOf_toNat (os : ObjsetPhys) (id : UInt64) :
    (os.blockOf id).toNat = id.toNat / os.dnodesPerBlock := by
  have h := os.dnodesPerBlock_lt
  have hmod : os.dnodesPerBlock % 2 ^ 64 = os.dnodesPerBlock := Nat.mod_eq_of_lt (by omega)
  rw [blockOf, UInt64.toNat_div, UInt64.toNat_ofNat', hmod]

/-- The object a block's slot holds: its 512 bytes, parsed; none for an empty slot. -/
def slotDnode (os : ObjsetPhys) (data : Bytes) (slot : Nat) : Option Dnode :=
  match slice? data (slot * dnodeSize) (slot * dnodeSize + dnodeSize) with
  | none => none
  | some raw =>
    match Dnode.parse raw os.endian with
    | none => none
    | some dnode => if dnode.dnType = 0 then none else some dnode

/-- What an object lookup makes of the block it reads. -/
def slotOfRead (os : ObjsetPhys) (id : UInt64) : Except ZfsError Block → Option Dnode
  | .error _ => none
  | .ok block => slotDnode os block.data (id.toNat % os.dnodesPerBlock)

/-- An object set without a block size resolves no object. -/
theorem mosDnode_of_zero (disk : Disk) {os : ObjsetPhys} (h : os.dnodesPerBlock = 0) (id : UInt64) :
    mosDnode disk os id = pure none := by
  rw [ObjsetPhys.dnodesPerBlock] at h
  rw [mosDnode, if_pos (by rw [Dnode.dataBlockSize_eq, h, Nat.zero_mul])]

/-- An object lookup reads one block of the meta-dnode and takes the object's slot of it. -/
theorem mosDnode_eq (disk : Disk) {os : ObjsetPhys} (h : os.dnodesPerBlock ≠ 0) (id : UInt64) :
    mosDnode disk os id = (do
      let r ← readDnodeData disk os.metaDnode (os.blockOf id)
      pure (slotOfRead os id r)) := by
  have hlt := os.dnodesPerBlock_lt
  have hdiv : os.metaDnode.dataBlockSize / dnodeSize = os.dnodesPerBlock := by
    rw [Dnode.dataBlockSize_eq, dnodeSize, Nat.mul_div_cancel _ (by omega), ObjsetPhys.dnodesPerBlock]
  have hto : (UInt64.ofNat os.dnodesPerBlock).toNat = os.dnodesPerBlock := by
    rw [UInt64.toNat_ofNat']
    omega
  have hne : os.metaDnode.dataBlockSize ≠ 0 := by
    rw [Dnode.dataBlockSize_eq, ← ObjsetPhys.dnodesPerBlock]
    omega
  have hne64 : UInt64.ofNat os.dnodesPerBlock ≠ 0 := by
    intro hz
    rw [hz] at hto
    exact h hto.symm
  have hmod : (id % UInt64.ofNat os.dnodesPerBlock).toNat = id.toNat % os.dnodesPerBlock := by
    rw [UInt64.toNat_mod, hto]
  have hwlt : id.toNat % os.dnodesPerBlock < os.dnodesPerBlock := Nat.mod_lt _ (by omega)
  have hmul : mulUsize (id.toNat % os.dnodesPerBlock) dnodeSize = pure (id.toNat % os.dnodesPerBlock * dnodeSize) :=
    mulUsize_eq (by unfold dnodeSize; omega)
  have hadd : addUsize (id.toNat % os.dnodesPerBlock * dnodeSize) dnodeSize =
      pure (id.toNat % os.dnodesPerBlock * dnodeSize + dnodeSize) :=
    addUsize_eq (by unfold dnodeSize; omega)
  rw [mosDnode, if_neg hne, hdiv]
  dsimp only
  rw [if_neg hne64, hmod, hmul]
  simp only [pure_bind]
  apply congrArg
  funext r
  cases r with
  | error e => rfl
  | ok block =>
    simp only [hadd, pure_bind, slotOfRead, slotDnode]
    cases slice? block.data (id.toNat % os.dnodesPerBlock * dnodeSize)
        (id.toNat % os.dnodesPerBlock * dnodeSize + dnodeSize) with
    | none => rfl
    | some raw =>
      dsimp only
      cases Dnode.parse raw os.endian with
      | none => rfl
      | some dnode => by_cases h0 : dnode.dnType = 0 <;> simp only [h0, if_true, if_false]

/-- An object lookup runs through in a debug build exactly when its block read does, or when there is none. -/
theorem mosDnode_panics_iff (disk : Disk) (os : ObjsetPhys) (id : UInt64) :
    (mosDnode disk os id).panics = false ↔
      os.metaDnode.dataBlockSize = 0 ∨ os.metaDnode.dnMaxblkid < os.blockOf id ∨ os.metaDnode.ShiftsFit := by
  by_cases h : os.dnodesPerBlock = 0
  · have hz : os.metaDnode.dataBlockSize = 0 := by
      rw [ObjsetPhys.dnodesPerBlock] at h
      rw [Dnode.dataBlockSize_eq, h, Nat.zero_mul]
    rw [mosDnode_of_zero disk h]
    simp [hz]
  · have hne : os.metaDnode.dataBlockSize ≠ 0 := by
      rw [Dnode.dataBlockSize_eq, ← ObjsetPhys.dnodesPerBlock]
      omega
    rw [mosDnode_eq disk h, panics_bind]
    simp only [panics_pure, Bool.or_false, hne, false_or]
    exact readDnodeData_panics_iff disk os.metaDnode (os.blockOf id)

/-! ## Whole-object reads -/

/-- The bytes block `i` of an object reads as; none where it does not read. -/
def blockData (disk : Disk) (d : Dnode) (i : Nat) : Bytes :=
  match (readDnodeData disk d (UInt64.ofNat i)).value with
  | .ok block => block.data
  | .error _ => []

/-- Whether every block of an object reads as exactly one data block. -/
def WholeBlocks (disk : Disk) (d : Dnode) : Prop :=
  ∀ blkid ≤ d.dnMaxblkid, ∃ block, (readDnodeData disk d blkid).value = .ok block ∧ block.data.length = d.dataBlockSize

theorem length_blockData {disk : Disk} {d : Dnode} (h : WholeBlocks disk d) :
    ∀ i ∈ List.range (d.dnMaxblkid.toNat + 1), (blockData disk d i).length = d.dataBlockSize := by
  intro i hi
  rw [List.mem_range] at hi
  have hmax := d.dnMaxblkid.toNat_lt
  have hto : (UInt64.ofNat i).toNat = i := by
    rw [UInt64.toNat_ofNat']
    omega
  obtain ⟨block, hread, hlen⟩ := h (UInt64.ofNat i) (by rw [UInt64.le_iff_toNat_le, hto]; omega)
  rw [blockData, hread]
  exact hlen

/-- The loop of a whole-object read succeeds where every block reads, and appends the blocks in order. -/
theorem readBlocks_value_eq_ok_iff (disk : Disk) (d : Dnode) (n start : Nat) (out res : Bytes) :
    (readBlocks disk d n start out).value = .ok res ↔
      (∀ i, start ≤ i → i < start + n → ∃ block, (readDnodeData disk d (UInt64.ofNat i)).value = .ok block) ∧
        res = out ++ (List.range' start n).flatMap (blockData disk d) := by
  induction n generalizing start out with
  | zero =>
    simp only [readBlocks, value_pure, Except.ok.injEq, List.range'_zero, List.flatMap_nil, List.append_nil]
    constructor
    · intro h
      exact ⟨fun i h1 h2 => by omega, h.symm⟩
    · intro h
      exact h.2.symm
  | succ n ih =>
    rw [readBlocks, value_bind, List.range'_succ, List.flatMap_cons]
    cases hread : (readDnodeData disk d (UInt64.ofNat start)).value with
    | error e =>
      simp only [value_pure, reduceCtorEq, false_iff, not_and]
      intro h
      obtain ⟨block, hblock⟩ := h start le_rfl (by omega)
      rw [hread] at hblock
      exact absurd hblock (by simp)
    | ok block =>
      have hdata : blockData disk d start = block.data := by rw [blockData, hread]
      dsimp only
      rw [ih, hdata, List.append_assoc]
      refine and_congr_left fun _ => ⟨fun h i h1 h2 => ?_, fun h i h1 h2 => h i (by omega) (by omega)⟩
      by_cases hi : i = start
      · rw [hi]
        exact ⟨block, hread⟩
      · exact h i (by omega) (by omega)

end ZfsForensic
