import ZfsForensic.Lemmas.Image
import ZfsForensic.VfsOps

/-!
# What a mount holds, and images that mount

A mount keeps its image, the objset the image led to, the root that objset's master node names, and the decoding context, an empty
one where there is none. An image of a front label and a body mounts from its body alone, as long as no slot of the body looks like
an uberblock: the last label's ring runs over the end of the image.
-/

namespace ZfsForensic

open Octets Checked Checked.Run

namespace ZfsFs

/-- The decoding context of a mount: that of its objset, an empty one where there is none. -/
theorem of_openDataset {disk : Disk} {image : Bytes} {zpl : ObjsetPhys} {fs : ZfsFs}
    (h : (openDataset disk image zpl).value = .ok fs) :
    fs.image = image ∧ fs.zpl = zpl ∧ (zplMasterRoot disk zpl).value = some fs.rootId ∧
      (zplSaContext disk zpl).value.getD (default, default) = (fs.registry, fs.layouts) := by
  unfold openDataset at h
  split at h
  · exact absurd h (by simp)
  · rw [value_bind] at h
    cases hroot : (zplMasterRoot disk zpl).value with
    | none =>
      rw [hroot] at h
      exact absurd h (by simp)
    | some rootId =>
      rw [hroot] at h
      simp only [value_bind, value_pure, Except.ok.injEq] at h
      rw [← h]
      exact ⟨rfl, rfl, rfl, rfl⟩

/-- What an image mounts as. -/
theorem of_open {Γ : Ctx} {image : Bytes} {fs : ZfsFs} (h : (ZfsFs.open Γ image).value = .ok fs) :
    fs.image = image ∧ (zplMasterRoot (readBlock Γ image) fs.zpl).value = some fs.rootId ∧
      (zplSaContext (readBlock Γ image) fs.zpl).value.getD (default, default) = (fs.registry, fs.layouts) := by
  unfold ZfsFs.open at h
  split at h
  · exact absurd h (by simp)
  · dsimp only at h
    split at h
    · exact absurd h (by simp)
    · split at h
      · exact absurd h (by simp)
      · rw [value_bind] at h
        split at h
        · exact absurd h (by simp)
        · obtain ⟨himage, hzpl, hroot, hcontext⟩ := of_openDataset h
          rw [← hzpl] at hroot hcontext
          exact ⟨himage, hroot, hcontext⟩

/-- The reader of a mount is that of its image. -/
theorem disk_of_open {Γ : Ctx} {image : Bytes} {fs : ZfsFs} (h : (ZfsFs.open Γ image).value = .ok fs) :
    fs.disk Γ = readBlock Γ image := by
  rw [disk, (of_open h).1]

end ZfsFs

/-! ## What the operations return -/

/-- The metadata a legacy bonus gives. -/
def legacyAttrs (d : Dnode) : Option ZplAttrs :=
  if d.dnBonustype = dmuOtZnode then decodeZnodePhys d.bonus d.endian else none

/-- Without a decoding context the metadata of an object is that of its legacy bonus. -/
theorem value_zplAttrs_default (disk : Disk) (zpl : ObjsetPhys) (id : UInt64) :
    (zplAttrs disk zpl default default id).value = (mosDnode disk zpl id).value.bind legacyAttrs := by
  have hsa : ∀ bonus endian, decodeSaBonus bonus default default endian = none := by
    intro bonus endian
    unfold decodeSaBonus
    split <;> rfl
  have htypes : dmuOtSa ≠ dmuOtZnode := by decide
  rw [zplAttrs, value_bind]
  cases (mosDnode disk zpl id).value with
  | none => rfl
  | some d =>
    rw [Option.bind_some, legacyAttrs]
    dsimp only
    by_cases h44 : d.dnBonustype = dmuOtSa
    · rw [if_pos h44, hsa, h44, if_neg htypes]
      rfl
    · rw [if_neg h44]
      split <;> rfl

namespace ZfsFs

/-- The content of an object is its file read, cut at the size of its metadata. -/
theorem toOption_content (Γ : Ctx) (fs : ZfsFs) (obj : UInt64) :
    (fs.content Γ obj).value.toOption =
      (zplReadFileWith (fs.disk Γ) fs.zpl obj ((fs.attrs Γ obj).value.map ZplAttrs.size)).value.toOption := by
  rw [content, value_bind, value_bind]
  cases (zplReadFileWith (fs.disk Γ) fs.zpl obj ((fs.attrs Γ obj).value.map ZplAttrs.size)).value with
  | error e => rfl
  | ok out => rfl

/-- Where its image has no decoding context, a mount decodes legacy bonuses only. -/
theorem value_attrs_of_none {Γ : Ctx} {image : Bytes} {fs : ZfsFs} (hopen : (ZfsFs.open Γ image).value = .ok fs)
    (hcontext : (zplSaContext (readBlock Γ image) fs.zpl).value = none) (obj : UInt64) :
    (fs.attrs Γ obj).value = (mosDnode (readBlock Γ image) fs.zpl obj).value.bind legacyAttrs := by
  obtain ⟨-, -, hempty⟩ := of_open hopen
  rw [hcontext, Option.getD_none, Prod.mk.injEq] at hempty
  rw [attrs, disk_of_open hopen, ← hempty.1, ← hempty.2, value_zplAttrs_default]

/-- Where it has one, a mount decodes in it. -/
theorem attrs_of_context {Γ : Ctx} {image : Bytes} {fs : ZfsFs} {registry : SaRegistry} {layouts : SaLayouts}
    (hopen : (ZfsFs.open Γ image).value = .ok fs)
    (hcontext : (zplSaContext (readBlock Γ image) fs.zpl).value = some (registry, layouts)) (obj : UInt64) :
    fs.attrs Γ obj = zplAttrs (readBlock Γ image) fs.zpl registry layouts obj := by
  obtain ⟨-, -, hfound⟩ := of_open hopen
  rw [hcontext, Option.getD_some, Prod.mk.injEq] at hfound
  rw [attrs, disk_of_open hopen, hfound.1, hfound.2]

/-- A read at an offset is that part of the content. -/
theorem toOption_readAt (Γ : Ctx) (fs : ZfsFs) (ino off : UInt64) (len : Nat) :
    (fs.readAt Γ ino off len).value.toOption =
      (fs.content Γ ino).value.toOption.map (fun out => (out.drop off.toNat).take len) := by
  rw [readAt, value_bind]
  cases (fs.content Γ ino).value with
  | error e => rfl
  | ok out =>
    dsimp only
    split
    · rfl
    · rename_i hoff
      have hdrop : out.drop off.toNat = [] := List.drop_eq_nil_of_le (by omega)
      simp [Except.toOption, hdrop]

end ZfsFs

/-! ## The rings of an image -/

/-- A ring without an uberblock leaves the one found before. -/
theorem activeUberblockLoop_of_none {ring : Bytes} (best : Option (Uberblock × Nat)) (n slot : Nat)
    (hlen : ring.length = (slot + n) * 1024) (hbound : slot + n ≤ 128)
    (hnone : ∀ i < n, Uberblock.parse ((ring.drop ((slot + i) * 1024)).take 1024) = none) :
    activeUberblockLoop ring 1024 slot n best = best := by
  induction n generalizing slot with
  | zero => rfl
  | succ n ih =>
    have hcount : slot + 1 + n = slot + (n + 1) := by omega
    have hend : slot * 1024 + 1024 ≤ ring.length := by
      rw [hlen, ← Nat.succ_mul]
      exact Nat.mul_le_mul_right _ (by omega)
    have hslice : slice? ring (slot * 1024) (slot * 1024 + 1024) = some ((ring.drop (slot * 1024)).take 1024) := by
      rw [slice?_of_le (Nat.le_add_right _ _) hend, Nat.add_sub_cancel_left]
    have hfirst := hnone 0 (Nat.succ_pos n)
    rw [Nat.add_zero] at hfirst
    rw [activeUberblockLoop, if_neg (by omega), satAdd_eq (by omega), hslice]
    dsimp only
    rw [hfirst]
    refine ih (slot + 1) (by rw [hcount, hlen]) (by omega) fun i hi => ?_
    rw [Nat.add_assoc, Nat.add_comm 1 i]
    exact hnone (i + 1) (by omega)

/-- Zeros and a body without uberblocks, slot by slot. -/
theorem activeUberblock_of_body {body : Bytes} {j k : Nat} (hk : body.length = k * 1024) (hjk : j + k = 128)
    (hbody : ∀ i < k, Uberblock.parse ((body.drop (i * 1024)).take 1024) = none) :
    activeUberblock (zeros (j * 1024) ++ body) 1024 128 = none := by
  refine activeUberblockLoop_of_none none 128 0 ?_ (by omega) fun i hi => ?_
  · rw [List.length_append, length_zeros, hk, ← Nat.add_mul, hjk, Nat.zero_add]
  · rw [Nat.zero_add]
    by_cases hij : i < j
    · have hi : i * 1024 ≤ j * 1024 := Nat.mul_le_mul_right _ hij.le
      have hslot : 1024 ≤ j * 1024 - i * 1024 := by
        rw [← Nat.sub_mul]
        exact Nat.le_mul_of_pos_left _ (by omega)
      rw [List.drop_append_of_le_length (by rwa [length_zeros]), List.drop_replicate,
        List.take_append_of_le_length (by rwa [List.length_replicate]), List.take_replicate]
      exact parse_zeros _
    · obtain ⟨m, rfl⟩ := Nat.exists_eq_add_of_le (Nat.le_of_not_lt hij)
      rw [Nat.add_mul, ← List.drop_drop, List.drop_left' (length_zeros _)]
      exact hbody m (by omega)

/-- A ring without an uberblock is passed over. -/
theorem acrossLabels_of_none {image : Bytes} {off : Nat} {ring : Bytes} (hring : ringAt image off = some ring)
    (hlen : ring.length = 131072) (hnone : activeUberblock ring 1024 128 = none) (offs : List Nat)
    (best : Option Uberblock) : acrossLabels image (off :: offs) best = acrossLabels image offs best := by
  have hslot : 1 <<< uberblockMinShift = 1024 := rfl
  have hslots : ring.length / 1024 = 128 := by omega
  rw [acrossLabels, hring]
  dsimp only
  rw [hslot, hslots, hnone]

/-- The uberblock of the first ring that has one is the best so far. -/
theorem acrossLabels_of_some {image : Bytes} {off : Nat} {ring : Bytes} {ub : Uberblock} {slot : Nat}
    (hring : ringAt image off = some ring) (hlen : ring.length = 131072)
    (hsome : activeUberblock ring 1024 128 = some (ub, slot)) (offs : List Nat) :
    acrossLabels image (off :: offs) none = acrossLabels image offs (some ub) := by
  have hslot : 1 <<< uberblockMinShift = 1024 := rfl
  have hslots : ring.length / 1024 = 128 := by omega
  rw [acrossLabels, hring]
  dsimp only
  rw [hslot, hslots, hsome]

section Image

variable {txg : UInt64} {rootbp : Vector UInt8 128} {body : Bytes} {k : Nat}

/-- A ring of the image, where it lies inside it. -/
theorem ringAt_of_part {image : Bytes} {base : Nat} {ring : Bytes} (hbase : base < 2 ^ 32) (hlen : ring.length = 131072)
    (hpart : Part image (base + 131072) ring) : ringAt image base = some ring := by
  have hoff : uberblockRingOffset = 131072 := rfl
  have hsize : uberblockRingSize = 131072 := rfl
  have hend := hpart.end_le
  unfold ringAt
  rw [hoff, hsize, Nat.add_comm 131072, if_neg (by omega), satAdd_eq (by omega), Nat.min_eq_left (by omega)]
  exact hpart.slice? (by rw [hlen])

/-- The bytes between the label and the body are zeros. -/
theorem part_zeros_imageOf {off n : Nat} (hoff : 262144 ≤ off) (hend : off + n ≤ 4194304) :
    Part (imageOf txg rootbp body) off (zeros n) := by
  have hlabel : (labelOf txg rootbp).length = 262144 := length_labelOf txg rootbp
  have hwidth : off + n - 262144 - (off - 262144) = n := by omega
  rw [Octets.Part, length_zeros, imageOf, slice?_append_left (by rw [length_frontOf]; exact hend), frontOf,
    slice?_append_right (by omega) (by omega), hlabel, slice?_zeros (by omega) (by omega), hwidth]

theorem part_ring_imageOf : Part (imageOf txg rootbp body) 131072 (ringOf txg rootbp) := by
  have hparts : imageOf txg rootbp body =
      (zeros 16384 ++ emptyConfig) ++ ringOf txg rootbp ++ (zeros 3932160 ++ body) := by
    simp only [imageOf, frontOf, labelOf, List.append_assoc]
  rw [hparts]
  exact slice?_middle (by rw [List.length_append, length_zeros, length_emptyConfig]) rfl

/-- The last ring of the image ends with the body. -/
theorem part_last_imageOf {n : Nat} (hn : n ≤ 131072) :
    Part (imageOf txg rootbp body) (4194304 - n) (zeros n ++ body) := by
  have hsplit : zeros 3932160 = zeros (3932160 - n) ++ zeros n := by
    rw [zeros, zeros, List.replicate_append_replicate, Nat.sub_add_cancel (by omega)]
  have hparts : imageOf txg rootbp body = (labelOf txg rootbp ++ zeros (3932160 - n)) ++ (zeros n ++ body) := by
    rw [imageOf, frontOf, hsplit]
    simp only [List.append_assoc]
  have hlabel : (labelOf txg rootbp).length = 262144 := length_labelOf txg rootbp
  rw [hparts]
  exact slice?_suffix (by rw [List.length_append, hlabel, length_zeros]; omega) rfl

/-- The active uberblock of an image is the one in its front label. -/
theorem activeUberblockAcrossLabels_imageOf (hk : body.length = k * 1024) (hk' : k ≤ 128)
    (hbody : ∀ i < k, Uberblock.parse ((body.drop (i * 1024)).take 1024) = none) :
    activeUberblockAcrossLabels (imageOf txg rootbp body) = some (uberblockOf txg rootbp) := by
  obtain ⟨j, hjk⟩ : ∃ j, j + k = 128 := ⟨128 - k, by omega⟩
  have hlen : (imageOf txg rootbp body).length = 4194304 + k * 1024 := by
    rw [imageOf, List.length_append, length_frontOf, hk]
  have hbytes : j * 1024 + k * 1024 = 131072 := by rw [← Nat.add_mul, hjk]
  have hsize : labelSize = 262144 := rfl
  have h0 : ringAt (imageOf txg rootbp body) 0 = some (ringOf txg rootbp) :=
    ringAt_of_part (by omega) (length_ringOf _ _) part_ring_imageOf
  have h1 : ringAt (imageOf txg rootbp body) 262144 = some (zeros 131072) :=
    ringAt_of_part (by omega) (length_zeros _) (part_zeros_imageOf (by omega) (by omega))
  have h2 : ringAt (imageOf txg rootbp body) (4194304 + k * 1024 - 2 * 262144) = some (zeros 131072) :=
    ringAt_of_part (by omega) (length_zeros _) (part_zeros_imageOf (by omega) (by omega))
  have h3 : ringAt (imageOf txg rootbp body) (4194304 + k * 1024 - 262144) = some (zeros (j * 1024) ++ body) := by
    have hoff : 4194304 + k * 1024 - 262144 + 131072 = 4194304 - j * 1024 := by omega
    refine ringAt_of_part (by omega) ?_ ?_
    · rw [List.length_append, length_zeros, hk, hbytes]
    · rw [hoff]
      exact part_last_imageOf (by omega)
  have hzeros : activeUberblock (zeros 131072) 1024 128 = none := by
    have hzero : zeros 131072 = zeros (128 * 1024) ++ [] := by rw [List.append_nil]
    rw [hzero]
    exact activeUberblock_of_body (k := 0) rfl rfl fun i hi => absurd hi (Nat.not_lt_zero i)
  have hoffsets : labelOffsetList (imageOf txg rootbp body) =
      [0, 262144, 4194304 + k * 1024 - 2 * 262144, 4194304 + k * 1024 - 262144] := by
    rw [labelOffsetList, hlen, labelOffsets, hsize, if_pos (by omega)]
  have hlast : (zeros (j * 1024) ++ body).length = 131072 := by rw [List.length_append, length_zeros, hk, hbytes]
  rw [activeUberblockAcrossLabels, hoffsets, acrossLabels_of_some h0 (length_ringOf _ _) (activeUberblock_ringOf _ _),
    acrossLabels_of_none h1 (length_zeros _) hzeros, acrossLabels_of_none h2 (length_zeros _) hzeros,
    acrossLabels_of_none h3 hlast (activeUberblock_of_body hk hjk hbody), acrossLabels]

/-- An image names no pool: its configuration is empty. -/
theorem poolConfig_imageOf : poolConfig (imageOf txg rootbp body) = none := by
  have hoff : nvlistOffset = 16384 := rfl
  have hsize : nvlistSize = 114688 := rfl
  have hparts : imageOf txg rootbp body =
      zeros 16384 ++ emptyConfig ++ (ringOf txg rootbp ++ (zeros 3932160 ++ body)) := by
    simp only [imageOf, frontOf, labelOf, List.append_assoc]
  have hpart : Part (imageOf txg rootbp body) 16384 emptyConfig := by
    rw [hparts]
    exact slice?_middle (length_zeros _) rfl
  have hend := hpart.end_le
  rw [length_emptyConfig] at hend
  have hregion : configRegion (imageOf txg rootbp body) 0 = some emptyConfig := by
    unfold configRegion
    rw [hoff, hsize, Nat.zero_add, if_neg (by omega), satAdd_eq (by omega), Nat.min_eq_left (by omega)]
    exact hpart.slice? (by rw [length_emptyConfig])
  rw [poolConfig, hregion]
  dsimp only
  rw [nvlistParse_emptyConfig]
  rfl

/-- A body mounts where its root pointer leads to a filesystem's objset whose master node names a root. -/
theorem open_imageOf {Γ : Ctx} {mos : ObjsetPhys} {zpl : ObjsetPhys} {rootId : UInt64} {registry : SaRegistry}
    {layouts : SaLayouts} {recordSize : Nat} (hk : body.length = k * 1024) (hk' : k ≤ 128)
    (hbody : ∀ i < k, Uberblock.parse ((body.drop (i * 1024)).take 1024) = none)
    (hmos : openBody Γ rootbp body = some (mos, .little)) (hzpl : (zplObjset (bodyDisk Γ body) mos).value = some zpl)
    (htype : zpl.osType = dmuOstZfs) (hroot : (zplMasterRoot (bodyDisk Γ body) zpl).value = some rootId)
    (hcontext : (zplSaContext (bodyDisk Γ body) zpl).value.getD (default, default) = (registry, layouts))
    (hrecord : recordSizeOf (mosDnode (bodyDisk Γ body) zpl rootId).value = recordSize) :
    (ZfsFs.open Γ (imageOf txg rootbp body)).value = .ok
      { image := imageOf txg rootbp body
        zpl := zpl
        registry := registry
        layouts := layouts
        rootId := rootId
        recordSize := recordSize
        poolName := none } := by
  have hdisk := readBlock_imageOf Γ txg rootbp body
  have hdataset : (ZfsFs.openDataset (bodyDisk Γ body) (imageOf txg rootbp body) zpl).value = .ok
      { image := imageOf txg rootbp body
        zpl := zpl
        registry := registry
        layouts := layouts
        rootId := rootId
        recordSize := recordSize
        poolName := none } := by
    rw [ZfsFs.openDataset, if_neg (fun hne => hne htype), value_bind, hroot]
    simp only [value_bind, value_pure, hcontext, hrecord, poolConfig_imageOf, Option.bind_none]
  have hbp : (uberblockOf txg rootbp).rootbpFull = Blkptr.parse rootbp.toList .little := rfl
  have hendian : (uberblockOf txg rootbp).endian = .little := rfl
  unfold openBody at hmos
  rw [ZfsFs.open, activeUberblockAcrossLabels_imageOf hk hk' hbody]
  dsimp only
  rw [hdisk, hbp, hendian]
  cases hblock : bodyDisk Γ body (Blkptr.parse rootbp.toList .little) with
  | error e =>
    rw [hblock] at hmos
    exact absurd hmos (by simp)
  | ok block =>
    rw [hblock] at hmos
    dsimp only at hmos ⊢
    cases hparse : ObjsetPhys.parse block.data .little with
    | error e =>
      rw [hparse] at hmos
      exact absurd hmos (by simp)
    | ok parsed =>
      rw [hparse] at hmos
      simp only [Option.some.injEq, Prod.mk.injEq, and_true] at hmos
      dsimp only
      rw [value_bind, hmos, hzpl]
      exact hdataset

end Image

end ZfsForensic
