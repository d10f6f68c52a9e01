import ZfsForensic.Lemmas.WriteSize

/-!
# A small pool

The head of this pool holds a directory with a file, a directory, and a sparse file over an indirect block. Its two snapshots hold older files of
one of these names, a file in two versions that is gone since, and one that only the older snapshot has. Its attributes are registered under the ids
of the file system, in the order of its own layout, and its ring has uberblocks before and behind the current one.
-/

namespace ZfsForensic

open Octets

/-! ## Attributes -/

/-- The ids of the attributes. -/
def smallId : CoreAttr → UInt16
  | .atime => 0
  | .mtime => 1
  | .ctime => 2
  | .crtime => 3
  | .gen => 4
  | .mode => 5
  | .size => 6
  | .parent => 7
  | .links => 8
  | .flags => 11
  | .uid => 12
  | .gid => 13

/-- Their order in the layout. -/
def smallOrder : List CoreAttr :=
  [.mode, .size, .gen, .uid, .gid, .parent, .flags, .atime, .mtime, .ctime, .crtime, .links]

theorem CoreAttr.name_nul (c : CoreAttr) : c.name.all (· != 0) = true := by cases c <;> rfl

/-- The registration of an attribute: its id, and its size above. -/
def registryEnt (c : CoreAttr) : MzapEnt where
  value := (UInt64.ofNat c.need <<< 24) ||| (smallId c).toUInt64
  cd := 0
  name := c.name
  name_ne := by cases c <;> decide
  name_le := by cases c <;> decide
  name_nul := by simpa using c.name_nul

/-- The registry. -/
def smallRegistry : Bytes := zapBytes (smallOrder.map registryEnt) 2

/-- A chunk of an array in a leaf: 21 bytes, and the next chunk. -/
def leafArray (payload : Bytes) (next : Nat) : Bytes := zapChunkArray :: (payload ++ zeros (21 - payload.length) ++ encode .little 2 next)

/-- The layouts: a fat ZAP of one leaf, which names layout 2, its ids over two chunks. -/
def smallLayouts : Bytes :=
  [encode .little 8 zbtHeader.toNat, zeros 504, encode .little 8 zbtLeaf.toNat, zeros 16, encode .little 4 zapLeafMagic.toNat, zeros 52,
    zapChunkEntry :: 2 :: encodeWords .little 2 [0xffff, 1, 2, 2, 12] ++ zeros 12,
    leafArray (ascii "2" ++ [0]) 0xffff, leafArray [0, 5, 0, 6, 0, 4, 0, 12, 0, 13, 0, 7, 0, 11, 0, 0, 0, 1, 0, 2, 0] 3,
    leafArray [3, 0, 8] 0xffff, zeros 336].flatten

/-- What the tables hold. -/
theorem parse_smallTables :
    parseSaRegistry smallRegistry = ⟨smallOrder.map fun c => (c.name, { id := smallId c, size := UInt16.ofNat c.need, bswap := 0 })⟩ ∧
      parseSaLayouts smallLayouts = ⟨[(2, smallOrder.map smallId)]⟩ ∧ smallLayouts.length = 512 * 2 := by
  decide +kernel

/-- The tables of the pool. -/
def smallTables : SaTables where
  registryZap := smallRegistry
  layoutsZap := smallLayouts
  registry_whole := whole_zapBytes (by decide) (by decide)
  layouts_whole := ⟨2, by decide, by decide, parse_smallTables.2.2⟩
  order :=
    { num := 2
      order := smallOrder
      id := smallId
      num_lt := by decide
      nodup := by decide
      complete := by intro c; cases c <;> decide
      id_inj := by intro c c' h; cases c <;> cases c' <;> first | rfl | exact absurd h (by decide)
      layout := by rw [parse_smallTables.2.1]; rfl
      named := by intro c; rw [parse_smallTables.1]; cases c <;> decide
      sized := by intro c; rw [parse_smallTables.1]; cases c <;> decide }

/-! ## Volumes -/

/-- An entry of a directory. -/
def smallEntry (name : String) (code : Nat) (object : UInt64) (hname : PlainName name) (hcode : code < 16)
    (hge : firstObject ≤ object.toNat) (hlt : object.toNat < 2 ^ 48) : VolEntry where
  name := ascii name
  code := code
  object := object
  name_ne := hname.ne
  name_le := hname.le
  name_nul := hname.nul
  name_utf8 := hname.utf8
  code_lt := hcode
  object_ge := hge
  object_lt := hlt

theorem plain_a : PlainName "a" := .of_checks (by decide) (by decide) (by decide)

theorem plain_b : PlainName "b" := .of_checks (by decide) (by decide) (by decide)

theorem plain_d : PlainName "d" := .of_checks (by decide) (by decide) (by decide)

theorem plain_gone : PlainName "gone" := .of_checks (by decide) (by decide) (by decide)

theorem plain_old : PlainName "old" := .of_checks (by decide) (by decide) (by decide)

theorem plain_sparse : PlainName "sparse" := .of_checks (by decide) (by decide) (by decide)

/-- A sector of bytes takes one record. -/
theorem fileRecords_sector {len : Nat} (h : len ≤ 512) : fileRecords len (512 * (1 : UInt16).toNat) = 1 := by
  have hone : 512 * (1 : UInt16).toNat = 512 := rfl
  rw [hone, fileRecords]
  omega

theorem oneSector_pos : 0 < (1 : UInt16).toNat := by decide

/-- A tree of no levels. -/
theorem flat_le : 0 ≤ 6 := by decide

/-- A file of one record. -/
def smallFile (data : Bytes) (hdata : data.length ≤ 512) : VolObject :=
  .file { ZplAttrs.default with mode := 0o100644, size := UInt64.ofNat data.length, links := 1, mtime := (7, 5) }
    { data := data
      sectors := 1
      height := 0
      sectors_pos := oneSector_pos
      height_le := flat_le
      count := by rw [fileRecords_sector hdata]; decide
      cap := by rw [fileRecords_sector hdata]; decide }
    rfl (by rw [UInt64.toNat_ofNat']; exact Nat.mod_eq_of_lt (by omega))

/-- Three records, the second of zeros. -/
def sparseData : Bytes := List.replicate 512 7 ++ zeros 512 ++ [8, 9]

theorem length_sparseData : sparseData.length = 1026 := by
  rw [sparseData, List.length_append, List.length_append, List.length_replicate, length_zeros]
  rfl

theorem fileRecords_sparseData : fileRecords sparseData.length (512 * (1 : UInt16).toNat) = 3 := by
  rw [length_sparseData]
  rfl

/-- A tree of one level. -/
theorem oneLevel_le : 1 ≤ 6 := by decide

theorem count_sparseData : fileRecords sparseData.length (512 * (1 : UInt16).toNat) ≤ 1024 ^ 1 := by
  rw [fileRecords_sparseData]
  decide

theorem cap_sparseData : 512 * (1 : UInt16).toNat * fileRecords sparseData.length (512 * (1 : UInt16).toNat) ≤ maxFileBytes := by
  rw [fileRecords_sparseData]
  decide

/-- A file of these records, under one level of indirect blocks. -/
def sparseVolFile : VolFile where
  data := sparseData
  sectors := 1
  height := 1
  sectors_pos := oneSector_pos
  height_le := oneLevel_le
  count := count_sparseData
  cap := cap_sparseData

/-- Its attributes. -/
def sparseAttrs : ZplAttrs := { ZplAttrs.default with mode := 0o100644, size := 1026, links := 1 }

theorem sparseAttrs_known : sparseAttrs.unknownAttrIds = [] := rfl

theorem sparseAttrs_size : sparseAttrs.size.toNat = sparseVolFile.data.length := by
  have hdata : sparseVolFile.data = sparseData := rfl
  rw [hdata, length_sparseData]
  rfl

/-- The object of the file. -/
def sparseFile : VolObject := .file sparseAttrs sparseVolFile sparseAttrs_known sparseAttrs_size

/-- Its records: one of data, one of zeros, and one filled up with zeros. -/
theorem records_sparseFile (tables : SaTables) :
    (sparseFile.dmu tables).records = [List.replicate 512 7, zeros 512, [8, 9] ++ zeros 510] := by
  have hdata : sparseVolFile.data = sparseData := rfl
  have hsectors : sparseVolFile.sectors = 1 := rfl
  have hsize : 512 * (1 : UInt16).toNat = 512 := rfl
  have hcount := fileRecords_sparseData
  rw [hsize] at hcount
  have hpad : 512 * 3 - 1026 = 510 := rfl
  rw [sparseFile, VolObject.records_file, VolFile.padded, hdata, hsectors, hsize, hcount, length_sparseData, hpad]
  decide +kernel

/-- A directory of one sector. -/
def smallDir (entries : List VolEntry) (hroom : entries.length ≤ 7) : VolObject :=
  .dir { ZplAttrs.default with mode := 0o040755, size := 3, links := 2 }
    { entries := entries, sectors := 1, room := Nat.succ_le_succ hroom } rfl

theorem perBlock_eight_pos : 0 < (8 : UInt16).toNat := by decide

/-- A volume of a few objects. Their dnodes take two blocks, under an indirect one. -/
def smallVolume (objects : List VolObject) (hroot : ((objectAt objects 5).bind VolObject.entries?).isSome = true)
    (hcount : objects.length ≤ 4) : Volume where
  tables := smallTables
  objects := objects
  root := 5
  perBlock := 8
  height := 1
  root_dir := hroot
  perBlock_pos := perBlock_eight_pos
  height_le := oneLevel_le
  count := by
    have hblock : (8 : UInt16).toNat * 1024 ^ 1 = 8192 := rfl
    have hfirst : firstObject = 5 := rfl
    omega

/-- The entries of its roots, and of the directory. -/
def entryA : VolEntry := smallEntry "a" 8 6 plain_a (by decide) (by decide) (by decide)

def entryB : VolEntry := smallEntry "b" 8 6 plain_b (by decide) (by decide) (by decide)

def entryD : VolEntry := smallEntry "d" 4 7 plain_d (by decide) (by decide) (by decide)

def entryGone : VolEntry := smallEntry "gone" 8 7 plain_gone (by decide) (by decide) (by decide)

def entryOld : VolEntry := smallEntry "old" 8 8 plain_old (by decide) (by decide) (by decide)

def entrySparse : VolEntry := smallEntry "sparse" 8 8 plain_sparse (by decide) (by decide) (by decide)

/-- The directory below the root. -/
def smallSubdir : VolObject := smallDir [entryB] (by decide)

/-- The head: its root names the file, a directory, which names the file again, and the sparse file. -/
def smallHead : Volume :=
  smallVolume [smallDir [entryA, entryD, entrySparse] (by decide), smallFile [1, 2, 3] (by decide), smallSubdir, sparseFile] rfl (by decide)

/-- The newer snapshot: its root names an older file, and one that is gone since. -/
def smallSnapshot : Volume :=
  smallVolume [smallDir [entryA, entryGone] (by decide), smallFile [1] (by decide), smallFile [4, 5] (by decide)] rfl (by decide)

/-- The older snapshot: its root names older versions of both, and one that is not in the newer. -/
def olderSnapshot : Volume :=
  smallVolume [smallDir [entryGone, entryA, entryOld] (by decide), smallFile [0] (by decide), smallFile [9] (by decide),
    smallFile [6] (by decide)] rfl (by decide)

/-! ## The pool -/

/-- The configuration: the version, the name, the guid and a tree of one vdev, of slots of 4 KiB. -/
def smallConfig : XdrList :=
  .leaf (ascii "version") 32 (.u64 5000) (.leaf (ascii "name") 32 (.str (ascii "tank")) (.leaf (ascii "pool_guid") 32 (.u64 7)
    (.nested (ascii "vdev_tree") 48 0 1 (.leaf (ascii "ashift") 32 (.u64 12) .nil) .nil)))

theorem smallConfig_stored : smallConfig.Stored := by
  have hversion : IsUtf8 (ascii "version") := (fromUtf8Lossy_eq_self_iff _).1 (by decide)
  have hname : IsUtf8 (ascii "name") := (fromUtf8Lossy_eq_self_iff _).1 (by decide)
  have htank : IsUtf8 (ascii "tank") := (fromUtf8Lossy_eq_self_iff _).1 (by decide)
  have hguid : IsUtf8 (ascii "pool_guid") := (fromUtf8Lossy_eq_self_iff _).1 (by decide)
  have htree : IsUtf8 (ascii "vdev_tree") := (fromUtf8Lossy_eq_self_iff _).1 (by decide)
  have hashift : IsUtf8 (ascii "ashift") := (fromUtf8Lossy_eq_self_iff _).1 (by decide)
  refine ⟨by decide, fun _ => hversion, trivial, by decide, by decide, fun _ => hname, ⟨htank, by decide⟩, by decide, by decide,
    fun _ => hguid, trivial, by decide, by decide, htree, ?_, by decide, by decide, trivial⟩
  exact ⟨by decide, fun _ => hashift, trivial, by decide, trivial⟩

/-- An uberblock of a ring that is not the current one, of a transaction group. -/
def staleUberblock (txg : UInt64) : Uberblock :=
  { endian := .little
    magic := uberblockMagic
    version := 5000
    txg := txg
    guidSum := 7
    timestamp := 0
    rootbp := (bodyPtr 0 2 7 11 0).summary
    rootbpRaw := (bodyPtr 0 2 7 11 0).encodeVector .little }

theorem staleUberblock_stored (txg : UInt64) : (staleUberblock txg).Stored := by
  have hptr : (bodyPtr 0 2 7 11 0).Stored := bodyPtr_stored 7 11 (by decide) (by decide) (by decide)
  have hfull : (staleUberblock txg).rootbpFull = bodyPtr 0 2 7 11 0 := Blkptr.parse_encode hptr .little
  exact ⟨rfl, by rw [hfull]; exact hptr, by rw [hfull]; rfl⟩

/-- The slots in front of the current uberblock: the last holds an older one, in the other byte order. -/
def slotsBefore : List (Option RingSlot) := List.replicate 4 none ++ [some ⟨.big, staleUberblock 8⟩]

/-- The slots behind it: the first holds one of the same transaction group. -/
def slotsAfter : List (Option RingSlot) := some ⟨.little, staleUberblock 9⟩ :: List.replicate 25 none

theorem mem_slotsBefore {s : RingSlot} (h : some s ∈ slotsBefore) : s = ⟨.big, staleUberblock 8⟩ := by
  simpa [slotsBefore] using h

theorem mem_slotsAfter {s : RingSlot} (h : some s ∈ slotsAfter) : s = ⟨.little, staleUberblock 9⟩ := by
  simpa [slotsAfter] using h

/-- The pool: its current uberblock is the sixth of a ring of 32. -/
def smallPool : Pool where
  config := smallConfig
  before := slotsBefore
  after := slotsAfter
  version := 5000
  txg := 9
  guidSum := 7
  timestamp := 0
  perBlock := 8
  height := 0
  head := smallHead
  snapshots := [smallSnapshot, olderSnapshot]
  config_stored := smallConfig_stored
  config_count := by decide
  config_depth := by decide
  config_fits := by
    have hlen : (smallConfig.pack 1 0 0 0 1).length = 212 := rfl
    rw [hlen]
    decide
  ring_count := by
    have hshift : slotShift smallConfig.tree = 12 := by decide
    rw [hshift]
    rfl
  ring_stored := by
    intro s hs
    rcases List.mem_append.1 hs with hs | hs
    · rw [mem_slotsBefore hs]
      exact staleUberblock_stored 8
    · rw [mem_slotsAfter hs]
      exact staleUberblock_stored 9
  older := by
    intro s hs
    rw [mem_slotsBefore hs]
    decide
  newer := by
    intro s hs
    rw [mem_slotsAfter hs]
    decide
  perBlock_pos := perBlock_eight_pos
  height_le := flat_le
  count := by decide
  snapshots_le := by decide

/-! ## Its size -/

theorem VolObject.fewBlocks_smallDir (tables : SaTables) (entries : List VolEntry) (hroom : entries.length ≤ 7) :
    ((smallDir entries hroom).dmu tables).FewBlocks 6 := by
  have hone : ((smallDir entries hroom).dmu tables).FewBlocks 1 := Nat.le_refl 1
  rw [DmuObject.FewBlocks] at hone ⊢
  omega

theorem VolObject.fewBlocks_smallFile (tables : SaTables) (data : Bytes) (hdata : data.length ≤ 512) :
    ((smallFile data hdata).dmu tables).FewBlocks 6 := by
  refine VolObject.fewBlocks_file _ _ _ _ _ ?_
  dsimp only
  rw [fileRecords_sector hdata]
  decide

theorem VolObject.fewBlocks_sparseFile (tables : SaTables) : (sparseFile.dmu tables).FewBlocks 6 := by
  refine VolObject.fewBlocks_file _ _ _ _ _ ?_
  have hcount : fileRecords sparseVolFile.data.length (512 * sparseVolFile.sectors.toNat) = 3 := fileRecords_sparseData
  rw [hcount]
  decide

/-- The objects of the volumes have six blocks at most, and the arrays of their dnodes one level. -/
theorem smallPool_few {v : Volume} (hv : v ∈ smallPool.datasets) :
    v.objset.height = 1 ∧ (∀ o ∈ v.objset.objects, o.FewBlocks 6) ∧ v.objset.objects.length ≤ 8 := by
  have hcases : v = smallHead ∨ v = smallSnapshot ∨ v = olderSnapshot := by simpa [Pool.datasets, smallPool] using hv
  rcases hcases with rfl | rfl | rfl
  all_goals
    refine ⟨rfl, Volume.fewBlocks (by decide) fun o ho => ?_, by decide⟩
    simp only [smallHead, smallSnapshot, olderSnapshot, smallVolume, List.mem_cons, List.not_mem_nil, or_false] at ho
  · rcases ho with rfl | rfl | rfl | rfl
    · exact VolObject.fewBlocks_smallDir _ _ _
    · exact VolObject.fewBlocks_smallFile _ _ _
    · exact VolObject.fewBlocks_smallDir _ _ _
    · exact VolObject.fewBlocks_sparseFile _
  · rcases ho with rfl | rfl | rfl
    · exact VolObject.fewBlocks_smallDir _ _ _
    · exact VolObject.fewBlocks_smallFile _ _ _
    · exact VolObject.fewBlocks_smallFile _ _ _
  · rcases ho with rfl | rfl | rfl | rfl
    · exact VolObject.fewBlocks_smallDir _ _ _
    · exact VolObject.fewBlocks_smallFile _ _ _
    · exact VolObject.fewBlocks_smallFile _ _ _
    · exact VolObject.fewBlocks_smallFile _ _ _

theorem length_smallPool {Γ : Ctx} (P : Packer Γ) : (P.writePool smallPool).length < 2 ^ 59 := by
  have hvolume : ∀ v ∈ smallPool.datasets, ∀ s, sectorsOf (P.writeObjset s v.objset) ≤ 67 * 2 ^ 16 := by
    intro v hv s
    obtain ⟨hheight, hfew, hlen⟩ := smallPool_few hv
    have hle := P.sectorsOf_writeObjset_le s hfew
    rw [hheight] at hle
    exact hle.trans (Nat.mul_le_mul_right _ (by omega))
  have hvolumes := P.sectorsOf_writeVolumes_le 0 hvolume
  have hmos := P.sectorsOf_writeObjset_le (P.mosSector smallPool) (P.fewBlocks_mos smallPool)
  have hcount : smallPool.datasets.length = 3 := rfl
  have hobjects : (P.mos smallPool).objects.length = 5 := rfl
  have hheight : (P.mos smallPool).height = 0 := rfl
  have hsector : P.mosSector smallPool = sectorsOf (P.writeVolumes 0 smallPool.datasets) := rfl
  obtain ⟨hsectored, hsum⟩ := P.sectored_body smallPool
  rw [hcount, ← hsector] at hvolumes
  rw [hobjects, hheight] at hmos
  refine P.length_writePool_lt ?_
  rw [hsectored, hsum]
  omega

/-! ## Its image -/

/-- The image of the small pool. -/
def smallImage : Bytes := (Packer.stored plainCtx).writePool smallPool

theorem poolAt_smallImage : (Packer.stored plainCtx).PoolAt smallImage smallPool :=
  (Packer.stored plainCtx).poolAt_writePool (length_smallPool _)

/-- The records of the sparse file. -/
def sparseRecords : List Bytes := [List.replicate 512 7, zeros 512, [8, 9] ++ zeros 510]

/-- What a reader meets of the sparse file: its dnode under some object set, of three blocks of 512 bytes below one level of indirect ones. -/
structure SparseReads (zpl : ObjsetPhys) (sector : Nat) (d : Dnode) : Prop where
  resolved : (mosDnode (readBlock plainCtx smallImage) zpl 8).value = some d
  written : (Packer.stored plainCtx).WrittenAt smallImage sector (sparseFile.dmu smallTables)
  dnode : d = (Packer.stored plainCtx).dnodeAt sector (sparseFile.dmu smallTables)
  content : (zplReadFileWith (readBlock plainCtx smallImage) zpl 8 (some 1026)).value = .ok sparseData

theorem exists_sparseReads : ∃ zpl sector d, SparseReads zpl sector d := by
  obtain ⟨s, -, hat⟩ := poolAt_smallImage.open
  have hobject : smallHead.object? 8 = some sparseFile := rfl
  obtain ⟨hid, ho⟩ := Volume.objset_object hobject
  obtain ⟨sector, hd, hwritten⟩ := hat.resolve (Packer.stored plainCtx) hid ho
  have hsize : sparseFile.attrs.size = 1026 := rfl
  have hdata : sparseFile.content = sparseData := rfl
  have hcontent := hat.read_content (Packer.stored plainCtx) hobject
  rw [hsize, hdata] at hcontent
  refine ⟨_, sector, _, ?_, hwritten, rfl, hcontent⟩
  rw [hd, Checked.Run.value_pure]
  rfl

section Sparse

variable {zpl : ObjsetPhys} {sector : Nat} {d : Dnode} (h : SparseReads zpl sector d)
include h

theorem SparseReads.shape : d.dnNlevels = 2 ∧ d.dnMaxblkid = 2 ∧ d.dataBlockSize = 512 ∧ d.topLevel = 1 ∧ d.ShiftsFit := by
  have hrecords := records_sparseFile smallTables
  have hlast : UInt64.ofNat ((sparseFile.dmu smallTables).records.length - 1) = 2 := by rw [hrecords]; rfl
  rw [h.dnode]
  exact ⟨rfl, hlast, (Packer.stored plainCtx).dataBlockSize_dnodeAt sector _, (Packer.stored plainCtx).topLevel_dnodeAt sector _,
    (Packer.stored plainCtx).shiftsFit_dnodeAt sector _⟩

theorem SparseReads.counts : zapBlockCount d = 3 ∧ fileBlockCount d = 3 := by
  obtain ⟨-, hlast, hsize, -⟩ := h.shape
  rw [zapBlockCount, fileBlockCount, hlast, hsize]
  exact ⟨rfl, rfl⟩

/-- Its blocks are its records. -/
theorem SparseReads.read {i : Nat} {r : Bytes} (hr : sparseRecords[i]? = some r) :
    ∃ verdict, readDnodeData (readBlock plainCtx smallImage) d (UInt64.ofNat i) = pure (.ok ⟨r, verdict, 0⟩) := by
  have hrecords : (sparseFile.dmu smallTables).records[i]? = some r := by rw [records_sparseFile]; exact hr
  rw [h.dnode]
  exact ⟨_, h.written.read_record (Packer.stored plainCtx) hrecords⟩

/-- Each of the three has the block size. -/
theorem SparseReads.exists_read {i : Nat} (hi : i < 3) :
    ∃ r verdict, readDnodeData (readBlock plainCtx smallImage) d (UInt64.ofNat i) = pure (.ok ⟨r, verdict, 0⟩) ∧ r.length = 512 := by
  obtain ⟨r, hr⟩ : ∃ r, sparseRecords[i]? = some r := ⟨_, List.getElem?_eq_getElem hi⟩
  have hlen : ∀ r ∈ sparseRecords, r.length = 512 := by
    intro r hr
    simp only [sparseRecords, List.mem_cons, List.not_mem_nil, or_false] at hr
    rcases hr with rfl | rfl | rfl
    · exact List.length_replicate
    · exact length_zeros 512
    · rw [List.length_append, length_zeros]
      rfl
  obtain ⟨verdict, hread⟩ := h.read hr
  exact ⟨r, verdict, hread, hlen r (List.mem_of_getElem? hr)⟩

/-- So every block is whole. -/
theorem SparseReads.wholeBlocks : WholeBlocks (readBlock plainCtx smallImage) d := by
  intro blkid hblkid
  obtain ⟨-, hlast, hsize, -⟩ := h.shape
  have htwo : (2 : UInt64).toNat = 2 := rfl
  rw [hlast, UInt64.le_iff_toNat_le, htwo] at hblkid
  obtain ⟨r, verdict, hread, hlen⟩ := h.exists_read (Nat.lt_succ_of_le hblkid)
  rw [UInt64.ofNat_toNat] at hread
  exact ⟨⟨r, verdict, 0⟩, by rw [hread, Checked.Run.value_pure], by rw [hsize, hlen]⟩

end Sparse

end ZfsForensic
