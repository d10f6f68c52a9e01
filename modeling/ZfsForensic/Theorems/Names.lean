import ZfsForensic.Lemmas.SnapshotReads
import ZfsForensic.Theorems.Readers

/-!
# Names of directory entries

A name passes through a text conversion on its way out of a directory: what is not UTF-8 becomes the replacement character. The
listing and the lookup of a mount, and the comparison of a snapshot's root with the live one, all see the converted name. They see
the stored one exactly where every stored name is text, and the directory is one the reader of micro-ZAPs knows.
-/

namespace ZfsForensic

open Octets Checked Checked.Run

/-- The data of a directory is one micro-ZAP. -/
def IsDirectory (disk : Disk) (zpl : ObjsetPhys) (dir : UInt64) (r : MzapBlock) : Prop :=
  (zapObjectData disk zpl dir).value = some r.encode

/-- The root directory of a dataset is one micro-ZAP. -/
def IsRootDirectory (disk : Disk) (endian : Endian) (ds : Dnode) (r : MzapBlock) : Prop :=
  ∃ zpl root, datasetZplObjset disk ds endian = some zpl ∧ (zplMasterRoot disk zpl).value = some root ∧
    IsDirectory disk zpl root r

/-- The stored names of a directory, in order. -/
def MzapBlock.names (r : MzapBlock) : List Bytes := r.entries.map MzapEnt.name

/-- Every stored name is text, and the block is little-endian or holds no entry. -/
def MzapBlock.Readable (r : MzapBlock) : Prop :=
  (∀ e ∈ r.entries, IsUtf8 e.name) ∧ (r.endian = .little ∨ r.entries = [])

/-- A mount lists the stored entries of a directory, each under its stored name, and looks a name up as the first entry stored under
it. -/
structure DirectoryNamesSurvive (Γ : Ctx) (fs : ZfsFs) (dir : UInt64) (r : MzapBlock) : Prop where
  readDir : (fs.readDir Γ dir).value = .ok (r.entries.map (fun e => dirEntry (e.name, e.value)))
  lookup : ∀ name, (fs.lookup Γ dir name).value =
    .ok ((r.entries.find? (fun e => e.name == name)).map (fun e => e.value &&& zplDirentObjMask))

/-- Recovery compares the stored names of the snapshots' roots with those of the live root: it recovers a name exactly where no live
entry is stored under it and an entry of a snapshot is whose content reads. -/
structure DiffNamesSurvive (Γ : Ctx) (image : Bytes) (mos : ObjsetPhys) (endian : Endian) (headDs : Dnode) (live : MzapBlock)
    (roots : Snapshot → MzapBlock) : Prop where
  liveRoot : liveNames (readBlock Γ image) endian headDs = live.names
  snapshotRoots : ∀ s ∈ visitedSnapshots (readBlock Γ image) mos headDs,
    (rootListing (readBlock Γ image) endian s.2).map Prod.fst = (roots s).names
  recovered : ∀ name, name ∈ (recoverDeleted Γ image).value.map RecoveredFile.path ↔
    name ∉ live.names ∧ ∃ s ∈ visitedSnapshots (readBlock Γ image) mos headDs, ∃ e ∈ (roots s).entries, e.name = name ∧
      (snapshotContent (readBlock Γ image) endian s (e.value &&& zplDirentObjMask)).isSome = true

namespace MzapBlock

/-- Of a readable block the listing holds the stored names and values. -/
theorem zapList_of_readable {r : MzapBlock} (h : r.Readable) :
    zapList r.encode = r.entries.map (fun e => (e.name, e.value)) := by
  obtain ⟨hutf, hlittle | hempty⟩ := h
  · rw [zapList_of_little hlittle]
    refine List.map_congr_left fun e he => ?_
    rw [MzapEnt.listed, (fromUtf8Lossy_eq_self_iff e.name).2 (hutf e he)]
  · rw [hempty, List.map_nil]
    cases hend : r.endian with
    | big => exact zapList_of_big hend
    | little => rw [zapList_of_little hend, hempty, List.map_nil]

/-- The names of the listing are the stored ones exactly where the block is readable. -/
theorem names_zapList_iff (r : MzapBlock) : (zapList r.encode).map Prod.fst = r.names ↔ r.Readable := by
  constructor
  · intro h
    cases hend : r.endian with
    | big =>
      rw [zapList_of_big hend, List.map_nil, names] at h
      have hempty : r.entries = [] := List.map_eq_nil_iff.1 h.symm
      refine ⟨fun e he => ?_, Or.inr hempty⟩
      rw [hempty] at he
      exact absurd he List.not_mem_nil
    | little =>
      rw [zapList_of_little hend, List.map_map, names] at h
      refine ⟨fun e he => ?_, Or.inl hend⟩
      exact (fromUtf8Lossy_eq_self_iff e.name).1 (List.map_inj_left.1 h e he)
  · intro h
    rw [zapList_of_readable h, List.map_map, names]
    rfl

end MzapBlock

/-! ## The mount -/

/-- The names of the entries of a listing. -/
theorem map_name_dirEntry (l : List (Bytes × UInt64)) : (l.map dirEntry).map DirEntry.name = l.map Prod.fst := by
  rw [List.map_map]
  rfl

/-- A mount's listing of a directory, by its data. -/
theorem ZfsFs.readDir_of_isDirectory {Γ : Ctx} {fs : ZfsFs} {dir : UInt64} {r : MzapBlock}
    (h : IsDirectory (fs.disk Γ) fs.zpl dir r) : (fs.readDir Γ dir).value = .ok ((zapList r.encode).map dirEntry) :=
  (fs.dirEntries_eq_ok_iff Γ dir _).2 ⟨r.encode, h, rfl⟩

/-- A mount's lookup searches its listing. -/
theorem ZfsFs.lookup_of_readDir {Γ : Ctx} {fs : ZfsFs} {dir : UInt64} {entries : List DirEntry}
    (h : (fs.readDir Γ dir).value = .ok entries) (name : Bytes) :
    (fs.lookup Γ dir name).value = .ok ((entries.find? (fun e => e.name == name)).map DirEntry.id) := by
  unfold readDir at h
  rw [lookup, value_bind, h]
  rfl

/-- The names of a directory survive in the mount exactly where it is readable. -/
theorem directoryNamesSurvive_iff {Γ : Ctx} {fs : ZfsFs} {dir : UInt64} {r : MzapBlock}
    (h : IsDirectory (fs.disk Γ) fs.zpl dir r) : DirectoryNamesSurvive Γ fs dir r ↔ r.Readable := by
  have hread := ZfsFs.readDir_of_isDirectory h
  constructor
  · intro hsurvive
    have hentries := hsurvive.readDir
    rw [hread, Except.ok.injEq] at hentries
    have hnames := congrArg (List.map DirEntry.name) hentries
    rw [map_name_dirEntry, List.map_map] at hnames
    exact r.names_zapList_iff.1 hnames
  · intro hreadable
    have hlist : (fs.readDir Γ dir).value = .ok (r.entries.map (fun e => dirEntry (e.name, e.value))) := by
      rw [hread, MzapBlock.zapList_of_readable hreadable, List.map_map]
      rfl
    refine ⟨hlist, fun name => ?_⟩
    rw [ZfsFs.lookup_of_readDir hlist, List.find?_map, Option.map_map]
    rfl

/-! ## The diff -/

/-- The listing of a dataset's root, by its data. -/
theorem rootListing_of_isRootDirectory {disk : Disk} {endian : Endian} {ds : Dnode} {r : MzapBlock}
    (h : IsRootDirectory disk endian ds r) :
    rootListing disk endian ds = (zapList r.encode).map (fun e => (e.1, e.2 &&& zplDirentObjMask)) := by
  obtain ⟨zpl, root, hzpl, hroot, hdata⟩ := h
  rw [rootListing, datasetRootNames, hzpl]
  dsimp only
  rw [value_bind, hroot]
  dsimp only
  rw [zplListDir, value_bind, hdata]
  rfl

/-- Its names. -/
theorem names_rootListing {disk : Disk} {endian : Endian} {ds : Dnode} {r : MzapBlock}
    (h : IsRootDirectory disk endian ds r) : (rootListing disk endian ds).map Prod.fst = (zapList r.encode).map Prod.fst := by
  rw [rootListing_of_isRootDirectory h, List.map_map]
  rfl

/-- The entries of a readable root, by their stored names. -/
theorem mem_rootListing_iff {disk : Disk} {endian : Endian} {ds : Dnode} {r : MzapBlock}
    (h : IsRootDirectory disk endian ds r) (hreadable : r.Readable) (e : Bytes × UInt64) :
    e ∈ rootListing disk endian ds ↔ ∃ s ∈ r.entries, (s.name, s.value &&& zplDirentObjMask) = e := by
  rw [rootListing_of_isRootDirectory h, MzapBlock.zapList_of_readable hreadable, List.map_map, List.mem_map]
  rfl

section Diff

variable {Γ : Ctx} {image : Bytes} {mos : ObjsetPhys} {endian : Endian} {headDs : Dnode} {live : MzapBlock}
  {roots : Snapshot → MzapBlock}

/-- The names survive in the diff exactly where the live root and the roots of the visited snapshots are readable. -/
theorem diffNamesSurvive_iff (hopen : openMos Γ image = some (mos, endian))
    (hhead : (headDataset (readBlock Γ image) mos).value = some headDs)
    (hlive : IsRootDirectory (readBlock Γ image) endian headDs live)
    (hroots : ∀ s ∈ visitedSnapshots (readBlock Γ image) mos headDs,
      IsRootDirectory (readBlock Γ image) endian s.2 (roots s)) :
    DiffNamesSurvive Γ image mos endian headDs live roots ↔
      live.Readable ∧ ∀ s ∈ visitedSnapshots (readBlock Γ image) mos headDs, (roots s).Readable := by
  have hlivenames : liveNames (readBlock Γ image) endian headDs = live.names ↔ live.Readable := by
    rw [liveNames, names_rootListing hlive]
    exact live.names_zapList_iff
  constructor
  · intro h
    refine ⟨hlivenames.1 h.liveRoot, fun s hs => (roots s).names_zapList_iff.1 ?_⟩
    rw [← names_rootListing (hroots s hs)]
    exact h.snapshotRoots s hs
  · rintro ⟨hreadable, hsnapshots⟩
    refine ⟨hlivenames.2 hreadable, fun s hs => ?_, fun name => ?_⟩
    · rw [names_rootListing (hroots s hs)]
      exact (roots s).names_zapList_iff.2 (hsnapshots s hs)
    · rw [value_recoverDeleted hopen, mem_recovered_iff hhead, hlivenames.2 hreadable]
      refine and_congr_right fun _ => exists_congr fun s => and_congr_right fun hs => ?_
      constructor
      · rintro ⟨e, he, hname, hcontent⟩
        obtain ⟨stored, hstored, rfl⟩ := (mem_rootListing_iff (hroots s hs) (hsnapshots s hs) e).1 he
        exact ⟨stored, hstored, hname, hcontent⟩
      · rintro ⟨stored, hstored, hname, hcontent⟩
        exact ⟨_, (mem_rootListing_iff (hroots s hs) (hsnapshots s hs) _).2 ⟨stored, hstored, rfl⟩, hname, hcontent⟩

end Diff

/-- The names of a directory survive in a mount exactly where it is readable, and in the diff of a recovery exactly where the roots it
compares are. -/
theorem names_survive_iff (Γ : Ctx) (image : Bytes) :
    (∀ fs dir r, (ZfsFs.open Γ image).value = .ok fs → IsDirectory (readBlock Γ image) fs.zpl dir r →
      (DirectoryNamesSurvive Γ fs dir r ↔ r.Readable)) ∧
    ∀ mos endian headDs live roots, openMos Γ image = some (mos, endian) →
      (headDataset (readBlock Γ image) mos).value = some headDs →
      IsRootDirectory (readBlock Γ image) endian headDs live →
      (∀ s ∈ visitedSnapshots (readBlock Γ image) mos headDs, IsRootDirectory (readBlock Γ image) endian s.2 (roots s)) →
      (DiffNamesSurvive Γ image mos endian headDs live roots ↔
        live.Readable ∧ ∀ s ∈ visitedSnapshots (readBlock Γ image) mos headDs, (roots s).Readable) := by
  refine ⟨fun fs dir r hopen hdir => ?_, fun mos endian headDs live roots => diffNamesSurvive_iff⟩
  rw [← ZfsFs.disk_of_open hopen] at hdir
  exact directoryNamesSurvive_iff hdir

/-! ## Written directories -/

/-- The micro-ZAP a directory of a volume is written as. -/
def VolDir.block (d : VolDir) : MzapBlock where
  endian := .little
  salt := 0
  normflags := 0
  slots := (d.entries.map fun e => .entry e.ent) ++ List.replicate (8 * d.sectors.toNat - 1 - d.entries.length) (.free (.replicate 14 0) (.replicate 49 0))

/-- Free slots of zeros. -/
theorem flatMap_encode_free (e : Endian) (n : Nat) :
    (List.replicate n (MzapSlot.free (.replicate 14 0) (.replicate 49 0))).flatMap (MzapSlot.encode e) = zeros (mzapEntSize * n) := by
  have hfree : MzapSlot.encode e (.free (.replicate 14 0) (.replicate 49 0)) = zeros mzapEntSize := by cases e <;> decide
  induction n with
  | zero => rfl
  | succ n ih => rw [List.replicate_succ, List.flatMap_cons, ih, hfree, zeros, zeros, zeros, List.replicate_append_replicate, Nat.mul_succ, Nat.add_comm]

theorem VolDir.encode_block (d : VolDir) : d.block.encode = zapBytes (d.entries.map VolEntry.ent) d.sectors.toNat := by
  have hentries : (d.entries.map fun e => MzapSlot.entry e.ent).flatMap (MzapSlot.encode .little) =
      (d.entries.map VolEntry.ent).flatMap (MzapEnt.encode .little) := by
    rw [List.flatMap_map, List.flatMap_map]
    rfl
  rw [MzapBlock.encode, VolDir.block, List.flatMap_append, flatMap_encode_free, hentries, zapBytes, zapSectors, MzapPhys.encode,
    MzapPhys.encodeHdr, mzapHdr, List.length_map]
  simp only [List.append_assoc]

/-- It holds the entries of the directory. -/
theorem VolDir.entries_block (d : VolDir) : d.block.entries = d.entries.map VolEntry.ent := by
  have hfree : ∀ n, (List.replicate n (MzapSlot.free (.replicate 14 0) (.replicate 49 0))).filterMap MzapSlot.entry? = [] := by
    intro n
    rw [List.filterMap_replicate]
    rfl
  rw [MzapBlock.entries, VolDir.block, List.filterMap_append, hfree, List.append_nil, List.filterMap_map, ← List.filterMap_eq_map]
  rfl

/-- The names of a directory of a volume are text. -/
theorem VolDir.readable_block (d : VolDir) : d.block.Readable := by
  refine ⟨fun e he => ?_, Or.inl rfl⟩
  rw [d.entries_block] at he
  obtain ⟨entry, -, rfl⟩ := List.mem_map.1 he
  exact entry.name_utf8

/-- The root of a volume under a dataset is the micro-ZAP of its directory. -/
theorem Packer.DatasetAt.isRootDirectory {Γ : Ctx} {P : Packer Γ} {image : Bytes} {ds : Dnode} {v : Volume} (h : P.DatasetAt image ds v)
    {attrs : ZplAttrs} {d : VolDir} {known : attrs.unknownAttrIds = []} (hroot : v.object? v.root = some (.dir attrs d known)) :
    IsRootDirectory (readBlock Γ image) .little ds d.block := by
  obtain ⟨s, hzpl, hat⟩ := h
  refine ⟨_, v.root, hzpl, hat.find_root P, ?_⟩
  rw [IsDirectory, d.encode_block]
  exact hat.read_dir P hroot

/-- The roots of the small pool: of the head, and of the two snapshots. -/
def headRoot : VolDir where
  entries := [entryA, entryD, entrySparse]
  sectors := 1
  room := by decide

def newerRoot : VolDir where
  entries := [entryA, entryGone]
  sectors := 1
  room := by decide

def olderRoot : VolDir where
  entries := [entryGone, entryA, entryOld]
  sectors := 1
  room := by decide

/-- In the small pool the names of the live root survive in the mount, and those of the live root and of the different roots of two snapshots in
the diff. -/
theorem names_survive_smallPool :
    ∃ fs mos headDs newerDs olderDs, (ZfsFs.open plainCtx smallImage).value = .ok fs ∧ DirectoryNamesSurvive plainCtx fs 5 headRoot.block ∧
      visitedSnapshots (readBlock plainCtx smallImage) mos headDs = [(4, newerDs), (5, olderDs)] ∧
      DiffNamesSurvive plainCtx smallImage mos .little headDs headRoot.block
        (fun s => if s.1 = 4 then newerRoot.block else olderRoot.block) := by
  obtain ⟨hdirectory, hdiff⟩ := names_survive_iff plainCtx smallImage
  obtain ⟨s, hopen, hat⟩ := poolAt_smallImage.open
  obtain ⟨mos, headDs, newerDs, olderDs, h⟩ := exists_smallReads
  refine ⟨_, mos, headDs, newerDs, olderDs, hopen, ?_, h.visited, ?_⟩
  · have hroot : IsDirectory (readBlock plainCtx smallImage) ((Packer.stored plainCtx).objsetAt s smallHead.objset) 5 headRoot.block := by
      rw [IsDirectory, headRoot.encode_block]
      exact hat.read_dir _ rfl
    exact (hdirectory _ 5 headRoot.block hopen hroot).2 headRoot.readable_block
  · refine (hdiff mos .little headDs headRoot.block _ h.opened h.head (h.headAt.isRootDirectory rfl) fun s hs => ?_).2
      ⟨headRoot.readable_block, fun s hs => ?_⟩
    · rw [h.visited] at hs
      simp only [List.mem_cons, List.not_mem_nil, or_false] at hs
      rcases hs with rfl | rfl
      · exact h.newerAt.isRootDirectory (d := newerRoot) rfl
      · exact h.olderAt.isRootDirectory (d := olderRoot) rfl
    · split
      · exact newerRoot.readable_block
      · exact olderRoot.readable_block

/-- Two names of the pool without System Attributes, each one byte that is not text, are listed as the same name, and neither is
found. -/
theorem readDir_legacyImage :
    (ZfsFs.open plainCtx legacyImage).value = .ok legacyFs ∧
      IsDirectory (readBlock plainCtx legacyImage) legacyFs.zpl 2 legacyRoot ∧
      legacyRoot.names = [[0x66], [0xff], [0xfe]] ∧
      (legacyFs.readDir plainCtx 2).value.map (List.map DirEntry.name) = .ok [[0x66], replacementChar, replacementChar] ∧
      (legacyFs.lookup plainCtx 2 [0xff]).value = .ok none ∧
      ¬ DirectoryNamesSurvive plainCtx legacyFs 2 legacyRoot := by
  obtain ⟨-, -, -, hdata, -⟩ := facts_legacyImage
  have hopen := open_legacyImage
  have hdir : IsDirectory (legacyFs.disk plainCtx) legacyFs.zpl 2 legacyRoot := by
    rw [ZfsFs.disk_of_open hopen]
    exact hdata
  have hread := ZfsFs.readDir_of_isDirectory hdir
  have hlist : (zapList legacyRoot.encode).map dirEntry =
      [⟨[0x66], 3, .file⟩, ⟨replacementChar, 3, .file⟩, ⟨replacementChar, 3, .file⟩] := by
    rw [MzapBlock.zapList_of_little rfl]
    decide
  rw [hlist] at hread
  have hlookup : (legacyFs.lookup plainCtx 2 [0xff]).value = .ok none := ZfsFs.lookup_of_readDir hread [0xff]
  refine ⟨hopen, hdata, by decide, ?_, hlookup, fun h => ?_⟩
  · rw [hread]
    rfl
  · have hstored := h.lookup [0xff]
    rw [hlookup, Except.ok.injEq] at hstored
    exact absurd hstored (by decide)

end ZfsForensic
