import ZfsForensic.Lemmas.ObjectRead
import ZfsForensic.Lemmas.SaImage

/-!
# Two readers of one filesystem

The functions on an objset and the mount read the same objects and list the same directories, but take the decoding context of
System Attributes differently: the functions need it before they look at any bonus, the mount goes on without it and still decodes
a legacy bonus. Where a filesystem has the context they agree; where it has none they agree as long as no legacy bonus makes a
difference.
-/

namespace ZfsForensic

open Octets Checked Checked.Run

/-! ## File content -/

/-- The content a mount serves for an object, and what it reads of it at an offset, are what `zplReadFile` reads, or all are
errors. -/
def ReadersAgree (Γ : Ctx) (image : Bytes) (fs : ZfsFs) (id : UInt64) : Prop :=
  (fs.content Γ id).value.toOption = (zplReadFile (readBlock Γ image) fs.zpl id).value.toOption ∧
    ∀ off len, (fs.readAt Γ id off len).value.toOption =
      (zplReadFile (readBlock Γ image) fs.zpl id).value.toOption.map (fun bytes => (bytes.drop off.toNat).take len)

/-- What is read at an offset agrees where the content does. -/
theorem readersAgree_iff_content (Γ : Ctx) (image : Bytes) (fs : ZfsFs) (id : UInt64) :
    ReadersAgree Γ image fs id ↔
      (fs.content Γ id).value.toOption = (zplReadFile (readBlock Γ image) fs.zpl id).value.toOption := by
  constructor
  · intro h
    exact h.1
  · intro h
    refine ⟨h, fun off len => ?_⟩
    rw [ZfsFs.toOption_readAt, h]

/-- The two readers of a mounted filesystem agree on an object exactly where the filesystem has a decoding context, or the object
has no legacy bonus that decodes, or it does not read, or its blocks hold no more bytes than the size in that bonus. -/
theorem readers_agree_iff (Γ : Ctx) (image : Bytes) (fs : ZfsFs) (hopen : (ZfsFs.open Γ image).value = .ok fs)
    (id : UInt64) :
    ReadersAgree Γ image fs id ↔
      (zplSaContext (readBlock Γ image) fs.zpl).value.isSome = true ∨
        ∀ d attrs, (mosDnode (readBlock Γ image) fs.zpl id).value = some d → legacyAttrs d = some attrs →
          ¬ FileReads (readBlock Γ image) d ∨ (fileBytes (readBlock Γ image) d).length ≤ attrs.size.toNat := by
  rw [readersAgree_iff_content, ZfsFs.toOption_content, ZfsFs.disk_of_open hopen]
  cases hctx : (zplSaContext (readBlock Γ image) fs.zpl).value with
  | some context =>
    obtain ⟨registry, layouts⟩ := context
    rw [value_zplReadFile_of_context hctx, ZfsFs.attrs_of_context hopen hctx]
    simp
  | none =>
    rw [value_zplReadFile_of_none hctx, ZfsFs.value_attrs_of_none hopen hctx]
    simp only [Option.isSome_none, Bool.false_eq_true, false_or]
    cases hd : (mosDnode (readBlock Γ image) fs.zpl id).value with
    | none => simp [toOption_of_absent hd]
    | some d =>
      rw [Option.bind_some]
      cases hattrs : legacyAttrs d with
      | none =>
        simp only [Option.map_none, Option.some.injEq, true_iff]
        rintro _ attrs rfl hsome
        rw [hattrs] at hsome
        exact absurd hsome (by simp)
      | some attrs =>
        rw [Option.map_some, zplReadFileWith_cut_iff hd]
        constructor
        · intro h d' attrs' hd' hattrs'
          obtain rfl : d = d' := by simpa using hd'
          obtain rfl : attrs = attrs' := by simpa [hattrs] using hattrs'
          exact h
        · intro h
          exact h d attrs rfl hattrs

/-- What the two readers return for an object of a filesystem without a decoding context whose legacy bonus decodes. -/
theorem reads_of_legacyAttrs {Γ : Ctx} {image : Bytes} {fs : ZfsFs} (hopen : (ZfsFs.open Γ image).value = .ok fs)
    (hctx : (zplSaContext (readBlock Γ image) fs.zpl).value = none) {id : UInt64} {d : Dnode}
    (hd : (mosDnode (readBlock Γ image) fs.zpl id).value = some d) (hreads : FileReads (readBlock Γ image) d) :
    (fs.content Γ id).value.toOption =
        some (cutAt ((legacyAttrs d).map ZplAttrs.size) (fileBytes (readBlock Γ image) d)) ∧
      (zplReadFile (readBlock Γ image) fs.zpl id).value.toOption = some (fileBytes (readBlock Γ image) d) := by
  constructor
  · rw [ZfsFs.toOption_content, ZfsFs.disk_of_open hopen, ZfsFs.value_attrs_of_none hopen hctx, hd, Option.bind_some,
      toOption_of_fileReads hd hreads]
  · rw [value_zplReadFile_of_none hctx, toOption_of_fileReads hd hreads]
    rfl

/-- The file of the pool without System Attributes is one block, and its legacy bonus says three bytes. -/
theorem size_legacyFile : legacyFile.dataBlockSize ≠ 0 ∧ fileBlockCount legacyFile = 1 ∧
    (legacyAttrs legacyFile).map ZplAttrs.size = some 3 := by
  decide +kernel

/-- It reads as three bytes and 509 zeros. -/
theorem fileReads_legacyFile : FileReads (readBlock plainCtx legacyImage) legacyFile ∧
    fileBytes (readBlock plainCtx legacyImage) legacyFile = [1, 2, 3] ++ zeros 509 := by
  obtain ⟨-, -, -, -, hread⟩ := facts_legacyImage
  obtain ⟨hsize, hcount, -⟩ := size_legacyFile
  exact fileReads_of_one_block hsize hcount hread

/-- The mount serves three bytes of that file, `zplReadFile` its whole block. -/
theorem content_legacyImage :
    (ZfsFs.open plainCtx legacyImage).value = .ok legacyFs ∧ (legacyFs.content plainCtx 3).value.toOption = some [1, 2, 3] ∧
      (zplReadFile (readBlock plainCtx legacyImage) legacyFs.zpl 3).value.toOption = some ([1, 2, 3] ++ zeros 509) ∧
      ¬ ReadersAgree plainCtx legacyImage legacyFs 3 := by
  obtain ⟨hcontext, -, hfile, -⟩ := facts_legacyImage
  obtain ⟨hreads, hbytes⟩ := fileReads_legacyFile
  have hopen := open_legacyImage
  obtain ⟨hcontent, hwhole⟩ := reads_of_legacyAttrs hopen hcontext hfile hreads
  have hcut : cutAt (some 3) ([1, 2, 3] ++ zeros 509) = [1, 2, 3] := rfl
  rw [size_legacyFile.2.2, hbytes, hcut] at hcontent
  rw [hbytes] at hwhole
  refine ⟨hopen, hcontent, hwhole, fun h => ?_⟩
  have hlen := congrArg (Option.map List.length) h.1
  rw [hcontent, hwhole] at hlen
  exact absurd hlen (by simp)

/-- The root directory, which has no bonus, is read the same way by both. -/
theorem readersAgree_legacyRoot : ReadersAgree plainCtx legacyImage legacyFs 2 := by
  obtain ⟨-, hroot, -⟩ := facts_legacyImage
  refine (readers_agree_iff plainCtx legacyImage legacyFs open_legacyImage 2).2 (Or.inr fun d attrs hd hattrs => ?_)
  rw [hd, Option.bind_some, hattrs] at hroot
  exact absurd hroot (by simp)

/-! ## Paths -/

/-- Look up the components of a path one by one, from an object on. -/
def ZfsFs.walkPath (Γ : Ctx) (fs : ZfsFs) : List Bytes → UInt64 → Run (Except FsError (Option UInt64))
  | [], obj => pure (.ok (some obj))
  | component :: components, obj => do
    match ← fs.lookup Γ obj component with
    | .error e => pure (.error e)
    | .ok none => pure (.ok none)
    | .ok (some child) => ZfsFs.walkPath Γ fs components child

/-- A path resolves to an object and its metadata exactly where looking up its components one by one from the root reaches that
object, and the mount decodes that metadata. -/
def PathsAgree (Γ : Ctx) (image : Bytes) (fs : ZfsFs) (path : Bytes) : Prop :=
  ∀ obj attrs, (zplLookup (readBlock Γ image) fs.zpl path).value = some (obj, attrs) ↔
    (fs.walkPath Γ (pathComponents path) fs.root).value = .ok (some obj) ∧ (fs.attrs Γ obj).value = some attrs

/-- The object that names lead to from a directory: each is the name of an entry of the directory reached so far, the first of that
name. -/
inductive NamesPath (disk : Disk) (zpl : ObjsetPhys) : UInt64 → List Bytes → UInt64 → Prop
  | nil (obj : UInt64) : NamesPath disk zpl obj [] obj
  | cons {dir obj value : UInt64} {data name : Bytes} {names : List Bytes}
      (hdata : (zapObjectData disk zpl dir).value = some data) (hentry : zapLookup data name = some value)
      (hrest : NamesPath disk zpl (value &&& zplDirentObjMask) names obj) : NamesPath disk zpl dir (name :: names) obj

section NamesPath

variable {disk : Disk} {zpl : ObjsetPhys}

/-- The names of a path are taken one at a time. -/
theorem namesPath_cons_iff {dir obj : UInt64} {name : Bytes} {names : List Bytes} :
    NamesPath disk zpl dir (name :: names) obj ↔
      ∃ data value, (zapObjectData disk zpl dir).value = some data ∧ zapLookup data name = some value ∧
        NamesPath disk zpl (value &&& zplDirentObjMask) names obj := by
  constructor
  · intro h
    cases h with
    | cons hdata hentry hrest => exact ⟨_, _, hdata, hentry, hrest⟩
  · rintro ⟨data, value, hdata, hentry, hrest⟩
    exact .cons hdata hentry hrest

theorem namesPath_nil_iff {dir obj : UInt64} : NamesPath disk zpl dir [] obj ↔ dir = obj := by
  constructor
  · intro h
    cases h with
    | nil => rfl
  · rintro rfl
    exact .nil _

/-- The first entry of a name, its value masked. -/
theorem find?_masked (l : List (Bytes × UInt64)) (name : Bytes) :
    ((l.map (fun e => (e.1, e.2 &&& zplDirentObjMask))).find? (fun e => e.1 == name)).map Prod.snd =
      ((l.find? (fun e => e.1 == name)).map Prod.snd).map (· &&& zplDirentObjMask) := by
  rw [List.find?_map, Option.map_map, Option.map_map]
  rfl

theorem value_zplChild (dir : UInt64) (name : Bytes) :
    (zplChild disk zpl dir name).value =
      ((zapObjectData disk zpl dir).value.bind (fun data => zapLookup data name)).map (· &&& zplDirentObjMask) := by
  rw [zplChild, value_bind, zplListDir, value_bind]
  cases (zapObjectData disk zpl dir).value with
  | none => rfl
  | some data => exact find?_masked (zapList data) name

/-- The loop of a path lookup follows the names. -/
theorem zplDescend_eq_some_iff (names : List Bytes) (dir obj : UInt64) :
    (zplDescend disk zpl names dir).value = some obj ↔ NamesPath disk zpl dir names obj := by
  induction names generalizing dir with
  | nil => rw [namesPath_nil_iff, zplDescend, value_pure, Option.some.injEq]
  | cons name names ih =>
    rw [namesPath_cons_iff, zplDescend, value_bind, value_zplChild]
    cases hdata : (zapObjectData disk zpl dir).value with
    | none => simp
    | some data =>
      rw [Option.bind_some]
      cases hentry : zapLookup data name with
      | none => simp [hentry]
      | some value =>
        simp only [Option.map_some, Option.some.injEq]
        rw [ih]
        constructor
        · intro h
          exact ⟨data, value, rfl, hentry, h⟩
        · rintro ⟨_, _, rfl, hvalue, h⟩
          rw [hentry, Option.some.injEq] at hvalue
          rw [hvalue]
          exact h

end NamesPath

/-- A mount lists a directory whose data reads. -/
theorem ZfsFs.dirEntries_eq_ok_iff (Γ : Ctx) (fs : ZfsFs) (obj : UInt64) (entries : List DirEntry) :
    (fs.dirEntries Γ obj).value = .ok entries ↔
      ∃ data, (zapObjectData (fs.disk Γ) fs.zpl obj).value = some data ∧ entries = (zapList data).map dirEntry := by
  rw [dirEntries, zapObjectData, value_bind, value_bind]
  cases (mosDnode (fs.disk Γ) fs.zpl obj).value with
  | none => simp
  | some d =>
    dsimp only
    rw [value_bind, value_bind]
    cases (readZapObject (fs.disk Γ) d).value with
    | error e => simp
    | ok data =>
      simp only [value_pure, Except.ok.injEq, Option.some.injEq, exists_eq_left']
      exact eq_comm

/-- A mount finds a name where the data of the directory reads and holds an entry of that name. -/
theorem ZfsFs.lookup_eq_ok_some_iff (Γ : Ctx) (fs : ZfsFs) (dir child : UInt64) (name : Bytes) :
    (fs.lookup Γ dir name).value = .ok (some child) ↔
      ∃ data value, (zapObjectData (fs.disk Γ) fs.zpl dir).value = some data ∧ zapLookup data name = some value ∧
        value &&& zplDirentObjMask = child := by
  have hfind : ∀ data, (((zapList data).map dirEntry).find? (fun e => e.name == name)).map DirEntry.id =
      (zapLookup data name).map (· &&& zplDirentObjMask) := by
    intro data
    rw [List.find?_map, Option.map_map, zapLookup, Option.map_map]
    rfl
  have hentries := fs.dirEntries_eq_ok_iff Γ dir
  rw [lookup, value_bind]
  cases hlist : (fs.dirEntries Γ dir).value with
  | error e =>
    simp only [value_pure, reduceCtorEq, false_iff]
    rintro ⟨data, -, hdata, -⟩
    have hok := (hentries _).2 ⟨data, hdata, rfl⟩
    rw [hlist] at hok
    exact absurd hok (by simp)
  | ok entries =>
    obtain ⟨data, hdata, rfl⟩ := (hentries entries).1 hlist
    simp only [value_pure, Except.ok.injEq, hfind, Option.map_eq_some_iff, hdata, Option.some.injEq]
    constructor
    · rintro ⟨value, hvalue, hchild⟩
      exact ⟨data, value, rfl, hvalue, hchild⟩
    · rintro ⟨_, value, rfl, hvalue, hchild⟩
      exact ⟨value, hvalue, hchild⟩

/-- Looking up names one by one follows the names. -/
theorem ZfsFs.walkPath_eq_ok_some_iff (Γ : Ctx) (fs : ZfsFs) (names : List Bytes) (dir obj : UInt64) :
    (fs.walkPath Γ names dir).value = .ok (some obj) ↔ NamesPath (fs.disk Γ) fs.zpl dir names obj := by
  induction names generalizing dir with
  | nil =>
    rw [namesPath_nil_iff, walkPath, value_pure]
    simp
  | cons name names ih =>
    have hlookup := fs.lookup_eq_ok_some_iff Γ dir
    rw [namesPath_cons_iff, walkPath, value_bind]
    cases hfound : (fs.lookup Γ dir name).value with
    | error e =>
      simp only [value_pure, reduceCtorEq, false_iff]
      rintro ⟨data, value, hdata, hvalue, -⟩
      have hok := (hlookup _ name).2 ⟨data, value, hdata, hvalue, rfl⟩
      rw [hfound] at hok
      exact absurd hok (by simp)
    | ok found =>
      cases found with
      | none =>
        simp only [value_pure, Except.ok.injEq, reduceCtorEq, false_iff]
        rintro ⟨data, value, hdata, hvalue, -⟩
        have hok := (hlookup _ name).2 ⟨data, value, hdata, hvalue, rfl⟩
        rw [hfound] at hok
        exact absurd hok (by simp)
      | some child =>
        obtain ⟨data, value, hdata, hvalue, rfl⟩ := (hlookup child name).1 hfound
        dsimp only
        rw [ih]
        constructor
        · intro h
          exact ⟨data, value, hdata, hvalue, h⟩
        · rintro ⟨data', value', hdata', hvalue', h⟩
          rw [hdata, Option.some.injEq] at hdata'
          rw [← hdata', hvalue, Option.some.injEq] at hvalue'
          rw [hvalue']
          exact h

/-- A path resolves where its names lead somewhere, there is a decoding context, and the metadata there decodes. -/
theorem zplLookup_eq_some_iff {disk : Disk} {zpl : ObjsetPhys} {rootId : UInt64}
    (hroot : (zplMasterRoot disk zpl).value = some rootId) (path : Bytes) (obj : UInt64) (attrs : ZplAttrs) :
    (zplLookup disk zpl path).value = some (obj, attrs) ↔
      ∃ registry layouts, (zplSaContext disk zpl).value = some (registry, layouts) ∧
        NamesPath disk zpl rootId (pathComponents path) obj ∧
        (zplAttrs disk zpl registry layouts obj).value = some attrs := by
  rw [zplLookup, value_bind, hroot]
  dsimp only
  rw [value_bind]
  cases (zplSaContext disk zpl).value with
  | none => simp
  | some context =>
    obtain ⟨registry, layouts⟩ := context
    have hdescend := @zplDescend_eq_some_iff disk zpl (pathComponents path) rootId
    dsimp only
    rw [value_bind]
    cases hreached : (zplDescend disk zpl (pathComponents path) rootId).value with
    | none =>
      simp only [value_pure, reduceCtorEq, false_iff]
      rintro ⟨_, _, -, hnames, -⟩
      rw [← hdescend, hreached] at hnames
      exact absurd hnames (by simp)
    | some current =>
      dsimp only
      rw [value_bind, value_pure]
      simp only [Option.map_eq_some_iff, Prod.mk.injEq, Option.some.injEq]
      constructor
      · rintro ⟨a, ha, rfl, rfl⟩
        exact ⟨registry, layouts, ⟨rfl, rfl⟩, (hdescend current).1 hreached, ha⟩
      · rintro ⟨_, _, ⟨rfl, rfl⟩, hnames, ha⟩
        rw [← hdescend, hreached, Option.some.injEq] at hnames
        subst hnames
        exact ⟨attrs, ha, rfl, rfl⟩

/-- Path resolution agrees with a mounted filesystem exactly where that has a decoding context, or the path leads to no object with a
legacy bonus that decodes. -/
theorem paths_agree_iff (Γ : Ctx) (image : Bytes) (fs : ZfsFs) (hopen : (ZfsFs.open Γ image).value = .ok fs)
    (path : Bytes) :
    PathsAgree Γ image fs path ↔
      (zplSaContext (readBlock Γ image) fs.zpl).value.isSome = true ∨
        ∀ obj d, NamesPath (readBlock Γ image) fs.zpl fs.rootId (pathComponents path) obj →
          (mosDnode (readBlock Γ image) fs.zpl obj).value = some d → legacyAttrs d = none := by
  obtain ⟨-, hroot, -⟩ := ZfsFs.of_open hopen
  unfold PathsAgree
  simp only [zplLookup_eq_some_iff hroot, ZfsFs.walkPath_eq_ok_some_iff, ZfsFs.disk_of_open hopen, ZfsFs.root]
  cases hctx : (zplSaContext (readBlock Γ image) fs.zpl).value with
  | some context =>
    obtain ⟨registry, layouts⟩ := context
    simp only [ZfsFs.attrs_of_context hopen hctx, Option.isSome_some, true_or, iff_true, Option.some.injEq, Prod.mk.injEq]
    intro obj attrs
    constructor
    · rintro ⟨_, _, ⟨rfl, rfl⟩, hnames, hattrs⟩
      exact ⟨hnames, hattrs⟩
    · rintro ⟨hnames, hattrs⟩
      exact ⟨registry, layouts, ⟨rfl, rfl⟩, hnames, hattrs⟩
  | none =>
    simp only [ZfsFs.value_attrs_of_none hopen hctx, reduceCtorEq, false_and, exists_false, false_iff, not_and,
      Option.isSome_none, Bool.false_eq_true, false_or]
    constructor
    · intro h obj d hnames hd
      cases hattrs : legacyAttrs d with
      | none => rfl
      | some attrs =>
        refine absurd ?_ (h obj attrs hnames)
        rw [hd, Option.bind_some, hattrs]
    · intro h obj attrs hnames hattrs
      obtain ⟨d, hd, hsome⟩ := Option.bind_eq_some_iff.1 hattrs
      rw [h obj d hnames hd] at hsome
      exact absurd hsome (by simp)

/-- In the pool without System Attributes the name `f` leads from the root directory to the file. -/
theorem namesPath_legacyImage : NamesPath (readBlock plainCtx legacyImage) legacyFs.zpl legacyFs.root [[0x66]] 3 := by
  obtain ⟨-, -, -, hdata, -⟩ := facts_legacyImage
  have hroot : legacyFs.root = 2 := rfl
  have hentry : zapLookup legacyRoot.encode [0x66] = some 0x8000000000000003 := by
    rw [zapLookup, MzapBlock.zapList_of_little rfl]
    decide
  have hmask : (0x8000000000000003 : UInt64) &&& zplDirentObjMask = 3 := by decide
  rw [hroot]
  refine .cons hdata hentry ?_
  rw [hmask]
  exact .nil 3

/-- Without a decoding context no path resolves. -/
theorem zplLookup_of_none {Γ : Ctx} {image : Bytes} {fs : ZfsFs} (hopen : (ZfsFs.open Γ image).value = .ok fs)
    (hctx : (zplSaContext (readBlock Γ image) fs.zpl).value = none) (path : Bytes) :
    (zplLookup (readBlock Γ image) fs.zpl path).value = none := by
  obtain ⟨-, hroot, -⟩ := ZfsFs.of_open hopen
  rw [Option.eq_none_iff_forall_ne_some]
  rintro ⟨obj, attrs⟩ hfound
  obtain ⟨registry, layouts, hsome, -⟩ := (zplLookup_eq_some_iff hroot path obj attrs).1 hfound
  rw [hctx] at hsome
  exact absurd hsome (by simp)

/-- Looking it up from the root reaches the file, whose bonus decodes; the path resolves to nothing. -/
theorem zplLookup_legacyImage :
    (ZfsFs.open plainCtx legacyImage).value = .ok legacyFs ∧
      (legacyFs.walkPath plainCtx (pathComponents (ascii "/f")) legacyFs.root).value = .ok (some 3) ∧
      (legacyFs.attrs plainCtx 3).value.isSome = true ∧
      (zplLookup (readBlock plainCtx legacyImage) legacyFs.zpl (ascii "/f")).value = none ∧
      ¬ PathsAgree plainCtx legacyImage legacyFs (ascii "/f") := by
  obtain ⟨hcontext, -, hfile, -⟩ := facts_legacyImage
  have hopen := open_legacyImage
  have hpath : pathComponents (ascii "/f") = [[0x66]] := by decide
  have hwalk : (legacyFs.walkPath plainCtx (pathComponents (ascii "/f")) legacyFs.root).value = .ok (some 3) := by
    rw [ZfsFs.walkPath_eq_ok_some_iff, ZfsFs.disk_of_open hopen, hpath]
    exact namesPath_legacyImage
  have hsome : (legacyFs.attrs plainCtx 3).value.isSome = true := by
    rw [ZfsFs.value_attrs_of_none hopen hcontext, hfile, Option.bind_some, ← @Option.isSome_map _ _ ZplAttrs.size,
      size_legacyFile.2.2]
    rfl
  have hlookup := zplLookup_of_none hopen hcontext (ascii "/f")
  refine ⟨hopen, hwalk, hsome, hlookup, fun h => ?_⟩
  obtain ⟨attrs, ha⟩ := Option.isSome_iff_exists.1 hsome
  have hfound := (h 3 attrs).2 ⟨hwalk, ha⟩
  rw [hlookup] at hfound
  exact absurd hfound (by simp)

/-- In the pool with System Attributes, the name `f` leads to the file too, and the path resolves to what the mount serves. -/
theorem pathsAgree_saImage :
    NamesPath (readBlock plainCtx saImage) saFs.zpl saFs.rootId (pathComponents (ascii "/f")) 3 ∧
      PathsAgree plainCtx saImage saFs (ascii "/f") := by
  obtain ⟨-, -, -, -, -, -, hcontext, -, hdata, -⟩ := facts_saImage
  have hpath : pathComponents (ascii "/f") = [[0x66]] := by decide
  have hroot : saFs.rootId = 2 := rfl
  have hentry : zapLookup saRoot.encode [0x66] = some 0x8000000000000003 := by
    rw [zapLookup, MzapBlock.zapList_of_little rfl]
    decide
  have hmask : (0x8000000000000003 : UInt64) &&& zplDirentObjMask = 3 := by decide
  refine ⟨?_, (paths_agree_iff plainCtx saImage saFs open_saImage (ascii "/f")).2 (Or.inl ?_)⟩
  · rw [hpath, hroot]
    refine .cons hdata hentry ?_
    rw [hmask]
    exact .nil 3
  · rw [hcontext]
    rfl

end ZfsForensic
