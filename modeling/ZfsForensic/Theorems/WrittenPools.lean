import ZfsForensic.Lemmas.PoolFits
import ZfsForensic.Lemmas.SmallPool
import ZfsForensic.Theorems.Serving

/-!
# A written pool serves its volume

A pool of any shape is written as a vdev by any codec: trees of indirect blocks under its objects, System Attributes in any layout order, a
ring of any slot size. A mount of the vdev serves the head volume: its metadata, its directories, its files at any offset, and its paths.
-/

namespace ZfsForensic

open Octets Checked Checked.Run

/-- What a mount serves of a volume: everything there, and errors for what is not. -/
structure ZfsFs.Serves (Γ : Ctx) (fs : ZfsFs) (v : Volume) : Prop where
  root : fs.root = v.root
  metadata : ∀ id o, v.object? id = some o → (fs.getMeta Γ id).value = .ok (fsMeta id (some o.attrs))
  listing : ∀ id entries, v.entries? id = some entries → (fs.readDir Γ id).value = .ok (entries.map VolEntry.listed)
  lookup : ∀ id entries name, v.entries? id = some entries → (fs.lookup Γ id name).value = .ok (Volume.find? entries name)
  content : ∀ id o off len, v.object? id = some o → (fs.readAt Γ id off len).value = .ok ((o.content.drop off.toNat).take len)
  absent : ∀ id, id = 0 ∨ firstObject ≤ id.toNat → v.object? id = none →
    (∃ e, (fs.getMeta Γ id).value = .error e) ∧ (∃ e, (fs.readDir Γ id).value = .error e) ∧
      (∀ name, ∃ e, (fs.lookup Γ id name).value = .error e) ∧ ∀ off len, ∃ e, (fs.readAt Γ id off len).value = .error e
  path : ∀ path out, v.Descends v.root (pathComponents path) out →
    (zplLookup (fs.disk Γ) fs.zpl path).value = out.bind fun id => (v.object? id).map fun o => (id, o.attrs)
  contentAt : ∀ path id o, v.Descends v.root (pathComponents path) (some id) → v.object? id = some o →
    (zplReadPath (fs.disk Γ) fs.zpl path).value = .ok o.content
  missing : ∀ path, v.Descends v.root (pathComponents path) none → ∃ e, (zplReadPath (fs.disk Γ) fs.zpl path).value = .error e

section Serves

variable {Γ : Ctx} (P : Packer Γ) {image : Bytes} {sector : Nat} {v : Volume}

/-- The entry of a name is the first of that name, listed. -/
theorem find?_listed (entries : List VolEntry) (name : Bytes) :
    ((entries.map VolEntry.listed).find? (fun e => e.name == name)).map DirEntry.id = Volume.find? entries name := by
  rw [Volume.find?, List.find?_map, Option.map_map]
  rfl

/-- The child of a name is the object the directory names. -/
theorem Packer.ObjsetAt.find_child (h : P.ObjsetAt image sector v.objset) {id : UInt64} {entries : List VolEntry}
    (hdir : v.entries? id = some entries) (name : Bytes) :
    (zplChild (readBlock Γ image) (P.objsetAt sector v.objset) id name).value = Volume.find? entries name := by
  rw [zplChild, value_bind, h.list_dir P hdir, value_pure, Volume.find?, List.find?_map, Option.map_map]
  rfl

/-- The loop over the components of a path follows the descent. -/
theorem Packer.ObjsetAt.descend (h : P.ObjsetAt image sector v.objset) {id : UInt64} {names : List Bytes} {out : Option UInt64}
    (hpath : v.Descends id names out) :
    (zplDescend (readBlock Γ image) (P.objsetAt sector v.objset) names id).value = out := by
  induction hpath with
  | here id => rfl
  | step hdir hname _ ih =>
    rw [zplDescend, value_bind, h.find_child P hdir, hname]
    exact ih
  | missing names hdir hname =>
    rw [zplDescend, value_bind, h.find_child P hdir, hname]
    rfl

/-- A descent from an object of the volume ends at an id of one. -/
theorem Volume.Descends.object_ge {id : UInt64} {names : List Bytes} {out : Option UInt64} (h : v.Descends id names out)
    (hid : firstObject ≤ id.toNat) : ∀ id' ∈ out, firstObject ≤ id'.toNat := by
  induction h with
  | here id =>
    intro id' hid'
    rwa [← Option.some.inj hid']
  | step hdir hname _ ih =>
    obtain ⟨e, -, rfl⟩ := Option.map_eq_some_iff.1 hname
    exact ih e.object_ge
  | missing names hdir hname => exact fun id' hid' => absurd hid' (by simp)

/-- The id of an object is none of the writer's own. -/
theorem Volume.firstObject_le {id : UInt64} {o : VolObject} (ho : v.object? id = some o) : firstObject ≤ id.toNat := by
  unfold object? objectAt at ho
  split at ho
  · exact absurd ho (by simp)
  · omega

/-- The root is an object. -/
theorem Volume.firstObject_le_root (v : Volume) : firstObject ≤ v.root.toNat := by
  obtain ⟨attrs, d, known, ho, -⟩ := entries?_eq_some v.entries?_root
  exact firstObject_le ho

/-- A path resolves as the volume descends. -/
theorem Packer.ObjsetAt.find_path (h : P.ObjsetAt image sector v.objset) {path : Bytes} {out : Option UInt64}
    (hpath : v.Descends v.root (pathComponents path) out) :
    (zplLookup (readBlock Γ image) (P.objsetAt sector v.objset) path).value =
      out.bind fun id => (v.object? id).map fun o => (id, o.attrs) := by
  rw [zplLookup, value_bind, h.find_root P]
  dsimp only
  rw [value_bind, h.find_tables P]
  dsimp only
  rw [value_bind, h.descend P hpath]
  cases hout : out with
  | none => rfl
  | some id =>
    have hid : firstObject ≤ id.toNat := hpath.object_ge v.firstObject_le_root id hout
    dsimp only
    rw [value_bind, value_pure, Option.bind_some]
    cases ho : v.object? id with
    | some o => rw [h.read_attrs P ho, Option.map_some, Option.map_some]
    | none =>
      rw [ZfsForensic.zplAttrs, h.resolve_dangling P (Or.inr hid) ho]
      rfl

section Mounted

variable {fs : ZfsFs} (hdisk : fs.disk Γ = readBlock Γ image) (hzpl : fs.zpl = P.objsetAt sector v.objset)
include hdisk hzpl

/-- A directory is listed: its ZAP is read, and every entry is split into its kind and its object. -/
theorem Packer.ObjsetAt.dirEntries (h : P.ObjsetAt image sector v.objset) {id : UInt64} {entries : List VolEntry}
    (hdir : v.entries? id = some entries) : (fs.dirEntries Γ id).value = .ok (entries.map VolEntry.listed) := by
  obtain ⟨attrs, d, known, ho, rfl⟩ := Volume.entries?_eq_some hdir
  obtain ⟨hid, hobject⟩ := Volume.objset_object ho
  obtain ⟨s, hs, hwritten⟩ := h.resolve P hid hobject
  have hflat : ((VolObject.dir attrs d known).dmu v.tables).records.flatten = zapBytes (d.entries.map VolEntry.ent) d.sectors.toNat :=
    List.append_nil _
  have hwhole : Whole (zapBytes (d.entries.map VolEntry.ent) d.sectors.toNat) :=
    whole_zapBytes d.sectors.toNat_lt (by rw [List.length_map]; exact d.room)
  rw [ZfsFs.dirEntries, hdisk, hzpl, hs, pure_bind]
  dsimp only
  rw [value_bind, hwritten.read_zap P (by rw [hflat]; exact hwhole.le_maxZapBytes), hflat]
  dsimp only
  rw [value_pure, d.zapList, List.map_map]
  exact congrArg Except.ok (List.map_congr_left fun e _ => e.dirEntry_ent)

/-- An id that names no object is refused by every operation. -/
theorem Packer.ObjsetAt.absent (h : P.ObjsetAt image sector v.objset) {id : UInt64} (hid : id = 0 ∨ firstObject ≤ id.toNat)
    (hnone : v.object? id = none) :
    (∃ e, (fs.getMeta Γ id).value = .error e) ∧ (∃ e, (fs.readDir Γ id).value = .error e) ∧
      (∀ name, ∃ e, (fs.lookup Γ id name).value = .error e) ∧ ∀ off len, ∃ e, (fs.readAt Γ id off len).value = .error e := by
  have hdangling := h.resolve_dangling P hid hnone
  have hdir : fs.dirEntries Γ id = pure (.error (.outOfRange "zfs directory object id (absent or an empty dnode slot)" id 1 0)) := by
    rw [ZfsFs.dirEntries, hdisk, hzpl, hdangling, pure_bind]
  have hattrs : (fs.attrs Γ id).value = none := by
    rw [ZfsFs.attrs, hdisk, hzpl, ZfsForensic.zplAttrs, hdangling, pure_bind]
    rfl
  have hcontent : ∃ e, (fs.content Γ id).value = .error e := by
    rw [ZfsFs.content, value_bind, hattrs, value_bind, hdisk, hzpl, zplReadFileWith, hdangling, pure_bind]
    exact ⟨_, rfl⟩
  refine ⟨?_, ?_, fun name => ?_, fun off len => ?_⟩
  · rw [ZfsFs.getMeta, ZfsFs.dnode, hdisk, hzpl, hdangling, pure_bind]
    exact ⟨_, rfl⟩
  · rw [ZfsFs.readDir, hdir]
    exact ⟨_, rfl⟩
  · rw [ZfsFs.lookup, hdir]
    exact ⟨_, rfl⟩
  · obtain ⟨e, he⟩ := hcontent
    rw [ZfsFs.readAt, value_bind, he]
    exact ⟨e, rfl⟩

end Mounted

/-- What lies in an image as the object set of a volume is served. -/
theorem Packer.ObjsetAt.serves (h : P.ObjsetAt image sector v.objset) {fs : ZfsFs} (himage : fs.image = image)
    (hzpl : fs.zpl = P.objsetAt sector v.objset) (hregistry : fs.registry = v.registry) (hlayouts : fs.layouts = v.layouts)
    (hroot : fs.rootId = v.root) : fs.Serves Γ v := by
  have hdisk : fs.disk Γ = readBlock Γ image := by rw [ZfsFs.disk, himage]
  have hattrs : ∀ {id o}, v.object? id = some o → (fs.attrs Γ id).value = some o.attrs := by
    intro id o ho
    rw [ZfsFs.attrs, hdisk, hzpl, hregistry, hlayouts, h.read_attrs P ho]
  have hcontent : ∀ {id o}, v.object? id = some o → (fs.content Γ id).value = .ok o.content := by
    intro id o ho
    rw [ZfsFs.content, value_bind, hattrs ho, Option.map_some, value_bind, hdisk, hzpl, h.read_content P ho]
    rfl
  refine ⟨hroot, fun id o ho => ?_, fun id entries hdir => h.dirEntries P hdisk hzpl hdir, fun id entries name hdir => ?_,
    fun id o off len ho => ?_, fun id hid hnone => h.absent P hdisk hzpl hid hnone, fun path out hpath => ?_, fun path id o hpath ho => ?_,
    fun path hpath => ?_⟩
  · obtain ⟨hid, hobject⟩ := Volume.objset_object ho
    obtain ⟨s, hs, -⟩ := h.resolve P hid hobject
    rw [ZfsFs.getMeta, ZfsFs.dnode, hdisk, hzpl, hs, pure_bind]
    dsimp only
    rw [pure_bind]
    dsimp only
    rw [value_bind, hattrs ho, value_pure]
  · rw [ZfsFs.lookup, value_bind, h.dirEntries P hdisk hzpl hdir]
    dsimp only
    rw [value_pure, find?_listed]
  · rw [ZfsFs.readAt, value_bind, hcontent ho]
    dsimp only
    split
    · rfl
    · rename_i hgt
      rw [value_pure, List.drop_eq_nil_of_le (by omega), List.take_nil]
  · rw [hdisk, hzpl]
    exact h.find_path P hpath
  · rw [hdisk, hzpl, zplReadPath, value_bind, h.find_path P hpath, Option.bind_some, ho, Option.map_some]
    exact h.read_content P ho
  · rw [hdisk, hzpl, zplReadPath, value_bind, h.find_path P hpath, Option.bind_none]
    exact ⟨_, rfl⟩

end Serves

/-- A pool written as a vdev mounts, under the name of its configuration, and the mount serves its head volume. No check fails, in the mount
or in what it serves. -/
theorem open_writePool {Γ : Ctx} (P : Packer Γ) (pool : Pool) (hsize : (P.writePool pool).length < 2 ^ 59) :
    ∃ fs, ZfsFs.open Γ (P.writePool pool) = pure (.ok fs) ∧ fs.Serves Γ pool.head ∧
      fs.volumeLabel = pool.configuration.bind (fun c => NvList.getStr c (ascii "name")) ∧ PoolFits Γ (P.writePool pool) := by
  have hat := P.poolAt_writePool hsize
  obtain ⟨s, hopen, hhead⟩ := hat.open P
  have hfits := hat.poolFits P
  exact ⟨_, Run.ext hopen (open_panics_of_fits hfits), hhead.serves P rfl rfl rfl rfl rfl, rfl, hfits⟩

/-- The small pool mounts, and its file is read, by its id and by the path through the directory. -/
theorem open_smallPool :
    ∃ fs, ZfsFs.open plainCtx ((Packer.stored plainCtx).writePool smallPool) = pure (.ok fs) ∧
      (fs.readAt plainCtx 6 1 5).value = .ok [2, 3] ∧
    (zplReadPath (fs.disk plainCtx) fs.zpl (ascii "/d/b")).value = .ok [1, 2, 3] := by
  obtain ⟨fs, hopen, hserves, -⟩ := open_writePool (Packer.stored plainCtx) smallPool (length_smallPool _)
  have hfile : smallHead.object? 6 = some (smallFile [1, 2, 3] (by decide)) := rfl
  refine ⟨fs, hopen, hserves.content 6 _ 1 5 hfile, hserves.contentAt _ 6 _ ?_ hfile⟩
  have hpath : pathComponents (ascii "/d/b") = [ascii "d", ascii "b"] := by decide
  rw [hpath]
  exact .step rfl rfl (.step rfl rfl (.here 6))

/-- A mount of the small pool runs through, on ids it does not have too. -/
theorem serving_smallPool :
    ∃ fs, (ZfsFs.open plainCtx ((Packer.stored plainCtx).writePool smallPool)).value = .ok fs ∧ (fs.getMeta plainCtx 99).panics = false := by
  have hat := (Packer.stored plainCtx).poolAt_writePool (length_smallPool _)
  obtain ⟨s, hopen, -⟩ := hat.open
  exact ⟨_, hopen, ((serving_runs_through (hat.poolFits _) hopen).1 99).1⟩

end ZfsForensic
