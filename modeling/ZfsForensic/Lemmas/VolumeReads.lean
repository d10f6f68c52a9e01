import ZfsForensic.Lemmas.Mount
import ZfsForensic.Lemmas.Volume

/-!
# Volumes read back

Where an image holds the object set of a volume, the readers of the dataset layer and the operations of a mount give the volume back: the
root and the tables, and for every id the attributes, the entries or the bytes of its object.
-/

namespace ZfsForensic

open Octets Checked Checked.Run

/-! ## Objects of an object set -/

section Objsets

variable {Γ : Ctx} (P : Packer Γ) {image : Bytes} {sector : Nat} {os : DmuObjset}

/-- An id resolves to the dnode of its object, which lies where the dnode says. -/
theorem Packer.ObjsetAt.resolve (h : P.ObjsetAt image sector os) {id : UInt64} (hid : id.toNat ≠ 0) {o : DmuObject}
    (ho : os.objects[id.toNat - 1]? = some o) :
    ∃ s, mosDnode (readBlock Γ image) (P.objsetAt sector os) id = pure (some (P.dnodeAt s o)) ∧ P.WrittenAt image s o := by
  obtain ⟨s, hs, hwritten⟩ := h.object P ho
  exact ⟨s, by rw [h.resolve_id P, if_neg hid, hs], hwritten⟩

/-- An id behind the last object resolves to none. -/
theorem Packer.ObjsetAt.resolve_none (h : P.ObjsetAt image sector os) {id : UInt64}
    (hid : id.toNat = 0 ∨ os.objects.length < id.toNat) :
    mosDnode (readBlock Γ image) (P.objsetAt sector os) id = pure none := by
  rw [h.resolve_id P]
  by_cases hzero : id.toNat = 0
  · rw [if_pos hzero]
  · rw [if_neg hzero, List.getElem?_eq_none]
    rw [length_dnodesAt]
    omega

/-- A ZAP of an object set is read whole. -/
theorem Packer.ObjsetAt.read_zapData (h : P.ObjsetAt image sector os) {id : UInt64} (hid : id.toNat ≠ 0) {o : DmuObject}
    (ho : os.objects[id.toNat - 1]? = some o) (hcap : o.records.flatten.length ≤ maxZapBytes) :
    (zapObjectData (readBlock Γ image) (P.objsetAt sector os) id).value = some o.records.flatten := by
  obtain ⟨s, hs, hwritten⟩ := h.resolve P hid ho
  rw [zapObjectData, hs, pure_bind, value_bind, hwritten.read_zap P hcap]
  rfl

end Objsets

/-! ## ZAPs of one record -/

theorem flatten_oneRecord (type bonusType : UInt8) (bonus data : Bytes) (htype : type ≠ 0) (hbonus : bonus.length ≤ 320)
    (hdata : Whole data) : (oneRecord type bonusType bonus data htype hbonus hdata).records.flatten = data :=
  List.append_nil data

/-- One record is inside the cap of a ZAP. -/
theorem Whole.le_maxZapBytes {data : Bytes} (h : Whole data) : data.length ≤ maxZapBytes := by
  have hle := h.le_maxBlockSize.1
  have hmax : maxBlockSize = 33554432 := rfl
  have hzap : maxZapBytes = 67108864 := rfl
  omega

/-- The entries of the writer's own are text. -/
theorem zapLookup_zapBytes {entries : List MzapEnt} (hutf : ∀ e ∈ entries, IsUtf8 e.name) (sectors : Nat) (name : Bytes) :
    zapLookup (zapBytes entries sectors) name = (entries.find? (fun e => e.name == name)).map MzapEnt.value := by
  rw [zapLookup, zapList_zapBytes hutf, List.find?_map, Option.map_map]
  rfl

theorem zapLookup_masterNode (root : UInt64) :
    zapLookup (masterNode root).records.flatten (ascii "ROOT") = some root ∧
      zapLookup (masterNode root).records.flatten (ascii "SA_ATTRS") = some 2 := by
  rw [masterNode, linkZap_flatten, zapLookup_zapBytes, zapLookup_zapBytes]
  · exact ⟨rfl, rfl⟩
  all_goals
    intro e he
    rcases List.mem_cons.1 he with rfl | he
    · exact plain_root.utf8
    · rw [List.mem_singleton.1 he]
      exact plain_attrs.utf8

theorem zapLookup_saMasterObject :
    zapLookup saMasterObject.records.flatten (ascii "REGISTRY") = some 3 ∧
      zapLookup saMasterObject.records.flatten (ascii "LAYOUTS") = some 4 := by
  rw [saMasterObject, linkZap_flatten, zapLookup_zapBytes, zapLookup_zapBytes]
  · exact ⟨rfl, rfl⟩
  all_goals
    intro e he
    rcases List.mem_cons.1 he with rfl | he
    · exact plain_registry.utf8
    · rw [List.mem_singleton.1 he]
      exact plain_layouts.utf8

/-! ## Entries and files -/

/-- What a mount lists of an entry. -/
def VolEntry.listed (e : VolEntry) : DirEntry := { name := e.name, id := e.object, kind := nodeKindFromDirent (UInt64.ofNat e.code) }

theorem VolEntry.toNat_value (e : VolEntry) : e.ent.value.toNat = e.object.toNat + 2 ^ 60 * e.code := by
  have hobject := e.object_lt
  have hcode := e.code_lt
  rw [ent, UInt64.toNat_ofNat']
  omega

/-- The id of an entry is in the low bits of its value. -/
theorem VolEntry.value_and (e : VolEntry) : e.ent.value &&& zplDirentObjMask = e.object := by
  have hobject := e.object_lt
  have hmask : zplDirentObjMask.toNat = 2 ^ 48 - 1 := rfl
  rw [← UInt64.toNat_inj, UInt64.toNat_and, hmask, Nat.and_two_pow_sub_one_eq_mod, e.toNat_value]
  omega

/-- Its code is in the high ones. -/
theorem VolEntry.dirEntry_ent (e : VolEntry) : dirEntry (e.ent.name, e.ent.value) = e.listed := by
  have hcode := e.code_lt
  have hobject := e.object_lt
  have hshift : (direntTypeShift).toNat % 64 = 60 := rfl
  have hmask : (0xf : UInt64).toNat = 2 ^ 4 - 1 := rfl
  have htype : (e.ent.value >>> direntTypeShift) &&& 0xf = UInt64.ofNat e.code := by
    rw [← UInt64.toNat_inj, UInt64.toNat_and, hmask, Nat.and_two_pow_sub_one_eq_mod, UInt64.toNat_shiftRight, hshift, e.toNat_value,
      Nat.shiftRight_eq_div_pow, UInt64.toNat_ofNat']
    omega
  rw [dirEntry, VolEntry.listed]
  dsimp only
  rw [htype, e.value_and]
  rfl

/-- The entries of a directory, listed. -/
theorem VolDir.zapList (d : VolDir) :
    zapList (zapBytes (d.entries.map VolEntry.ent) d.sectors.toNat) = d.entries.map fun e => (e.ent.name, e.ent.value) := by
  rw [zapList_zapBytes, List.map_map]
  · rfl
  · intro e he
    obtain ⟨e', -, rfl⟩ := List.mem_map.1 he
    exact e'.name_utf8

/-- The records of a file begin with its bytes. -/
theorem VolFile.take_records (f : VolFile) : (Radix.groups (512 * f.sectors.toNat) f.padded).flatten.take f.data.length = f.data := by
  have hpos : 0 < 512 * f.sectors.toNat := Nat.mul_pos (by decide) f.sectors_pos
  rw [Radix.flatten_groups hpos, padded, List.take_left]

/-- They are inside the cap of a file read. -/
theorem VolFile.length_records_le (f : VolFile) : (Radix.groups (512 * f.sectors.toNat) f.padded).flatten.length ≤ maxFileBytes := by
  have hpos : 0 < 512 * f.sectors.toNat := Nat.mul_pos (by decide) f.sectors_pos
  rw [Radix.flatten_groups hpos, f.length_padded]
  exact f.cap

/-! ## The dataset layer -/

section Volumes

variable {Γ : Ctx} (P : Packer Γ) {image : Bytes} {sector : Nat} {v : Volume}

/-- The registry and the layouts of a volume. -/
def Volume.registry (v : Volume) : SaRegistry := parseSaRegistry v.tables.registryZap

def Volume.layouts (v : Volume) : SaLayouts := parseSaLayouts v.tables.layoutsZap

/-- An object of a volume is the object of its id in the object set. -/
theorem Volume.objset_object {id : UInt64} {o : VolObject} (ho : v.object? id = some o) :
    id.toNat ≠ 0 ∧ v.objset.objects[id.toNat - 1]? = some (o.dmu v.tables) := by
  unfold object? objectAt at ho
  split at ho
  · exact absurd ho (by simp)
  · rename_i hid
    have hfirst : firstObject = 5 := rfl
    have hsplit : id.toNat - 1 = (id.toNat - firstObject) + 4 := by omega
    refine ⟨by omega, ?_⟩
    rw [hsplit, objset]
    simp only [List.getElem?_cons_succ, List.getElem?_map, ho, Option.map_some]

/-- The objects of the writer's own are read. -/
theorem Packer.ObjsetAt.read_links (h : P.ObjsetAt image sector v.objset) :
    (zapObjectData (readBlock Γ image) (P.objsetAt sector v.objset) 1).value = some (masterNode v.root).records.flatten ∧
      (zapObjectData (readBlock Γ image) (P.objsetAt sector v.objset) 2).value = some saMasterObject.records.flatten ∧
      (zapObjectData (readBlock Γ image) (P.objsetAt sector v.objset) 3).value = some v.tables.registryZap ∧
      (zapObjectData (readBlock Γ image) (P.objsetAt sector v.objset) 4).value = some v.tables.layoutsZap := by
  have hlink : ∀ {type : UInt8} (htype : type ≠ 0) {entries : List MzapEnt} (hroom : entries.length ≤ 7),
      (linkZap type htype entries hroom).records.flatten.length ≤ maxZapBytes := by
    intro type htype entries hroom
    rw [linkZap_flatten]
    exact (whole_zapBytes (by decide) (by omega)).le_maxZapBytes
  refine ⟨h.read_zapData P (by decide) (o := masterNode v.root) rfl (hlink _ _),
    h.read_zapData P (by decide) (o := saMasterObject) rfl (hlink _ _), ?_, ?_⟩
  · have hread := h.read_zapData P (show (3 : UInt64).toNat ≠ 0 by decide) rfl
      (by rw [flatten_oneRecord]; exact v.tables.registry_whole.le_maxZapBytes)
    rwa [flatten_oneRecord] at hread
  · have hread := h.read_zapData P (show (4 : UInt64).toNat ≠ 0 by decide) rfl
      (by rw [flatten_oneRecord]; exact v.tables.layouts_whole.le_maxZapBytes)
    rwa [flatten_oneRecord] at hread

/-- The root is found. -/
theorem Packer.ObjsetAt.find_root (h : P.ObjsetAt image sector v.objset) :
    (zplMasterRoot (readBlock Γ image) (P.objsetAt sector v.objset)).value = some v.root := by
  have hid : zplMasterNodeObj = 1 := rfl
  rw [zplMasterRoot, value_bind, hid, (h.read_links P).1]
  dsimp only
  rw [value_pure, (zapLookup_masterNode v.root).1]

/-- So are the tables of the attributes. -/
theorem Packer.ObjsetAt.find_tables (h : P.ObjsetAt image sector v.objset) :
    (zplSaContext (readBlock Γ image) (P.objsetAt sector v.objset)).value = some (v.registry, v.layouts) := by
  have hid : zplMasterNodeObj = 1 := rfl
  obtain ⟨hmaster, hsa, hregistry, hlayouts⟩ := h.read_links P
  rw [zplSaContext, value_bind, hid, hmaster]
  dsimp only
  rw [(zapLookup_masterNode v.root).2]
  dsimp only
  rw [value_bind, hsa]
  dsimp only
  rw [zapLookup_saMasterObject.1, zapLookup_saMasterObject.2]
  dsimp only
  rw [value_bind, hregistry]
  dsimp only
  rw [value_bind, hlayouts]
  rfl

/-- The bonus of an object holds its attributes. -/
theorem VolObject.bonus_dmu (tables : SaTables) (o : VolObject) :
    (o.dmu tables).bonusType = dmuOtSa ∧ (o.dmu tables).bonus = tables.order.encode o.attrs := by
  cases o <;> exact ⟨rfl, rfl⟩

/-- An object's attributes are decoded. -/
theorem Packer.ObjsetAt.read_attrs (h : P.ObjsetAt image sector v.objset) {id : UInt64} {o : VolObject} (ho : v.object? id = some o) :
    (zplAttrs (readBlock Γ image) (P.objsetAt sector v.objset) v.registry v.layouts id).value = some o.attrs := by
  obtain ⟨hid, hobject⟩ := Volume.objset_object ho
  obtain ⟨s, hs, -⟩ := h.resolve P hid hobject
  obtain ⟨htype, hbonus⟩ := o.bonus_dmu v.tables
  have htype' : (P.dnodeAt s (o.dmu v.tables)).dnBonustype = dmuOtSa := htype
  have hbonus' : (P.dnodeAt s (o.dmu v.tables)).bonus = v.tables.order.encode o.attrs := hbonus
  have horder : (P.dnodeAt s (o.dmu v.tables)).endian = .little := rfl
  rw [zplAttrs, hs, pure_bind]
  dsimp only
  rw [if_pos htype', value_pure, hbonus', horder]
  exact v.tables.order.decode_encode o.attrs o.known

/-- A directory's ZAP is read. -/
theorem Packer.ObjsetAt.read_dir (h : P.ObjsetAt image sector v.objset) {id : UInt64} {attrs : ZplAttrs} {d : VolDir}
    {known : attrs.unknownAttrIds = []} (ho : v.object? id = some (.dir attrs d known)) :
    (zapObjectData (readBlock Γ image) (P.objsetAt sector v.objset) id).value =
      some (zapBytes (d.entries.map VolEntry.ent) d.sectors.toNat) := by
  obtain ⟨hid, hobject⟩ := Volume.objset_object ho
  have hwhole : Whole (zapBytes (d.entries.map VolEntry.ent) d.sectors.toNat) :=
    whole_zapBytes d.sectors.toNat_lt (by rw [List.length_map]; exact d.room)
  have hflat : ((VolObject.dir attrs d known).dmu v.tables).records.flatten = zapBytes (d.entries.map VolEntry.ent) d.sectors.toNat :=
    List.append_nil _
  have hread := h.read_zapData P hid hobject (by rw [hflat]; exact hwhole.le_maxZapBytes)
  rwa [hflat] at hread

/-- The entries of a directory are those of its object. -/
theorem Volume.entries?_eq_some {id : UInt64} {entries : List VolEntry} (h : v.entries? id = some entries) :
    ∃ (attrs : ZplAttrs) (d : VolDir) (known : attrs.unknownAttrIds = []), v.object? id = some (.dir attrs d known) ∧ d.entries = entries := by
  obtain ⟨o, ho, hentries⟩ := Option.bind_eq_some_iff.1 h
  cases o with
  | file attrs f known size => exact absurd hentries (by simp [VolObject.entries?])
  | dir attrs d known => exact ⟨attrs, d, known, ho, Option.some.inj hentries⟩

/-- The root is a directory. -/
theorem Volume.entries?_root (v : Volume) : v.entries? v.root = some v.rootEntries := by
  obtain ⟨entries, hentries⟩ := Option.isSome_iff_exists.1 v.root_dir
  have hroot : v.entries? v.root = some entries := hentries
  rw [rootEntries, hroot, Option.getD_some]

/-- A directory is listed. -/
theorem Packer.ObjsetAt.list_dir (h : P.ObjsetAt image sector v.objset) {id : UInt64} {entries : List VolEntry}
    (hdir : v.entries? id = some entries) :
    (zplListDir (readBlock Γ image) (P.objsetAt sector v.objset) id).value = entries.map fun e => (e.name, e.object) := by
  obtain ⟨attrs, d, known, ho, rfl⟩ := Volume.entries?_eq_some hdir
  rw [zplListDir, value_bind, h.read_dir P ho]
  dsimp only
  rw [value_pure, d.zapList, List.map_map]
  refine List.map_congr_left fun e _ => ?_
  exact congrArg (fun o => (e.name, o)) e.value_and

/-- The records of an object begin with its content, and are inside the cap of a file read. -/
theorem VolObject.content_eq (tables : SaTables) (o : VolObject) :
    (o.dmu tables).records.flatten.take o.attrs.size.toNat = o.content ∧ (o.dmu tables).records.flatten.length ≤ maxFileBytes := by
  cases o with
  | file attrs f known size =>
    refine ⟨?_, f.length_records_le⟩
    change (Radix.groups (512 * f.sectors.toNat) f.padded).flatten.take attrs.size.toNat = f.data
    rw [size, f.take_records]
  | dir attrs d known =>
    have hflat : ((VolObject.dir attrs d known).dmu tables).records.flatten = zapBytes (d.entries.map VolEntry.ent) d.sectors.toNat :=
      List.append_nil _
    have hwhole : Whole (zapBytes (d.entries.map VolEntry.ent) d.sectors.toNat) :=
      whole_zapBytes d.sectors.toNat_lt (by rw [List.length_map]; exact d.room)
    have hle := hwhole.le_maxBlockSize.1
    have hmax : maxBlockSize = 33554432 := rfl
    have hcap : maxFileBytes = 536870912 := rfl
    rw [hflat]
    exact ⟨rfl, by omega⟩

/-- The content of an object is read, cut at the size its attributes record. -/
theorem Packer.ObjsetAt.read_content (h : P.ObjsetAt image sector v.objset) {id : UInt64} {o : VolObject} (ho : v.object? id = some o) :
    (zplReadFileWith (readBlock Γ image) (P.objsetAt sector v.objset) id (some o.attrs.size)).value = .ok o.content := by
  obtain ⟨hid, hobject⟩ := Volume.objset_object ho
  obtain ⟨s, hs, hwritten⟩ := h.resolve P hid hobject
  obtain ⟨hcontent, hcap⟩ := o.content_eq v.tables
  obtain ⟨hreads, hbytes⟩ := hwritten.read_file P hcap
  rw [value_of_fileReads (d := P.dnodeAt s (o.dmu v.tables)) (by rw [hs, value_pure]) hreads (some o.attrs.size), hbytes, cutAt,
    Option.elim_some, hcontent]

/-- An id behind the objects of a volume resolves to none. -/
theorem Packer.ObjsetAt.resolve_dangling (h : P.ObjsetAt image sector v.objset) {id : UInt64} (hid : id = 0 ∨ firstObject ≤ id.toNat)
    (hnone : v.object? id = none) : mosDnode (readBlock Γ image) (P.objsetAt sector v.objset) id = pure none := by
  refine h.resolve_none P ?_
  rcases hid with hid | hid
  · exact Or.inl (by rw [hid, UInt64.toNat_zero])
  · rw [Volume.object?, objectAt, if_neg (by omega), List.getElem?_eq_none_iff] at hnone
    have hfirst : firstObject = 5 := rfl
    rw [Volume.objset, List.length_cons, List.length_cons, List.length_cons, List.length_cons, List.length_map]
    omega

end Volumes

end ZfsForensic
