import ZfsForensic.Lemmas.WriteAttrs
import ZfsForensic.Lemmas.WriteObjset
import ZfsForensic.VfsOps

/-!
# Volumes

A volume is what a dataset is for: objects under ids, each with attributes, a file of bytes or a directory of entries, and one of them the
root. It is written as an object set: the master node and the tables of the attributes first, then every object. The definitions that read a
volume (`object?`, `entries?`, `find?`, `Descends`) know nothing of the disk.
-/

namespace ZfsForensic

open Octets Checked

/-! ## The volume -/

/-- The first id of an object that is not of the writer's own. -/
def firstObject : Nat := 5

/-- An entry of a directory: a name, a code for the kind of what it names, and the id of that. -/
structure VolEntry where
  name : Bytes
  code : Nat
  object : UInt64
  name_ne : name ≠ []
  name_le : name.length ≤ mzapNameLen
  name_nul : ∀ b ∈ name, b ≠ 0
  name_utf8 : IsUtf8 name
  code_lt : code < 16
  object_ge : firstObject ≤ object.toNat
  object_lt : object.toNat < 2 ^ 48

/-- A directory: its entries, in whole sectors that have room for them. -/
structure VolDir where
  entries : List VolEntry
  sectors : UInt16
  room : entries.length + 1 ≤ 8 * sectors.toNat

/-- The number of records some bytes take: none take one. -/
def fileRecords (len recordSize : Nat) : Nat := max 1 ((len + recordSize - 1) / recordSize)

/-- A file: its bytes, in records of whole sectors, no more of them than a reader takes. -/
structure VolFile where
  data : Bytes
  sectors : UInt16
  height : Nat
  sectors_pos : 0 < sectors.toNat
  height_le : height ≤ 6
  count : fileRecords data.length (512 * sectors.toNat) ≤ 1024 ^ height
  cap : 512 * sectors.toNat * fileRecords data.length (512 * sectors.toNat) ≤ maxFileBytes

/-- An object of a volume. The size of a file is recorded among its attributes. -/
inductive VolObject where
  | file (attrs : ZplAttrs) (f : VolFile) (known : attrs.unknownAttrIds = []) (size : attrs.size.toNat = f.data.length)
  | dir (attrs : ZplAttrs) (d : VolDir) (known : attrs.unknownAttrIds = [])

/-- The attributes of an object. -/
def VolObject.attrs : VolObject → ZplAttrs
  | .file attrs _ _ _ => attrs
  | .dir attrs _ _ => attrs

theorem VolObject.known : ∀ o : VolObject, o.attrs.unknownAttrIds = []
  | .file _ _ known _ => known
  | .dir _ _ known => known

/-- The tables of the attributes: a registry and layouts, as they are stored, and the layout a writer uses. -/
structure SaTables where
  registryZap : Bytes
  layoutsZap : Bytes
  registry_whole : Whole registryZap
  layouts_whole : Whole layoutsZap
  order : SaOrder (parseSaRegistry registryZap) (parseSaLayouts layoutsZap)

/-- The entries of an object, where it is a directory. -/
def VolObject.entries? : VolObject → Option (List VolEntry)
  | .file .. => none
  | .dir _ d _ => some d.entries

/-- The object of an id. -/
def objectAt (objects : List VolObject) (id : UInt64) : Option VolObject :=
  if id.toNat < firstObject then none else objects[id.toNat - firstObject]?

/-- A volume: its objects, from id 5 on, the id of its root, which is a directory, its tables, and the shape of its array of dnodes. -/
structure Volume where
  tables : SaTables
  objects : List VolObject
  root : UInt64
  perBlock : UInt16
  height : Nat
  root_dir : ((objectAt objects root).bind VolObject.entries?).isSome = true
  perBlock_pos : 0 < perBlock.toNat
  height_le : height ≤ 6
  count : objects.length + firstObject ≤ perBlock.toNat * 1024 ^ height

namespace Volume

variable (v : Volume)

/-- The object of an id. -/
def object? (id : UInt64) : Option VolObject := objectAt v.objects id

/-- The entries of the directory an id names. -/
def entries? (id : UInt64) : Option (List VolEntry) := (v.object? id).bind VolObject.entries?

/-- The entries of the root. -/
def rootEntries : List VolEntry := (v.entries? v.root).getD []

/-- The object a directory names: that of its first entry of the name. -/
def find? (entries : List VolEntry) (name : Bytes) : Option UInt64 := (entries.find? (fun e => e.name == name)).map VolEntry.object

/-- The descent along names from an object, through directories: it ends at an object, or at a name that a directory lacks. -/
inductive Descends : UInt64 → List Bytes → Option UInt64 → Prop
  | here (id : UInt64) : Descends id [] (some id)
  | step {id child : UInt64} {entries : List VolEntry} {name : Bytes} {names : List Bytes} {out : Option UInt64}
      (hdir : v.entries? id = some entries) (hname : find? entries name = some child) (hrest : Descends child names out) :
      Descends id (name :: names) out
  | missing {id : UInt64} {entries : List VolEntry} {name : Bytes} (names : List Bytes) (hdir : v.entries? id = some entries)
      (hname : find? entries name = none) : Descends id (name :: names) none

end Volume

/-! ## Its objects on disk -/

/-- An object of one record. -/
def oneRecord (type bonusType : UInt8) (bonus : Bytes) (data : Bytes) (htype : type ≠ 0) (hbonus : bonus.length ≤ 320)
    (hdata : Whole data) : DmuObject where
  type := type
  bonusType := bonusType
  bonus := bonus
  sectors := UInt16.ofNat (sectorsOf data)
  height := 0
  records := [data]
  type_ne := htype
  bonus_le := hbonus
  sectors_pos := by
    obtain ⟨hpos, hlt, -⟩ := hdata.sectors
    rw [UInt16.toNat_ofNat']
    omega
  height_le := Nat.zero_le _
  records_ne := List.cons_ne_nil _ _
  records_length := by
    obtain ⟨-, hlt, hlen⟩ := hdata.sectors
    intro r hr
    rw [List.mem_singleton.1 hr, UInt16.toNat_ofNat', Nat.mod_eq_of_lt hlt]
    exact hlen
  records_le := le_rfl

/-- The entry of a directory in its ZAP: the code stands in the high four bits of the value. -/
def VolEntry.ent (e : VolEntry) : MzapEnt where
  value := UInt64.ofNat (e.object.toNat + 2 ^ 60 * e.code)
  cd := 0
  name := e.name
  name_ne := e.name_ne
  name_le := e.name_le
  name_nul := e.name_nul

/-- A ZAP of whole sectors. -/
def zapSectors (entries : List MzapEnt) (sectors : Nat) : MzapPhys :=
  { salt := 0, normflags := 0, entries := entries, free := 8 * sectors - 1 - entries.length }

/-- The bytes of a ZAP of whole sectors. -/
def zapBytes (entries : List MzapEnt) (sectors : Nat) : Bytes := (zapSectors entries sectors).encode .little

theorem length_zapBytes {entries : List MzapEnt} {sectors : Nat} (hroom : entries.length + 1 ≤ 8 * sectors) :
    (zapBytes entries sectors).length = 512 * sectors := by
  rw [zapBytes, MzapPhys.encode, MzapPhys.encodeHdr, List.length_append, List.length_append, List.length_append, length_encodeWords,
    length_zeros, length_zeros, zapSectors, Radix.length_flatMap fun e _ => e.length_encode .little]
  unfold mzapEntSize
  simp only [List.length_cons, List.length_nil]
  omega

theorem whole_zapBytes {entries : List MzapEnt} {sectors : Nat} (hlt : sectors < 2 ^ 16) (hroom : entries.length + 1 ≤ 8 * sectors) :
    Whole (zapBytes entries sectors) := ⟨sectors, by omega, hlt, length_zapBytes hroom⟩

/-- A ZAP lists the entries written, under their names where those are text. -/
theorem zapList_zapBytes {entries : List MzapEnt} (hutf : ∀ e ∈ entries, IsUtf8 e.name) (sectors : Nat) :
    zapList (zapBytes entries sectors) = entries.map fun e => (e.name, e.value) := by
  rw [zapBytes, zapList_encode_little, zapSectors]
  refine List.map_congr_left fun e he => ?_
  rw [(fromUtf8Lossy_eq_self_iff e.name).2 (hutf e he)]

/-- A name an entry can have. -/
structure PlainName (name : String) : Prop where
  ne : ascii name ≠ []
  le : (ascii name).length ≤ mzapNameLen
  nul : ∀ b ∈ ascii name, b ≠ 0
  utf8 : IsUtf8 (ascii name)

theorem PlainName.of_checks {name : String} (hlen : ascii name ≠ [] ∧ (ascii name).length ≤ mzapNameLen)
    (hnul : (ascii name).all (· != 0) = true) (hutf : fromUtf8Lossy (ascii name) = ascii name) : PlainName name :=
  ⟨hlen.1, hlen.2, by simpa using hnul, (fromUtf8Lossy_eq_self_iff _).1 hutf⟩

/-- An entry of the writer's own: a plain name and the id it leads to. -/
def linkEnt (name : String) (value : UInt64) (hname : PlainName name) : MzapEnt where
  value := value
  cd := 0
  name := ascii name
  name_ne := hname.ne
  name_le := hname.le
  name_nul := hname.nul

/-- An object without a bonus. -/
theorem length_noBonus : ([] : Bytes).length ≤ 320 := Nat.zero_le _

theorem whole_zapSector {entries : List MzapEnt} (hroom : entries.length ≤ 7) : Whole (zapBytes entries 1) :=
  whole_zapBytes (by decide) (by omega)

/-- A ZAP of one sector. -/
def linkZap (type : UInt8) (htype : type ≠ 0) (entries : List MzapEnt) (hroom : entries.length ≤ 7) : DmuObject :=
  oneRecord type 0 [] (zapBytes entries 1) htype length_noBonus (whole_zapSector hroom)

theorem linkZap_flatten {type : UInt8} (htype : type ≠ 0) {entries : List MzapEnt} (hroom : entries.length ≤ 7) :
    (linkZap type htype entries hroom).records.flatten = zapBytes entries 1 := List.append_nil _

namespace VolFile

variable (f : VolFile)

/-- The bytes of a file, filled up with zeros. -/
def padded : Bytes :=
  f.data ++ zeros (512 * f.sectors.toNat * fileRecords f.data.length (512 * f.sectors.toNat) - f.data.length)

theorem length_le : f.data.length ≤ 512 * f.sectors.toNat * fileRecords f.data.length (512 * f.sectors.toNat) := by
  have hpos : 0 < 512 * f.sectors.toNat := Nat.mul_pos (by decide) f.sectors_pos
  have hmod := Nat.mod_lt (f.data.length + 512 * f.sectors.toNat - 1) hpos
  have hdiv := Nat.div_add_mod (f.data.length + 512 * f.sectors.toNat - 1) (512 * f.sectors.toNat)
  have hmul := Nat.mul_le_mul_left (512 * f.sectors.toNat)
    (Nat.le_max_right 1 ((f.data.length + 512 * f.sectors.toNat - 1) / (512 * f.sectors.toNat)))
  rw [fileRecords]
  omega

theorem length_padded : f.padded.length = 512 * f.sectors.toNat * fileRecords f.data.length (512 * f.sectors.toNat) := by
  have hle := f.length_le
  rw [padded, List.length_append, length_zeros]
  omega

theorem length_groups_padded :
    (Radix.groups (512 * f.sectors.toNat) f.padded).length = fileRecords f.data.length (512 * f.sectors.toNat) := by
  have hpos := f.sectors_pos
  rw [Radix.length_groups, f.length_padded, Nat.add_sub_assoc (by omega), Nat.mul_add_div (by omega), Nat.div_eq_of_lt (by omega),
    Nat.add_zero]

end VolFile

/-- What reads as the content of an object: the bytes of a file, and the ZAP of a directory, cut at the size its attributes record. -/
def VolObject.content : VolObject → Bytes
  | .file _ f _ _ => f.data
  | .dir attrs d _ => (zapBytes (d.entries.map VolEntry.ent) d.sectors.toNat).take attrs.size.toNat

/-- The object of a file or a directory. -/
def VolObject.dmu (tables : SaTables) : VolObject → DmuObject
  | .file attrs f _ _ =>
    { type := 19
      bonusType := dmuOtSa
      bonus := tables.order.encode attrs
      sectors := f.sectors
      height := f.height
      records := Radix.groups (512 * f.sectors.toNat) f.padded
      type_ne := by decide
      bonus_le := by rw [SaOrder.length_encode]; decide
      sectors_pos := f.sectors_pos
      height_le := f.height_le
      records_ne := List.ne_nil_of_length_pos (by rw [f.length_groups_padded]; exact Nat.le_max_left _ _)
      records_length := fun _ hr => Radix.length_of_mem_groups f.length_padded hr
      records_le := by rw [f.length_groups_padded]; exact f.count }
  | .dir attrs d _ =>
    oneRecord 20 dmuOtSa (tables.order.encode attrs) (zapBytes (d.entries.map VolEntry.ent) d.sectors.toNat) (by decide)
      (by rw [SaOrder.length_encode]; decide)
      (whole_zapBytes d.sectors.toNat_lt (by rw [List.length_map]; exact d.room))

theorem plain_root : PlainName "ROOT" := .of_checks (by decide) (by decide) (by decide)

theorem plain_attrs : PlainName "SA_ATTRS" := .of_checks (by decide) (by decide) (by decide)

theorem plain_registry : PlainName "REGISTRY" := .of_checks (by decide) (by decide) (by decide)

theorem plain_layouts : PlainName "LAYOUTS" := .of_checks (by decide) (by decide) (by decide)

/-- Two entries fit in a sector. -/
theorem two_le_room : 2 ≤ 7 := by decide

theorem masterType_ne : (21 : UInt8) ≠ 0 := by decide

theorem saMasterType_ne : (45 : UInt8) ≠ 0 := by decide

theorem registryType_ne : (46 : UInt8) ≠ 0 := by decide

theorem layoutsType_ne : (47 : UInt8) ≠ 0 := by decide

/-- The master node: it names the root, and the tables of the attributes. -/
def masterNode (root : UInt64) : DmuObject :=
  linkZap 21 masterType_ne [linkEnt "ROOT" root plain_root, linkEnt "SA_ATTRS" 2 plain_attrs] two_le_room

/-- The node that names the two tables. -/
def saMasterObject : DmuObject :=
  linkZap 45 saMasterType_ne [linkEnt "REGISTRY" 3 plain_registry, linkEnt "LAYOUTS" 4 plain_layouts] two_le_room

/-- The object set of a volume. -/
def Volume.objset (v : Volume) : DmuObjset where
  osType := dmuOstZfs
  objects := masterNode v.root :: saMasterObject ::
    oneRecord 46 0 [] v.tables.registryZap registryType_ne length_noBonus v.tables.registry_whole ::
    oneRecord 47 0 [] v.tables.layoutsZap layoutsType_ne length_noBonus v.tables.layouts_whole ::
    v.objects.map (VolObject.dmu v.tables)
  perBlock := v.perBlock
  height := v.height
  perBlock_pos := v.perBlock_pos
  height_le := v.height_le
  count := by
    have hcount := v.count
    unfold firstObject at hcount
    simp only [List.length_cons, List.length_map]
    omega

end ZfsForensic
