import Gohan.Converter.Inheritance
import Gohan.Schema.LoadDefinitions

/-!
# What the converter and the server make of inheritance

The same schemas are read by the converter, which makes Go types from them, and by the server.  Both
give a schema the properties of its bases after its own.  They differ about parents: a schema of the
server has one parent, the first that it or one of its bases names, while in the converter every
base brings the property for its own parent along.

`names_and_definitions_agree` says what they agree about: these properties for parents apart, the
names are the same, and where both have a name they take it from the same definition.
-/

set_option autoImplicit false

namespace Gohan.Converter

open Definition
open Machine (final)
open Loading (SchemaObj Registered Manager Act provided generated formatParentID
  getParentPropertyObj listUnder loadMap loadSchemaFromFile NoNil KeepsParent IsBase)

/-! ## The bases of a schema -/

/-- The definitions of the bases of a schema. -/
def basesIn (schemas : List Dict) (data : Dict) : List Dict :=
  (basesOf data).filterMap fun id ↦ schemas.find? fun base ↦ schemaID base = id

/-- The definition that a property of the given origin has. -/
inductive Gives (schemas : List Dict) : Origin → String → Value → Prop
  | written {data : Dict} {name : String} {value : Value} : data ∈ schemas →
      (writtenProperties data).lookup name = some value →
        Gives schemas (.written (schemaID data)) name value
  | parent {data : Dict} : data ∈ schemas → parentOf data ≠ "" →
      Gives schemas (.parent (schemaID data)) (formatParentID (parentOf data))
        (getParentPropertyObj (parentOf data) (parentOf data))

theorem addName_eq_formatParentID {parent : String} (h : parent ≠ "") :
    addName parent "id" = formatParentID parent := by
  rw [addName, if_neg h, formatParentID, String.append_assoc]
  rfl

theorem find?_schemaID {schemas : List Dict} {id : String}
    (h : ∃ base ∈ schemas, schemaID base = id) :
    ∃ base, schemas.find? (fun base ↦ schemaID base = id) = some base ∧ base ∈ schemas ∧
      schemaID base = id := by
  obtain ⟨base, hbase, hid⟩ := h
  have hsome : (schemas.find? fun base ↦ schemaID base = id).isSome :=
    List.find?_isSome.mpr ⟨base, hbase, by simpa using hid⟩
  obtain ⟨first, hfirst⟩ := Option.isSome_iff_exists.mp hsome
  exact ⟨first, hfirst, List.mem_of_find?_eq_some hfirst, by simpa using List.find?_some hfirst⟩

/-- Where there is a schema for each base, these are the schemas. -/
theorem forall₂_basesIn {schemas : List Dict} {data : Dict}
    (h : ∀ id ∈ basesOf data, ∃ base ∈ schemas, schemaID base = id) :
    List.Forall₂ (fun id base ↦ base ∈ schemas ∧ schemaID base = id) (basesOf data)
      (basesIn schemas data) := by
  rw [basesIn]
  generalize basesOf data = ids at h ⊢
  induction ids with
  | nil => exact List.Forall₂.nil
  | cons id ids ih =>
    obtain ⟨base, hfind, hbase⟩ := find?_schemaID (h id List.mem_cons_self)
    rw [List.filterMap_cons, hfind]
    exact List.Forall₂.cons hbase (ih fun id hid ↦ h id (List.mem_cons_of_mem _ hid))

/-! ## Accepted schemas -/

section Accepted

variable [RegexpEngine] [Files] [Packages]

/-- No two properties that the schema has by itself are taken for equal. -/
def NoCollision (data : Dict) : Prop :=
  ∀ schema, Schema.parseUncompressed data = .ok schema → schema.object.Distinct

/-- A list of schemas that the converter and the server both accept.  The converter is told which
of them to convert, and visits these in some order; for the server they are in a file, and none of
the identifiers has been registered before. -/
structure Accepted (list toConvert other : List (List (String × Value))) (order : List String)
    (converted : SchemaSet) (depth : ℕ) (filePath : String) (m : Manager) (acts : List Act) :
    Prop where
  perm : (toConvert ++ other).Perm list
  decoded : ∀ entries ∈ list, Decoded (GoMap.ofList entries)
  converter : ∃ convertSet otherSet, parseAll (toConvert.map GoMap.ofList) = .ok convertSet ∧
    parseAll (other.map GoMap.ofList) = .ok otherSet ∧ order.Perm convertSet.keys ∧
      collectSchemas order convertSet otherSet = .ok converted
  file : ∃ data, loadMap filePath = .ok data ∧ listUnder data "schemas" = list.map .map
  server : loadSchemaFromFile depth filePath m = (.ok (), acts)
  fresh : ∀ entries ∈ list, m.schema (schemaID (GoMap.ofList entries)) = none

variable {list toConvert other : List (List (String × Value))} {order : List String}
  {converted : SchemaSet} {depth : ℕ} {filePath : String} {m : Manager} {acts : List Act}
  {data : Dict} {schema joined : Schema} {edges : List Schema} {bases : List Dict}
  {entries : List (String × Value)} {r : Registered} {name : String} {value : Value}

omit [RegexpEngine] [Files] in
theorem parsed_of_parse (h : Schema.parse data = .ok schema) (hdistinct : NoCollision data) :
    Parsed data schema := by
  obtain ⟨uncompressed, huncompressed, rfl⟩ := parse_eq_ok h
  rw [Object.compressObjects_eq (hdistinct _ huncompressed)]
  exact parseUncompressed_eq_ok huncompressed

omit [RegexpEngine] [Files] [Packages] in
theorem Parsed.noNil (h : Parsed data schema) : NoNil (writtenProperties data) := by
  intro name hname
  obtain ⟨m, hm⟩ := h.maps name _ hname
  cases hm

/-- Every schema of the list has been parsed and is in the graph, and the identifiers are
distinct. -/
theorem Accepted.parsed (h : Accepted list toConvert other order converted depth filePath m acts) :
    ∃ all : SchemaSet, (∀ entries ∈ list, ∃ schema,
        Schema.parse (GoMap.ofList entries) = .ok schema ∧
          all.lookup (schemaID (GoMap.ofList entries)) = some schema) ∧
      (∀ id ∈ all, ∃ entries ∈ list, schemaID (GoMap.ofList entries) = id) ∧
      (∀ entries ∈ toConvert, JoinedWith all converted (schemaID (GoMap.ofList entries))) ∧
      (list.map fun e ↦ schemaID (GoMap.ofList e)).Nodup := by
  obtain ⟨convertSet, otherSet, hconvert, hother, horder, hcollect⟩ := h.converter
  obtain ⟨-, hc, hcback, hcnodup⟩ := parseFrom_eq_ok hconvert
  obtain ⟨-, ho, hoback, honodup⟩ := parseFrom_eq_ok hother
  obtain ⟨hdisjoint, hjoined⟩ := collectSchemas_eq_ok
    (fun name hname ↦ AList.mem_keys.mp (horder.mem_iff.mp hname)) hcollect
  have hin : ∀ {set : SchemaSet} {id : String} {schema : Schema},
      set.lookup id = some schema → id ∈ set :=
    fun hs ↦ AList.lookup_isSome.mp (by rw [hs]; rfl)
  refine ⟨convertSet ∪ otherSet, fun entries he ↦ ?_, fun id hid ↦ ?_, fun entries he ↦ ?_, ?_⟩
  · rcases List.mem_append.mp (h.perm.mem_iff.mpr he) with he | he
    · obtain ⟨-, schema, hparse, hlookup⟩ := hc _ (List.mem_map_of_mem he)
      exact ⟨schema, hparse, by rw [GoMap.lookup_union, hlookup, Option.some_or]⟩
    · obtain ⟨-, schema, hparse, hlookup⟩ := ho _ (List.mem_map_of_mem he)
      have hnot : schemaID (GoMap.ofList entries) ∉ convertSet :=
        fun hmem ↦ hdisjoint _ hmem (hin hlookup)
      exact ⟨schema, hparse, by
        rw [GoMap.lookup_union, AList.lookup_eq_none.mpr hnot, Option.none_or, hlookup]⟩
  · have hback : ∃ d ∈ toConvert.map GoMap.ofList ++ other.map GoMap.ofList, schemaID d = id := by
      rcases AList.mem_union.mp hid with hid | hid
      · obtain ⟨d, hd, heq⟩ := (hcback id hid).resolve_left (AList.notMem_empty id)
        exact ⟨d, List.mem_append_left _ hd, heq⟩
      · obtain ⟨d, hd, heq⟩ := (hoback id hid).resolve_left (AList.notMem_empty id)
        exact ⟨d, List.mem_append_right _ hd, heq⟩
    obtain ⟨d, hd, heq⟩ := hback
    rw [← List.map_append] at hd
    obtain ⟨entries, he, rfl⟩ := List.mem_map.mp hd
    exact ⟨entries, h.perm.mem_iff.mp he, heq⟩
  · obtain ⟨-, schema, -, hlookup⟩ := hc _ (List.mem_map_of_mem he)
    exact hjoined _ (horder.mem_iff.mpr (AList.mem_keys.mpr (hin hlookup)))
  · refine (h.perm.map _).nodup_iff.mp ?_
    rw [List.map_append, List.nodup_append]
    rw [List.map_map] at hcnodup honodup
    refine ⟨hcnodup, honodup, fun id hid id' hid' heq ↦ ?_⟩
    obtain ⟨e, he, rfl⟩ := List.mem_map.mp hid
    obtain ⟨e', he', rfl⟩ := List.mem_map.mp hid'
    obtain ⟨-, schema, -, hlookup⟩ := hc _ (List.mem_map_of_mem he)
    obtain ⟨-, schema', -, hlookup'⟩ := ho _ (List.mem_map_of_mem he')
    exact hdisjoint _ (hin hlookup) (heq ▸ hin hlookup')

/-- A schema that is converted has been joined with what its bases were parsed as. -/
theorem Accepted.joins (h : Accepted list toConvert other order converted depth filePath m acts)
    (hmem : entries ∈ toConvert) : ∃ schema edges joined,
      Schema.parse (GoMap.ofList entries) = .ok schema ∧
        List.Forall₂ (fun base edge ↦ Schema.parse base = .ok edge)
          (basesIn (list.map GoMap.ofList) (GoMap.ofList entries)) edges ∧
        schema.join edges = .ok joined ∧
        converted.lookup (schemaID (GoMap.ofList entries)) = some joined ∧
        List.Forall₂ (fun id base ↦ base ∈ list.map GoMap.ofList ∧ schemaID base = id)
          (basesOf (GoMap.ofList entries))
          (basesIn (list.map GoMap.ofList) (GoMap.ofList entries)) := by
  obtain ⟨all, hall, hback, hjoined, -⟩ := h.parsed
  have hlist : entries ∈ list := h.perm.mem_iff.mp (List.mem_append_left _ hmem)
  obtain ⟨schema, hparse, hlookup⟩ := hall entries hlist
  obtain ⟨schema', edges, joined, hlookup', hedges, hjoin, hresult⟩ := hjoined entries hmem
  obtain rfl := Option.some.inj (hlookup'.symm.trans hlookup)
  have hbases : schema'.bases = basesOf (GoMap.ofList entries) := by
    obtain ⟨uncompressed, huncompressed, rfl⟩ := parse_eq_ok hparse
    exact (parseUncompressed_eq_ok huncompressed).bases (h.decoded entries hlist)
  rw [hbases] at hedges
  have hexist : ∀ id ∈ basesOf (GoMap.ofList entries),
      ∃ base ∈ list.map GoMap.ofList, schemaID base = id := by
    intro id hid
    obtain ⟨edge, -, hedge⟩ := Visit.exists_mem_right hedges hid
    obtain ⟨e, he, heq⟩ := hback id (AList.lookup_isSome.mp (by rw [hedge]; rfl))
    exact ⟨_, List.mem_map_of_mem he, heq⟩
  have hin := forall₂_basesIn hexist
  refine ⟨schema', edges, joined, hparse, ?_, hjoin, hresult, hin⟩
  -- the schema in the graph under the identifier of a base is that base, parsed
  clear hexist hbases hjoin
  generalize basesOf (GoMap.ofList entries) = ids at hedges hin
  generalize basesIn (list.map GoMap.ofList) (GoMap.ofList entries) = bases at hin ⊢
  induction hedges generalizing bases with
  | nil =>
    cases hin
    exact List.Forall₂.nil
  | @cons id edge ids edges hedge _ ih =>
    cases hin with
    | @cons _ base _ bases hbase hrest =>
      obtain ⟨hmem, rfl⟩ := hbase
      obtain ⟨e, he, rfl⟩ := List.mem_map.mp hmem
      obtain ⟨schema, hparse, hlookup⟩ := hall e he
      obtain rfl := Option.some.inj (hlookup.symm.trans hedge)
      exact List.Forall₂.cons hparse (ih _ hrest)

/-! ## What they agree about -/

/-- The server has the property from some definition, and the converter from the same one, which is
that of the schema itself if it has one. -/
def SameDefinition (schemas : List Dict) (data : Dict) (converted : Schema) (registered : SchemaObj)
    (name : String) : Prop :=
  ∃ property value, converted.object.properties.lookup name = some property ∧
    registered.Takes name value ∧ Gives schemas property.origin name value ∧
      (declared data name = none ∨ declared data name = some property.origin)

omit [RegexpEngine] [Files] [Packages] in
theorem declared_eq_none_iff : declared data name = none ↔
    name ∉ writtenProperties data ∧ generated (parentOf data) name = none := by
  rw [declared, generated]
  by_cases hwritten : name ∈ writtenProperties data
  · simp [hwritten]
  · rw [if_neg hwritten]
    by_cases hparent : parentOf data = ""
    · simp [hwritten, hparent]
    · simp [hwritten, hparent, addName_eq_formatParentID hparent]

omit [RegexpEngine] [Files] [Packages] in
/-- A definition gives its properties the origins that they are declared with. -/
theorem Parsed.exists_gives {schemas : List Dict} (h : Parsed data schema) (hmem : data ∈ schemas)
    (hgives : (writtenProperties data).lookup name = some value ∨
      generated (parentOf data) name = some value) :
    ∃ o, Converter.declared data name = some o ∧ Gives schemas o name value := by
  rcases hgives with hwritten | hgenerated
  · have hin : name ∈ writtenProperties data :=
      AList.lookup_isSome.mp (by rw [hwritten]; rfl)
    exact ⟨_, if_pos hin, Gives.written hmem hwritten⟩
  · obtain ⟨hparent, rfl, rfl⟩ := Loading.generated_eq_some_iff.mp hgenerated
    have hout := h.parentFree hparent
    rw [addName_eq_formatParentID hparent] at hout
    refine ⟨.parent (schemaID data), ?_, Gives.parent hmem hparent⟩
    rw [Converter.declared, if_neg hout, if_pos ⟨hparent, (addName_eq_formatParentID hparent).symm⟩]

omit [RegexpEngine] [Files] [Packages] in
/-- What the server provides comes from the same definition in the converter. -/
theorem Joined.exists_origin {schemas : List Dict} (h : Joined schema edges joined)
    (hschema : Parsed data schema) (hedges : List.Forall₂ Parsed bases edges)
    (hmem : ∀ d ∈ data :: bases, d ∈ schemas)
    (hvalue : provided "" (data :: bases) name = some value) :
    ∃ o, joined.object.origin? name = some o ∧ Gives schemas o name value ∧
      (declared data name = none ∨ declared data name = some o) := by
  rw [provided, if_pos rfl, Option.or_eq_some_iff] at hvalue
  rcases hvalue with hown | ⟨hnone, hinherited⟩
  · obtain ⟨o, ho, hgives⟩ := hschema.exists_gives (hmem data List.mem_cons_self)
      ((Option.or_eq_some_iff.mp hown).imp id And.right)
    exact ⟨o, h.own name o ((hschema.declared name).trans ho), hgives, .inr ho⟩
  · obtain ⟨base, hbase, hgives⟩ := Loading.exists_of_provided hinherited
    obtain ⟨edge, hedge, hparsed⟩ := Visit.exists_mem_right hedges hbase
    obtain ⟨o, ho, hgives⟩ := hparsed.exists_gives
      (hmem base (List.mem_cons_of_mem _ hbase)) hgives
    have hfree : declared data name = none := by
      obtain ⟨hwritten, hgenerated⟩ := Option.or_eq_none_iff.mp hnone
      exact declared_eq_none_iff.mpr ⟨AList.lookup_eq_none.mp hwritten, hgenerated⟩
    refine ⟨o, ?_, hgives, .inl hfree⟩
    exact h.inherited edge hedge name o ((hschema.declared name).trans hfree)
      ((hparsed.declared name).trans ho)

omit [RegexpEngine] [Files] [Packages] in
/-- The names in the converter are those that the server provides, and those for the parents of
bases. -/
theorem Joined.mem_iff (h : Joined schema edges joined) (hschema : Parsed data schema)
    (hedges : List.Forall₂ Parsed bases edges) :
    name ∈ joined.object.properties ↔ (∃ v, provided "" (data :: bases) name = some v) ∨
      ∃ base ∈ bases, parentOf base ≠ "" ∧ name = formatParentID (parentOf base) := by
  have horigin : name ∈ joined.object.properties ↔ ∃ o, joined.object.origin? name = some o := by
    rw [← AList.lookup_isSome, Option.isSome_iff_exists]
    exact ⟨fun ⟨p, hp⟩ ↦ ⟨p.origin, by rw [Object.origin?, PropertySet.origin?, hp]; rfl⟩,
      fun ⟨o, ho⟩ ↦ (Option.map_eq_some_iff.mp ho).imp fun p hp ↦ hp.1⟩
  rw [horigin]
  constructor
  · rintro ⟨o, ho⟩
    rcases h.origin name o ho with ho | ⟨-, edge, hedge, ho⟩
    · refine .inl ?_
      have hdeclared : declared data name ≠ none := by
        rw [← hschema.declared name, ho]
        simp
      by_cases hwritten : name ∈ writtenProperties data
      · exact Loading.exists_provided List.mem_cons_self hwritten
      · have hgenerated : generated (parentOf data) name ≠ none :=
          fun hnone ↦ hdeclared (declared_eq_none_iff.mpr ⟨hwritten, hnone⟩)
        obtain ⟨v, hv⟩ := Option.ne_none_iff_exists'.mp hgenerated
        refine ⟨v, ?_⟩
        rw [provided, if_pos rfl, AList.lookup_eq_none.mpr hwritten, Option.none_or, hv,
          Option.some_or]
    · obtain ⟨base, hbase, hparsed⟩ := Visit.exists_mem_left hedges hedge
      have hdeclared : declared base name ≠ none := by
        rw [← hparsed.declared name, ho]
        simp
      by_cases hwritten : name ∈ writtenProperties base
      · exact .inl (Loading.exists_provided (List.mem_cons_of_mem _ hbase) hwritten)
      · have hgenerated : generated (parentOf base) name ≠ none :=
          fun hnone ↦ hdeclared (declared_eq_none_iff.mpr ⟨hwritten, hnone⟩)
        obtain ⟨v, hv⟩ := Option.ne_none_iff_exists'.mp hgenerated
        obtain ⟨hparent, hname, -⟩ := Loading.generated_eq_some_iff.mp hv
        exact .inr ⟨base, hbase, hparent, hname⟩
  · rintro (⟨v, hv⟩ | ⟨base, hbase, hparent, rfl⟩)
    · have hall : ∀ d ∈ data :: bases, d ∈ data :: bases := fun _ hd ↦ hd
      obtain ⟨o, ho, -⟩ := h.exists_origin hschema hedges hall hv
      exact ⟨o, ho⟩
    · obtain ⟨edge, hedge, hparsed⟩ := Visit.exists_mem_right hedges hbase
      obtain ⟨o, ho, -⟩ := hparsed.exists_gives hbase
        (.inr (Loading.generated_eq_some_iff.mpr ⟨hparent, rfl, rfl⟩))
      cases hown : schema.object.origin? (formatParentID (parentOf base)) with
      | some o' => exact ⟨o', h.own _ o' hown⟩
      | none => exact ⟨o, h.inherited edge hedge _ o hown ((hparsed.declared _).trans ho)⟩

/-- **What the converter and the server agree about.**  Of a schema that is not abstract the
converter has the properties that the server has, and those for the parents of the bases; and each
property of the server has the same definition in both. -/
theorem names_and_definitions_agree
    (h : Accepted list toConvert other order converted depth filePath m acts)
    (hmem : entries ∈ toConvert) (hconcrete : ¬IsAbstract (GoMap.ofList entries))
    (hr : (final Manager.step m acts).schema (schemaID (GoMap.ofList entries)) = some r)
    (hdistinct : ∀ d ∈ GoMap.ofList entries ::
      basesIn (list.map GoMap.ofList) (GoMap.ofList entries), NoCollision d)
    (hkeeps : KeepsParent (GoMap.ofList entries)
      (basesIn (list.map GoMap.ofList) (GoMap.ofList entries))) :
    ∃ joined, converted.lookup (schemaID (GoMap.ofList entries)) = some joined ∧
      (∀ name, name ∈ joined.object.properties ↔
        name ∈ r.obj.Properties.map (·.own.id) ∨
          ∃ base ∈ basesIn (list.map GoMap.ofList) (GoMap.ofList entries),
            parentOf base ≠ "" ∧ name = formatParentID (parentOf base)) ∧
      ∀ name ∈ r.obj.Properties.map (·.own.id), SameDefinition (list.map GoMap.ofList)
        (GoMap.ofList entries) joined r.obj name := by
  have hlist : entries ∈ list := h.perm.mem_iff.mp (List.mem_append_left _ hmem)
  obtain ⟨-, -, -, -, hids⟩ := h.parsed
  obtain ⟨schema, edges, joined, hparse, hedges, hjoin, hresult, hbases⟩ := h.joins hmem
  have hschema := parsed_of_parse hparse (hdistinct _ List.mem_cons_self)
  have hparsed : List.Forall₂ Parsed
      (basesIn (list.map GoMap.ofList) (GoMap.ofList entries)) edges :=
    ((List.forall₂_and_left _ _).mpr ⟨fun d hd ↦ hdistinct d (List.mem_cons_of_mem _ hd),
      hedges⟩).imp fun _ _ hd ↦ parsed_of_parse hd.2 hd.1
  have hall : ∀ d ∈ GoMap.ofList entries ::
      basesIn (list.map GoMap.ofList) (GoMap.ofList entries), d ∈ list.map GoMap.ofList := by
    intro d hd
    rcases List.mem_cons.mp hd with rfl | hd
    · exact List.mem_map_of_mem hlist
    · obtain ⟨id, -, hd⟩ := Visit.exists_mem_left hbases hd
      exact hd.1
  -- the server
  have hne : filePath ≠ "" := by
    rintro rfl
    have hrun := h.server
    cases depth with
    | zero => exact absurd (Prod.ext_iff.mp hrun).1 (Go.panicf_ne_ok _ _ _)
    | succ depth =>
      rw [loadSchemaFromFile, if_pos rfl] at hrun
      obtain ⟨-, rfl⟩ := Machine.Prog.pure_eq_ok.mp hrun
      exact absurd (hr.symm.trans (h.fresh entries hlist)) (by simp)
  obtain ⟨data, hdata, hschemas⟩ := h.file
  obtain ⟨depth', data', read, prepared, as₁, as₂, as₃, as₄, as₅, as₆, -, hrun, rfl⟩ :=
    Loading.loadSchemaFromFile_eq_ok hne h.server
  obtain rfl : data' = data := Except.ok.inj (hrun.loadMap.symm.trans hdata)
  obtain ⟨metaschema, s, m', acts', hnew, hs, hextend, hisbase⟩ :=
    hrun.registered hschemas hids h.fresh hlist hconcrete hr
  obtain ⟨hmade, hlookup⟩ := Loading.definitions_eq_provided hnew hs
    (hbases.imp fun id base hbase ↦ by
      obtain ⟨hin, rfl⟩ := hbase
      obtain ⟨e, he, rfl⟩ := List.mem_map.mp hin
      exact hisbase e he)
    hschema.noNil (fun d hd ↦ by
      obtain ⟨edge, -, hedge⟩ := Visit.exists_mem_right hparsed hd
      exact hedge.noNil) hkeeps hextend
  have hjoined := join_eq_ok hjoin
  have hnames : ∀ name, name ∈ r.obj.Properties.map (·.own.id) ↔
      ∃ v, provided "" (GoMap.ofList entries ::
        basesIn (list.map GoMap.ofList) (GoMap.ofList entries)) name = some v := by
    intro name
    rw [hmade.mem_ids_iff]
    simp only [hlookup]
  refine ⟨joined, hresult, fun name ↦ ?_, fun name hname ↦ ?_⟩
  · rw [hnames name]
    exact hjoined.mem_iff hschema hparsed
  · obtain ⟨v, hv⟩ := (hnames name).mp hname
    obtain ⟨o, ho, hgives, hown⟩ := hjoined.exists_origin hschema hparsed hall hv
    obtain ⟨property, hproperty, rfl⟩ := Option.map_eq_some_iff.mp ho
    exact ⟨property, v, hproperty, hmade.takes ((hlookup name).trans hv), hgives, hown⟩

end Accepted

/-! ## A site whose bases have parents -/

/-- Packages for examples; the names there are of small letters, and have no numbers with them. -/
abbrev plainPackages : Packages where
  snakeToCamel name := String.ofList (((name.toList.splitOn '_').map fun word ↦
    if word = ['i', 'd'] then ['I', 'D']
    else (word.take 1).map Char.toUpper ++ word.drop 1).flatten)
  formatFloat q := toString q.num ++ "E+00"
  sortByHash value nodes := nodes.insertionSort fun p q ↦ (value p).value ≤ (value q).value
  sortByHash_perm _ _ := List.perm_insertionSort _ _

/-- The entries of a definition. -/
def entriesOf (definition : Value) : List (String × Value) := definition.map?.getD []

/-- A port of a tenant, and what is attached to a network. -/
def portEntries : List (String × Value) :=
  entriesOf (Loading.definition "port" [("parent", .str "tenant"),
    ("extends", .list [.str "attached"])] [])

/-- A tenant, an abstract schema and a port. -/
def siteList : List (List (String × Value)) := [
  entriesOf (Loading.definition "tenant" [] [("name", .map [("type", .str "string")])]),
  entriesOf (Loading.definition "attached" [("type", .str "abstract"),
    ("parent", .str "network")] [("mac", .map [("type", .str "string")])]),
  portEntries]

/-- The file with the three definitions. -/
def siteFile : List (String × Value) :=
  [("site.yaml", .map [("schemas", .list (siteList.map .map))])]

/-- What the converter makes of the site. -/
def siteSchemas : SchemaSet :=
  letI := plainPackages
  (do
    let convertSet ← parseAll (siteList.map GoMap.ofList)
    collectSchemas ["port", "attached", "tenant"] convertSet ∅).toOption.getD ∅

theorem accepted_site : letI := Re2.engine
    letI := Loading.ofContents siteFile
    letI := plainPackages
    Accepted siteList siteList [] ["port", "attached", "tenant"] siteSchemas 1 "site.yaml" {}
      (loadSchemaFromFile 1 "site.yaml" {}).2 := by
  let _ := Re2.engine
  let _ := Loading.ofContents siteFile
  let _ := plainPackages
  have hload : (loadSchemaFromFile 1 "site.yaml" {}).1 = .ok () := by decide +kernel
  have hrun : (do
      let convertSet ← parseAll (siteList.map GoMap.ofList)
      collectSchemas ["port", "attached", "tenant"] convertSet ∅ : Go SchemaSet).isOk = true := by
    decide +kernel
  have hkeys : (parseAll (siteList.map GoMap.ofList)).toOption.map AList.keys =
      some ["port", "attached", "tenant"] := by
    decide +kernel
  obtain ⟨converted, hconverted⟩ := Go.exists_ok_of_isOk hrun
  obtain ⟨convertSet, hconvert, hcollect⟩ := Go.bind_eq_ok.mp hconverted
  refine ⟨by rw [List.append_nil], fun entries he bases h ↦ ?_, ⟨convertSet, ∅, hconvert, rfl, ?_,
    ?_⟩, ⟨_, rfl, rfl⟩, Machine.Prog.eq_ok_of_fst hload, fun _ _ ↦ rfl⟩
  · have hdecoded : ∀ entries ∈ siteList,
        ((GoMap.ofList entries).get "extends").slice?.isSome = true ∨
          (GoMap.ofList entries).get "extends" = .nil := by
      decide +kernel
    rcases hdecoded entries he with hslice | hnil
    · rw [h] at hslice
      cases hslice
    · rw [h] at hnil
      cases hnil
  · rw [hconvert] at hkeys
    rw [← Option.some.inj hkeys]
  · rw [siteSchemas, hconverted]
    exact hcollect

/-- A schema with a parent whose base has another one: to the converter it has a property for each,
while the server keeps to its own parent. -/
theorem names_differ_site : letI := Re2.engine
    ¬∀ [Files] [Packages] (list toConvert other : List (List (String × Value)))
      (order : List String) (converted : SchemaSet) (depth : ℕ) (filePath : String) (m : Manager)
      (acts : List Act),
      Accepted list toConvert other order converted depth filePath m acts →
        ∀ entries ∈ toConvert, ¬IsAbstract (GoMap.ofList entries) → ∀ r,
          (final Manager.step m acts).schema (schemaID (GoMap.ofList entries)) = some r →
            ∃ joined, converted.lookup (schemaID (GoMap.ofList entries)) = some joined ∧
              (∀ name, name ∈ joined.object.properties ↔
                name ∈ r.obj.Properties.map (·.own.id)) ∧
              ∀ name ∈ r.obj.Properties.map (·.own.id), SameDefinition (list.map GoMap.ofList)
                (GoMap.ofList entries) joined r.obj name := by
  let _ := Re2.engine
  intro h
  let _ := Loading.ofContents siteFile
  let _ := plainPackages
  have hids : ((final Manager.step {} (loadSchemaFromFile 1 "site.yaml" {}).2).schema "port").map
      (fun r ↦ r.obj.Properties.map (·.own.id)) = some ["mac", "tenant_id"] := by
    decide +kernel
  obtain ⟨r, hr, hproperties⟩ := Option.map_eq_some_iff.mp hids
  obtain ⟨joined, hjoined, hnames, -⟩ := h siteList siteList [] _ siteSchemas 1 "site.yaml" {} _
    accepted_site portEntries (by simp [siteList]) (by decide +kernel) r hr
  have hmem : (siteSchemas.lookup "port").map
      (fun joined : Schema ↦ decide ("network_id" ∈ joined.object.properties)) = some true := by
    decide +kernel
  have hlookup : siteSchemas.lookup "port" = some joined := hjoined
  rw [hlookup, Option.map_some, Option.some.injEq, decide_eq_true_eq] at hmem
  have hin := (hnames "network_id").mp hmem
  rw [hproperties] at hin
  revert hin
  decide

theorem names_and_definitions_agree_site : letI := Re2.engine
    letI := Loading.ofContents siteFile
    letI := plainPackages
    ∃ (r : Registered) (joined : Schema), siteSchemas.lookup "port" = some joined ∧
      (∀ name, name ∈ joined.object.properties ↔
        name ∈ r.obj.Properties.map (·.own.id) ∨
          ∃ base ∈ basesIn (siteList.map GoMap.ofList) (GoMap.ofList portEntries),
            parentOf base ≠ "" ∧ name = formatParentID (parentOf base)) ∧
      ∀ name ∈ r.obj.Properties.map (·.own.id), SameDefinition (siteList.map GoMap.ofList)
        (GoMap.ofList portEntries) joined r.obj name := by
  let _ := Re2.engine
  let _ := Loading.ofContents siteFile
  let _ := plainPackages
  have hids : ((final Manager.step {} (loadSchemaFromFile 1 "site.yaml" {}).2).schema
      "port").isSome = true := by
    decide +kernel
  have hid : schemaID (GoMap.ofList portEntries) = "port" := by decide +kernel
  have hconcrete : ¬IsAbstract (GoMap.ofList portEntries) := by decide +kernel
  have hproperties : HasProperties (GoMap.ofList portEntries) := by decide +kernel
  have hnodup : ∀ d ∈ GoMap.ofList portEntries ::
      basesIn (siteList.map GoMap.ofList) (GoMap.ofList portEntries),
        (Schema.parseUncompressed d).toOption.map (fun s ↦ decide
          ((s.object.hashed.map (·.2)).Nodup)) = some true := by
    decide +kernel
  have hdistinct : ∀ d ∈ GoMap.ofList portEntries ::
      basesIn (siteList.map GoMap.ofList) (GoMap.ofList portEntries), NoCollision d := by
    intro d hd schema hschema
    have hhashes := hnodup d hd
    rw [hschema] at hhashes
    have hhashes := of_decide_eq_true (Option.some.inj hhashes)
    rwa [List.Nodup, List.pairwise_map] at hhashes
  rw [← hid] at hids ⊢
  obtain ⟨r, hr⟩ := Option.isSome_iff_exists.mp hids
  exact ⟨r, names_and_definitions_agree accepted_site (by simp [siteList]) hconcrete hr hdistinct
    (.inl hproperties)⟩

end Gohan.Converter
