import Gohan.Schema.LoadOrder
import Gohan.Schema.Definition

/-!
# The definitions that a registered schema is made from

`Extend` puts the properties of a base into the JSON schema and makes the properties of the schema
anew from there.  So a schema has its own properties, those of its bases as far as it has none of
the name, the first base first, and one for the first parent that is met on the way
(`definitions_eq_provided`).
-/

set_option autoImplicit false

namespace Gohan

namespace Loading

open Definition
open Machine (Prog final)
open Machine.Prog (lift act forEach mapEach attempt)

/-! ## What a definition says -/

/-- The property for a parent. -/
def generated (parent name : String) : Option Value :=
  if parent ≠ "" ∧ name = formatParentID parent then some (getParentPropertyObj parent parent)
  else none

/-- The definition of a property in a row of schemas: the first that is written down, or is for the
first parent there is. -/
def provided (parent : String) : List Dict → String → Option Value
  | [], _ => none
  | data :: schemas, name =>
    if parent = "" then
      (((writtenProperties data).lookup name).or (generated (parentOf data) name)).or
        (provided (parentOf data) schemas name)
    else ((writtenProperties data).lookup name).or (provided parent schemas name)

section Provided

variable {parent name : String} {v : Value} {data : Dict} {schemas : List Dict}

theorem generated_eq_some_iff : generated parent name = some v ↔
    parent ≠ "" ∧ name = formatParentID parent ∧ v = getParentPropertyObj parent parent := by
  rw [generated]
  split
  · next h => simp [h, eq_comm]
  · next h => simp only [reduceCtorEq, false_iff, not_and]; exact fun h₁ h₂ ↦ absurd ⟨h₁, h₂⟩ h

/-- What is provided is written down by one of the schemas, or is for the parent of one. -/
theorem exists_of_provided (h : provided parent schemas name = some v) : ∃ data ∈ schemas,
    (writtenProperties data).lookup name = some v ∨ generated (parentOf data) name = some v := by
  induction schemas generalizing parent with
  | nil => cases h
  | cons data schemas ih =>
    rw [provided] at h
    split at h
    · rcases Option.or_eq_some_iff.mp h with h | ⟨-, h⟩
      · exact ⟨data, List.mem_cons_self, (Option.or_eq_some_iff.mp h).imp id And.right⟩
      · obtain ⟨d, hd, hgives⟩ := ih h
        exact ⟨d, List.mem_cons_of_mem _ hd, hgives⟩
    · rcases Option.or_eq_some_iff.mp h with h | ⟨-, h⟩
      · exact ⟨data, List.mem_cons_self, .inl h⟩
      · obtain ⟨d, hd, hgives⟩ := ih h
        exact ⟨d, List.mem_cons_of_mem _ hd, hgives⟩

/-- What one of the schemas writes down is provided, by it or by another one. -/
theorem exists_provided (hdata : data ∈ schemas) (h : name ∈ writtenProperties data) :
    ∃ v, provided parent schemas name = some v := by
  induction schemas generalizing parent with
  | nil => cases hdata
  | cons first schemas ih =>
    rw [provided]
    rcases List.mem_cons.mp hdata with rfl | hdata
    · obtain ⟨v, hv⟩ := Option.isSome_iff_exists.mp (AList.lookup_isSome.mpr h)
      split
      · exact ⟨v, by rw [hv, Option.some_or, Option.some_or]⟩
      · exact ⟨v, by rw [hv, Option.some_or]⟩
    · split
      · obtain ⟨v, hv⟩ := @ih (parentOf first) hdata
        rw [hv]
        exact Option.isSome_iff_exists.mp (by simp)
      · obtain ⟨v, hv⟩ := @ih parent hdata
        rw [hv]
        exact Option.isSome_iff_exists.mp (by simp)

end Provided

/-- No key of the map has nil. -/
def NoNil (m : Dict) : Prop := ∀ name, m.lookup name ≠ some .nil

section Maps

variable {m m' : Dict} {name : String}

theorem NoNil.union (h : NoNil m) (h' : NoNil m') : NoNil (m ∪ m') := by
  intro name hname
  rw [GoMap.lookup_union, Option.or_eq_some_iff] at hname
  exact hname.elim (h name) fun hnil ↦ h' name hnil.2

theorem NoNil.get_eq_nil_iff (h : NoNil m) : m.get name = .nil ↔ m.lookup name = none := by
  rw [GoMap.get]
  cases hlookup : m.lookup name with
  | none => simp
  | some v =>
    simp only [Option.getD_some, reduceCtorEq, iff_false]
    exact fun heq ↦ h name (heq ▸ hlookup)

theorem generated_ne_nil (parent name : String) : generated parent name ≠ some .nil := by
  rw [generated]
  split <;> simp [getParentPropertyObj]

end Maps

/-! ## `Init` and `Extend` -/

namespace SchemaObj

/-- The map of properties in the JSON schema. -/
def properties (schema : SchemaObj) : Dict := (schema.JSONSchema.get "properties").maybeMap

/-- The definitions that `Init` makes the properties from. -/
def definitions (schema : SchemaObj) : Dict :=
  if schema.lacksParentID schema.properties then
    schema.properties.insert (formatParentID schema.Parent)
      (getParentPropertyObj schema.Parent schema.Parent)
  else schema.properties

variable {s t base : SchemaObj} {name : String}

theorem lookup_definitions (h : NoNil s.properties) (name : String) :
    s.definitions.lookup name = (s.properties.lookup name).or (generated s.Parent name) := by
  rw [definitions, generated]
  by_cases hname : s.Parent ≠ "" ∧ name = formatParentID s.Parent
  · rw [if_pos hname]
    obtain ⟨hparent, rfl⟩ := hname
    cases hlookup : s.properties.lookup (formatParentID s.Parent) with
    | none =>
      have hlacks : s.lacksParentID s.properties = true := by
        simp [lacksParentID, hparent, h.get_eq_nil_iff.mpr hlookup]
      rw [if_pos hlacks, AList.lookup_insert, Option.none_or]
    | some v =>
      have hlacks : s.lacksParentID s.properties = false := by
        have hnot : s.properties.get (formatParentID s.Parent) ≠ .nil := fun hnil ↦ by
          rw [h.get_eq_nil_iff.mp hnil] at hlookup
          cases hlookup
        simp [lacksParentID, hnot]
      rw [hlacks, if_neg Bool.false_ne_true, hlookup, Option.some_or]
  · rw [if_neg hname, Option.or_none]
    split
    · next hlacks =>
      have hparent : s.Parent ≠ "" := by
        rw [lacksParentID, Bool.and_eq_true] at hlacks
        simpa using hlacks.1
      rw [AList.lookup_insert_ne fun heq ↦ hname ⟨hparent, heq⟩]
    · rfl

/-- What `Init` makes of a schema that is not abstract. -/
structure Initialized (s t : SchemaObj) : Prop where
  Parent : t.Parent = s.Parent
  Extends : t.Extends = s.Extends
  /-- If there is a map of properties, it has all the definitions. -/
  complete : (s.JSONSchema.get "properties").map?.isSome = true →
    t.JSONSchema.get "properties" = .map (GoMap.toList s.definitions)
  incomplete : (s.JSONSchema.get "properties").map?.isSome = false →
    t.JSONSchema.get "properties" = s.JSONSchema.get "properties"
  made : ∃ required properties, parseProperties required (GoMap.toList s.definitions) =
    .ok properties ∧ t.Properties.Perm properties

theorem get_insert_of_ne (m : Dict) {k l : String} (h : k ≠ l) (v : Value) :
    GoMap.get (m.insert l v) k = m.get k := by
  rw [GoMap.get, GoMap.get, AList.lookup_insert_ne h]

variable [Files] in
theorem init_eq_ok (hconcrete : s.isAbstract = false) (h : s.init = .ok t) :
    Initialized s t := by
  rw [init, hconcrete, if_neg Bool.false_ne_true] at h
  obtain ⟨objs, hobjs, h⟩ := Go.bind_eq_ok.mp h
  obtain ⟨indexes, -, h⟩ := Go.bind_eq_ok.mp h
  obtain rfl := Except.ok.inj h
  refine ⟨rfl, rfl, fun hmap ↦ ?_, fun hmap ↦ ?_,
    ⟨_, objs, hobjs, Files.sortProperties_perm _ _⟩⟩
  · show GoMap.get (AList.insert _ _ (AList.insert _ _ _)) "properties" = _
    rw [get_insert_of_ne _ (by decide), get_insert_of_ne _ (by decide)]
    rw [definitions, properties]
    cases hget : s.JSONSchema.get "properties" with
    | map raw => rw [GoMap.get_insert_self]
    | _ => rw [hget] at hmap; cases hmap
  · show GoMap.get (AList.insert _ _ (AList.insert _ _ _)) "properties" = _
    rw [get_insert_of_ne _ (by decide), get_insert_of_ne _ (by decide)]
    cases hget : s.JSONSchema.get "properties" with
    | map raw => rw [hget] at hmap; cases hmap
    | _ => exact hget

theorem Initialized.lookup_properties (h : Initialized s t) (hnil : NoNil s.properties)
    (hmap : (s.JSONSchema.get "properties").map?.isSome = true) (name : String) :
    t.properties.lookup name = (s.properties.lookup name).or (generated s.Parent name) := by
  rw [properties, h.complete hmap]
  exact (GoMap.lookup_ofList_toList _ _).trans (lookup_definitions hnil name)

theorem Initialized.noNil (h : Initialized s t) (hnil : NoNil s.properties) :
    NoNil t.properties := by
  cases hmap : (s.JSONSchema.get "properties").map?.isSome with
  | true =>
    intro name hname
    rw [h.lookup_properties hnil hmap, Option.or_eq_some_iff] at hname
    exact hname.elim (hnil name) fun hgenerated ↦ generated_ne_nil _ _ hgenerated.2
  | false =>
    rw [properties, h.incomplete hmap]
    exact hnil

/-- Another `Init` would make the properties from the same definitions. -/
theorem Initialized.lookup_definitions (h : Initialized s t) (hnil : NoNil s.properties)
    (name : String) : t.definitions.lookup name = s.definitions.lookup name := by
  rw [SchemaObj.lookup_definitions (h.noNil hnil), SchemaObj.lookup_definitions hnil, h.Parent]
  cases hmap : (s.JSONSchema.get "properties").map?.isSome with
  | true =>
    rw [h.lookup_properties hnil hmap, Option.or_assoc, Option.or_self]
  | false =>
    rw [properties, h.incomplete hmap]
    rfl

variable [Files] in
/-- `Extend` is `Init` of a schema with the properties of the base. -/
theorem extend_eq_ok (h : s.extend base = .ok t) : ∃ extended : SchemaObj,
    extended.init = .ok t ∧ extended.type = s.type ∧ extended.Extends = s.Extends ∧
      extended.Parent = (if s.Parent = "" then base.Parent else s.Parent) ∧
      extended.JSONSchema.get "properties" =
        .map (GoMap.toList (s.properties ∪ base.properties)) := by
  rw [extend] at h
  refine ⟨_, h, rfl, rfl, rfl, ?_⟩
  show GoMap.get (AList.insert _ _ (AList.insert _ _ (AList.insert _ _ _))) "properties" = _
  rw [get_insert_of_ne _ (by decide), get_insert_of_ne _ (by decide), GoMap.get_insert_self]
  rfl

/-- A schema that is not abstract, with properties made from its definitions. -/
structure Made (s : SchemaObj) : Prop where
  concrete : s.isAbstract = false
  noNil : NoNil s.properties
  made : ∃ (required : List String) (all : Dict) (properties : List NestedProperty),
    (∀ name, all.lookup name = s.definitions.lookup name) ∧
      parseProperties required (GoMap.toList all) = .ok properties ∧
      s.Properties.Perm properties

/-- The property for the parent is in the map of properties. -/
def Complete (s : SchemaObj) : Prop :=
  ∀ name, (s.properties.lookup name).or (generated s.Parent name) = s.properties.lookup name

theorem Complete.lookup_definitions (h : Complete s) (hnil : NoNil s.properties) (name : String) :
    s.definitions.lookup name = s.properties.lookup name :=
  (SchemaObj.lookup_definitions hnil name).trans (h name)

theorem Initialized.toMade (h : Initialized s t) (hconcrete : t.isAbstract = false)
    (hnil : NoNil s.properties) : Made t := by
  obtain ⟨required, properties, hparse, hperm⟩ := h.made
  exact ⟨hconcrete, h.noNil hnil, required, s.definitions, properties,
    fun name ↦ (h.lookup_definitions hnil name).symm, hparse, hperm⟩

theorem Initialized.toComplete (h : Initialized s t) (hnil : NoNil s.properties)
    (hmap : (s.JSONSchema.get "properties").map?.isSome = true) : Complete t := by
  intro name
  rw [h.lookup_properties hnil hmap, h.Parent, Option.or_assoc, Option.or_self]

variable [Files]

/-- A schema that is extended has the properties of the base after its own, and then the one for
its parent. -/
theorem Made.extend (hs : Made s) (hbase : NoNil base.properties) (h : s.extend base = .ok t) :
    Made t ∧ Complete t ∧ t.Parent = (if s.Parent = "" then base.Parent else s.Parent) ∧
      ∀ name, t.properties.lookup name =
        ((s.properties.lookup name).or (base.properties.lookup name)).or
          (generated t.Parent name) := by
  obtain ⟨extended, hinit, htype, -, hparent, hget⟩ := extend_eq_ok h
  have hproperties : ∀ name, extended.properties.lookup name =
      (s.properties.lookup name).or (base.properties.lookup name) := by
    intro name
    rw [properties, hget]
    exact (GoMap.lookup_ofList_toList _ _).trans (GoMap.lookup_union _ _ _)
  have hconcrete : extended.isAbstract = false := by
    rw [isAbstract, htype]
    exact hs.concrete
  have hinitialized := init_eq_ok hconcrete hinit
  have hextended : NoNil extended.properties := by
    intro name hname
    rw [hproperties, ← GoMap.lookup_union] at hname
    exact hs.noNil.union hbase name hname
  have hmap : (extended.JSONSchema.get "properties").map?.isSome = true := by
    rw [hget]
    rfl
  have htconcrete : t.isAbstract = false := by
    rw [isAbstract, (SameSchema.of_init hinit).type]
    exact hconcrete
  refine ⟨hinitialized.toMade htconcrete hextended, hinitialized.toComplete hextended hmap,
    hinitialized.Parent.trans hparent, fun name ↦ ?_⟩
  rw [hinitialized.lookup_properties hextended hmap, hproperties, hinitialized.Parent]

end SchemaObj

/-! ## Properties and definitions -/

theorem newPropertyFromObj_id {id : String} {required : Bool} {v : Value} {p : NestedProperty}
    (h : newPropertyFromObj id required v = .ok p) : p.own.id = id := by
  cases v with
  | map typeData =>
    rw [newPropertyFromObj] at h
    obtain ⟨⟨type, nullable⟩, -, h⟩ := Go.bind_eq_ok.mp h
    obtain ⟨items, -, h⟩ := Go.bind_eq_ok.mp h
    split at h
    · obtain ⟨properties, -, h⟩ := Go.bind_eq_ok.mp h
      rw [← Except.ok.inj h]
      rfl
    · obtain ⟨properties, -, h⟩ := Go.bind_eq_ok.mp h
      rw [← Except.ok.inj h]
      rfl
    · exact absurd h (Go.panicf_ne_ok _ _ _)
  | _ => exact absurd h (Go.panicf_ne_ok _ _ _)

theorem parseProperties_eq_ok {required : List String} {definitions : List (String × Value)}
    {properties : List NestedProperty} (h : parseProperties required definitions = .ok properties) :
    List.Forall₂ (fun e p ↦ newPropertyFromObj e.1 (required.contains e.1) e.2 = .ok p)
      definitions properties := by
  induction definitions generalizing properties with
  | nil =>
    rw [parseProperties] at h
    obtain rfl := Except.ok.inj h
    exact List.Forall₂.nil
  | cons e definitions ih =>
    obtain ⟨id, property⟩ := e
    rw [parseProperties] at h
    obtain ⟨p, hp, h⟩ := Go.bind_eq_ok.mp h
    obtain ⟨ps, hps, h⟩ := Go.bind_eq_ok.mp h
    obtain rfl := Except.ok.inj h
    exact List.Forall₂.cons hp (ih hps)

namespace SchemaObj

variable {s : SchemaObj} {name : String} {v : Value}

/-- The schema has a property that is made from the definition. -/
def Takes (s : SchemaObj) (name : String) (v : Value) : Prop :=
  s.definitions.lookup name = some v ∧
    ∃ required p, newPropertyFromObj name required v = .ok p ∧ p ∈ s.Properties

theorem Made.takes (h : s.Made) (hlookup : s.definitions.lookup name = some v) :
    s.Takes name v := by
  obtain ⟨required, all, properties, hall, hparse, hperm⟩ := h.made
  have hmem : (name, v) ∈ GoMap.toList all := GoMap.mem_toList.mpr ((hall name).trans hlookup)
  obtain ⟨p, hp, hnew⟩ := Visit.exists_mem_right (parseProperties_eq_ok hparse) hmem
  exact ⟨hlookup, required.contains name, p, hnew, hperm.mem_iff.mpr hp⟩

/-- The identifiers of the properties are the keys of the definitions. -/
theorem Made.mem_ids_iff (h : s.Made) :
    name ∈ s.Properties.map (·.own.id) ↔ ∃ v, s.definitions.lookup name = some v := by
  constructor
  · intro hmem
    obtain ⟨p, hp, rfl⟩ := List.mem_map.mp hmem
    obtain ⟨required, all, properties, hall, hparse, hperm⟩ := h.made
    obtain ⟨⟨id, v⟩, he, hnew⟩ := Visit.exists_mem_left (parseProperties_eq_ok hparse)
      (hperm.mem_iff.mp hp)
    rw [newPropertyFromObj_id hnew]
    exact ⟨v, (hall id).symm.trans (GoMap.mem_toList.mp he)⟩
  · rintro ⟨v, hv⟩
    obtain ⟨-, required, p, hnew, hp⟩ := h.takes hv
    rw [← newPropertyFromObj_id hnew]
    exact List.mem_map_of_mem hp

end SchemaObj

/-! ## Extending by all the bases -/

section Bases

variable [RegexpEngine] {s t : SchemaObj} {m : Manager} {acts : List Act} {ids : List String}
  {bases : List Dict} {name : String}

/-- The base that is found in the manager has the parent and the properties of its definition. -/
def IsBase (m : Manager) (id : String) (data : Dict) : Prop :=
  ∀ r, m.schema id = some r →
    r.obj.Parent = parentOf data ∧ ∀ name, r.obj.properties.lookup name =
      (writtenProperties data).lookup name

variable [Files]

theorem extendByBases_cons_eq_ok {id : String}
    (h : extendByBases (id :: ids) s m = (.ok t, acts)) : ∃ r u, m.schema id = some r ∧
      s.extend r.obj = .ok u ∧ extendByBases ids u m = (.ok t, acts) := by
  rw [extendByBases] at h
  have h := Prog.get_bind_eq_ok.mp h
  cases hbase : m.schema id with
  | none =>
    simp only [hbase] at h
    exact absurd (Prod.ext_iff.mp h).1 (Go.errorf_ne_ok _ _ _)
  | some r =>
    simp only [hbase] at h
    split at h
    · exact absurd (Prod.ext_iff.mp h).1 (Go.errorf_ne_ok _ _ _)
    · obtain ⟨u, hu, h⟩ := Prog.lift_bind_eq_ok.mp h
      exact ⟨r, u, rfl, hu, h⟩

/-- **What a schema has from its bases**, if it has the property for its parent. -/
theorem extendByBases_complete (hbases : List.Forall₂ (IsBase m) ids bases)
    (hnil : ∀ data ∈ bases, NoNil (writtenProperties data)) (hs : s.Made) (hcomplete : s.Complete)
    (h : extendByBases ids s m = (.ok t, acts)) :
    t.Made ∧ t.Complete ∧ ∀ name, t.properties.lookup name =
      (s.properties.lookup name).or (provided s.Parent bases name) := by
  induction hbases generalizing s with
  | nil =>
    obtain ⟨rfl, -⟩ := Prog.pure_eq_ok.mp h
    exact ⟨hs, hcomplete, fun name ↦ (Option.or_none).symm⟩
  | @cons id data ids bases hbase _ ih =>
    obtain ⟨r, u, hr, hu, h⟩ := extendByBases_cons_eq_ok h
    obtain ⟨hparent, hwritten⟩ := hbase r hr
    have hrnil : NoNil r.obj.properties := by
      intro name
      rw [hwritten]
      exact hnil data List.mem_cons_self name
    obtain ⟨humade, hucomplete, huparent, hulookup⟩ := hs.extend hrnil hu
    obtain ⟨hmade, htcomplete, hlookup⟩ :=
      ih (fun d hd ↦ hnil d (List.mem_cons_of_mem _ hd)) humade hucomplete h
    refine ⟨hmade, htcomplete, fun name ↦ ?_⟩
    rw [hlookup, hulookup, hwritten, huparent, hparent, provided]
    by_cases hempty : s.Parent = ""
    · rw [if_pos hempty, if_pos hempty]
      simp only [Option.or_assoc]
    · rw [if_neg hempty, if_neg hempty]
      -- the property for the parent is there already
      rw [← hcomplete name]
      cases s.properties.lookup name <;> cases generated s.Parent name <;>
        cases (writtenProperties data).lookup name <;> simp

omit [RegexpEngine] in
/-- What is read from a definition is made ready by `Init`. -/
theorem newSchemaFromObj_eq_init {metaschema : Option SchemaObj} {entries : List (String × Value)}
    (h : newSchemaFromObj metaschema (.map entries) = .ok s) : ∃ read : SchemaObj,
      read.init = .ok s ∧ read.Parent = parentOf (GoMap.ofList entries) ∧
        read.Extends = basesOf (GoMap.ofList entries) ∧
        read.JSONSchema.get "properties" =
          ((GoMap.ofList entries).get "schema").maybeMap.get "properties" := by
  simp only [newSchemaFromObj] at h
  obtain ⟨_, -, h⟩ := Go.bind_eq_ok.mp h
  obtain ⟨ID, -, h⟩ := Go.bind_eq_ok.mp h
  obtain ⟨Plural, -, h⟩ := Go.bind_eq_ok.mp h
  obtain ⟨Title, -, h⟩ := Go.bind_eq_ok.mp h
  obtain ⟨Description, -, h⟩ := Go.bind_eq_ok.mp h
  obtain ⟨Singular, -, h⟩ := Go.bind_eq_ok.mp h
  split at h
  · next jsonSchema hschema =>
    refine ⟨_, h, rfl, rfl, ?_⟩
    rw [hschema]
    rfl
  · exact absurd h (Go.errorf_ne_ok _ _ _)

omit [RegexpEngine] in
/-- An abstract schema is left as it is read. -/
theorem newSchemaFromObj_abstract {metaschema : Option SchemaObj}
    {entries : List (String × Value)} (h : newSchemaFromObj metaschema (.map entries) = .ok s)
    (habstract : s.isAbstract = true) : s.Parent = parentOf (GoMap.ofList entries) ∧
      s.properties = writtenProperties (GoMap.ofList entries) := by
  obtain ⟨read, hinit, hparent, -, hget⟩ := newSchemaFromObj_eq_init h
  have hread : read.isAbstract = true := by
    rwa [SchemaObj.isAbstract, ← (SameSchema.of_init hinit).type]
  rw [SchemaObj.init, if_pos hread] at hinit
  obtain rfl := Except.ok.inj hinit
  refine ⟨hparent, ?_⟩
  rw [SchemaObj.properties, hget]
  rfl

/-- The schema keeps the property for its own parent.  Without a map of properties that one is lost,
and a base can put another in its place. -/
def KeepsParent (data : Dict) (bases : List Dict) : Prop :=
  HasProperties data ∨ parentOf data = "" ∨
    ∀ base ∈ bases.head?, formatParentID (parentOf data) ∉ writtenProperties base

/-- **What a schema is made from**: its own properties, those of its bases, and one for the first
parent. -/
theorem definitions_eq_provided {metaschema : Option SchemaObj} {entries : List (String × Value)}
    (hnew : newSchemaFromObj metaschema (.map entries) = .ok s) (hconcrete : s.isAbstract = false)
    (hbases : List.Forall₂ (IsBase m) (basesOf (GoMap.ofList entries)) bases)
    (hown : NoNil (writtenProperties (GoMap.ofList entries)))
    (hnil : ∀ data ∈ bases, NoNil (writtenProperties data))
    (hkeeps : KeepsParent (GoMap.ofList entries) bases)
    (h : extendByBases s.Extends s m = (.ok t, acts)) :
    t.Made ∧ ∀ name, t.definitions.lookup name =
      provided "" (GoMap.ofList entries :: bases) name := by
  obtain ⟨read, hinit, hparent, hextends, hget⟩ := newSchemaFromObj_eq_init hnew
  generalize GoMap.ofList entries = data at *
  have hread : read.isAbstract = false := by
    rwa [SchemaObj.isAbstract, ← (SameSchema.of_init hinit).type]
  have hwritten : read.properties = writtenProperties data := by
    rw [SchemaObj.properties, hget]
    rfl
  have hinitialized := SchemaObj.init_eq_ok hread hinit
  have hreadnil : NoNil read.properties := by rwa [hwritten]
  have hmade := hinitialized.toMade hconcrete hreadnil
  rw [hinitialized.Extends, hextends] at h
  simp only [provided, if_true]
  by_cases hmap : HasProperties data
  · have hreadmap : (read.JSONSchema.get "properties").map?.isSome = true := by rwa [hget]
    obtain ⟨htmade, htcomplete, hlookup⟩ := extendByBases_complete hbases hnil hmade
      (hinitialized.toComplete hreadnil hreadmap) h
    refine ⟨htmade, fun name ↦ ?_⟩
    rw [htcomplete.lookup_definitions htmade.noNil, hlookup,
      hinitialized.lookup_properties hreadnil hreadmap, hinitialized.Parent, hparent, hwritten]
  · have hreadmap : (read.JSONSchema.get "properties").map?.isSome = false := by
      rw [hget]
      exact Bool.eq_false_iff.mpr hmap
    have hempty : ∀ name, (writtenProperties data).lookup name = none := by
      intro name
      rw [HasProperties] at hmap
      rw [writtenProperties]
      cases hvalue : (data.get "schema").maybeMap.get "properties" with
      | map raw => rw [hvalue] at hmap; exact absurd rfl hmap
      | _ => rfl
    have hlookups : ∀ name, s.properties.lookup name = none := by
      intro name
      rw [SchemaObj.properties, hinitialized.incomplete hreadmap, ← SchemaObj.properties, hwritten]
      exact hempty name
    have hsparent : s.Parent = parentOf data := hinitialized.Parent.trans hparent
    by_cases hnoparent : parentOf data = ""
    · have hcomplete : s.Complete := by
        intro name
        rw [hsparent, hnoparent, generated, if_neg fun h ↦ h.1 rfl, Option.or_none]
      obtain ⟨htmade, htcomplete, hlookup⟩ :=
        extendByBases_complete hbases hnil hmade hcomplete h
      refine ⟨htmade, fun name ↦ ?_⟩
      rw [htcomplete.lookup_definitions htmade.noNil, hlookup, hlookups, hempty, hsparent,
        hnoparent, generated, if_neg fun h ↦ h.1 rfl]
      rfl
    · have hfirst := (hkeeps.resolve_left hmap).resolve_left hnoparent
      generalize basesOf data = ids at hbases h
      cases hbases with
      | nil =>
        obtain ⟨rfl, -⟩ := Prog.pure_eq_ok.mp h
        refine ⟨hmade, fun name ↦ ?_⟩
        rw [SchemaObj.lookup_definitions hmade.noNil, hlookups, hempty, hsparent]
        exact (Option.or_none).symm
      | @cons id base ids bases hbase hrest =>
        obtain ⟨r, u, hr, hu, h⟩ := extendByBases_cons_eq_ok h
        obtain ⟨hrparent, hrwritten⟩ := hbase r hr
        have hrnil : NoNil r.obj.properties := by
          intro name
          rw [hrwritten]
          exact hnil base List.mem_cons_self name
        obtain ⟨humade, hucomplete, huparent, hulookup⟩ := hmade.extend hrnil hu
        obtain ⟨htmade, htcomplete, hlookup⟩ := extendByBases_complete hrest
          (fun d hd ↦ hnil d (List.mem_cons_of_mem _ hd)) humade hucomplete h
        refine ⟨htmade, fun name ↦ ?_⟩
        rw [hsparent, if_neg hnoparent] at huparent
        rw [htcomplete.lookup_definitions htmade.noNil, hlookup, hulookup, hlookups, hrwritten,
          huparent, hempty, provided, if_neg hnoparent, Option.none_or, Option.none_or]
        by_cases hname : name = formatParentID (parentOf data)
        · -- the first base does not write the property for the parent down
          rw [hname, AList.lookup_eq_none.mpr (hfirst base rfl), Option.none_or, Option.none_or]
        · rw [generated, if_neg fun h ↦ hname h.2, Option.or_none, Option.none_or]

end Bases

/-! ## The schema that is registered -/

section Registered

variable [RegexpEngine] {m : Manager} {acts : List Act} {depth : ℕ} {filePath : String}
  {data : Dict} {read prepared : List SchemaObj} {as₁ as₂ as₃ as₄ as₅ as₆ : List Act}
  {list : List (List (String × Value))} {entries : List (String × Value)} {r : Registered}

/-- A schema that was not there before has been put in. -/
theorem Manager.mem_of_schema_final {id : String} (hnone : m.schema id = none)
    (hr : (final Manager.step m acts).schema id = some r) :
    .schema r.obj ∈ acts ∧ r.obj.ID = id := by
  induction acts generalizing m with
  | nil =>
    rw [show final Manager.step m [] = m from rfl, hnone] at hr
    cases hr
  | cons a acts ih =>
    rcases Manager.schema_step m a id with hsame | ⟨schema, rfl, -, rfl, hnew⟩
    · obtain ⟨hmem, hID⟩ := ih (hsame.trans hnone) hr
      exact ⟨List.mem_cons_of_mem _ hmem, hID⟩
    · have hkept := Manager.schema_final (m := Manager.step m (.schema schema)) hnew acts
      obtain rfl := Option.some.inj (hkept.symm.trans hr)
      rw [Manager.link_obj]
      exact ⟨List.mem_cons_self, rfl⟩

variable [Files]

/-- Where all the schemas of a file are written down in it, reading them takes no action. -/
theorem loadEntries_maps {load : String → Load Unit}
    (h : loadEntries load (list.map .map) m = (.ok read, acts)) : acts = [] ∧
      List.Forall₂ (fun entries s ↦ ∃ metaschema,
        newSchemaFromObj metaschema (.map entries) = .ok s) list read := by
  induction list generalizing read acts with
  | nil =>
    obtain ⟨rfl, rfl⟩ := Prog.pure_eq_ok.mp h
    exact ⟨rfl, List.Forall₂.nil⟩
  | cons entries list ih =>
    rcases loadEntries_cons_eq_ok h with ⟨_, _, _, heq, -⟩ | ⟨metaschema, s, rest, hs, hrest, rfl⟩
    · cases heq
    · obtain ⟨rfl, hall⟩ := ih hrest
      exact ⟨rfl, List.Forall₂.cons ⟨metaschema, hs⟩ hall⟩

theorem emits_prepareSchema_read (s : SchemaObj) :
    Prog.Emits (fun a ↦ a = .schema s ∧ s.isAbstract = true) (prepareSchema s) := by
  rw [prepareSchema]
  split
  · next habstract =>
    refine (emits_ignoringError ?_).bind fun _ ↦ Prog.Emits.pure _
    exact Prog.Emits.act ⟨rfl, habstract⟩ _
  · exact emits_extendByBases _ _ _

omit [Files] in
theorem emits_registerByID_prepared (id : String) :
    Prog.Emits (fun a ↦ ∃ s ∈ prepared, s.isAbstract = false ∧ a = .schema s)
      (registerByID prepared id) := by
  rw [registerByID]
  cases hs : schemaMap prepared id with
  | none => exact Prog.Emits.lift _
  | some s =>
    show Prog.Emits _ (if s.isAbstract then pure () else registerSchema s)
    split
    · exact Prog.Emits.pure _
    · next hconcrete =>
      exact Prog.Emits.act ⟨s, (of_schemaMap hs).1, by simpa using hconcrete, rfl⟩ _

/-- While schemas are prepared, those that are put in are abstract ones that have been read. -/
theorem FileRun.mem_read
    (h : FileRun depth filePath m data read prepared as₁ as₂ as₃ as₄ as₅ as₆)
    (hread : as₂ = []) {s : SchemaObj} (hs : .schema s ∈ as₁ ++ as₂ ++ as₃) :
    s ∈ read ∧ s.isAbstract = true := by
  have hprepare : ∀ a ∈ as₃, ∃ s ∈ read, a = .schema s ∧ s.isAbstract = true := by
    intro a ha
    refine Prog.Emits.mapEach (Q := fun a ↦ ∃ s ∈ read, a = .schema s ∧ s.isAbstract = true)
      (fun s hs m a ha ↦ ⟨s, hs, emits_prepareSchema_read s m a ha⟩) _ a (by rwa [h.prepare])
  rw [hread, List.append_nil] at hs
  rcases List.mem_append.mp hs with hs | hs
  · exact absurd rfl ((h.plain.1 _ hs).ne_schema s)
  · obtain ⟨t, ht, heq, habstract⟩ := hprepare _ hs
    obtain rfl := Act.schema.inj heq
    exact ⟨ht, habstract⟩

/-- In the whole call there are also others, which have been prepared. -/
theorem FileRun.mem_read_or_prepared
    (h : FileRun depth filePath m data read prepared as₁ as₂ as₃ as₄ as₅ as₆)
    (hread : as₂ = []) {s : SchemaObj}
    (hs : .schema s ∈ as₁ ++ as₂ ++ as₃ ++ as₄ ++ as₅ ++ as₆ ++ [.returned filePath]) :
    s ∈ read ∧ s.isAbstract = true ∨ s ∈ prepared ∧ s.isAbstract = false := by
  obtain ⟨-, -, hplain⟩ := h.plain
  obtain ⟨loop, rfl, hloop⟩ := registerInOrder_eq_ok h.register
  have hregister : ∀ a ∈ loop, ∃ s ∈ prepared, s.isAbstract = false ∧ a = .schema s := by
    rcases hloop with ⟨-, rfl⟩ | ⟨order, -, hloop⟩
    · exact fun a ha ↦ absurd ha List.not_mem_nil
    · exact fun a ha ↦ Prog.Emits.forEach (fun id _ ↦ emits_registerByID_prepared id) _ a
        (by rwa [hloop])
  rw [List.append_assoc, List.append_assoc, List.append_assoc] at hs
  rcases List.mem_append.mp hs with hs | hs
  · exact .inl (h.mem_read hread hs)
  · refine .inr ?_
    rcases List.mem_append.mp hs with hs | hs
    · rcases List.mem_cons.mp hs with heq | hs
      · cases heq
      · obtain ⟨t, ht, hconcrete, heq⟩ := hregister _ hs
        obtain rfl := Act.schema.inj heq
        exact ⟨ht, hconcrete⟩
    · rw [← List.append_assoc] at hs
      rcases List.mem_append.mp hs with hs | hs
      · exact absurd rfl ((hplain _ hs).ne_schema s)
      · cases List.mem_singleton.mp hs

/-- **The schema that is registered** under an identifier of the file has been read from its
definition and extended, at a time when the bases in the manager were those of the file. -/
theorem FileRun.registered
    (h : FileRun depth filePath m data read prepared as₁ as₂ as₃ as₄ as₅ as₆)
    (hlist : listUnder data "schemas" = list.map .map)
    (hids : (list.map fun e ↦ schemaID (GoMap.ofList e)).Nodup)
    (hfresh : ∀ e ∈ list, m.schema (schemaID (GoMap.ofList e)) = none) (hmem : entries ∈ list)
    (htype : ¬IsAbstract (GoMap.ofList entries))
    (hr : (final Manager.step m (as₁ ++ as₂ ++ as₃ ++ as₄ ++ as₅ ++ as₆ ++
      [.returned filePath])).schema (schemaID (GoMap.ofList entries)) = some r) :
    ∃ metaschema s m' acts', newSchemaFromObj metaschema (.map entries) = .ok s ∧
      s.isAbstract = false ∧ extendByBases s.Extends s m' = (.ok r.obj, acts') ∧
        ∀ base ∈ list, IsBase m' (schemaID (GoMap.ofList base)) (GoMap.ofList base) := by
  have hentries := h.entries
  rw [hlist] at hentries
  obtain ⟨hnone, hall⟩ := loadEntries_maps hentries
  -- what is read with an identifier of the file comes from the definition with the identifier
  have hof : ∀ s ∈ read, ∃ e ∈ list, s.ID = schemaID (GoMap.ofList e) ∧
      s.type = ((GoMap.ofList e).get "type").maybeString ∧
      ∃ metaschema, newSchemaFromObj metaschema (.map e) = .ok s := by
    intro s hs
    obtain ⟨e, he, metaschema, hnew⟩ := Visit.exists_mem_left hall hs
    obtain ⟨e', heq, hID, hstype⟩ := newSchemaFromObj_eq_ok hnew
    obtain rfl := Value.map.inj heq
    exact ⟨e, he, hID, hstype, metaschema, hnew⟩
  have huniq : ∀ e ∈ list, ∀ e' ∈ list, schemaID (GoMap.ofList e) = schemaID (GoMap.ofList e') →
      e = e' := fun e he e' he' heq ↦ List.inj_on_of_nodup_map hids he he' heq
  obtain ⟨hput, hID⟩ := Manager.mem_of_schema_final (hfresh entries hmem) hr
  rcases h.mem_read_or_prepared hnone hput with ⟨hread, habstract⟩ | ⟨hprepared, hconcrete⟩
  · obtain ⟨e, he, heID, hetype, -⟩ := hof _ hread
    obtain rfl := huniq e he entries hmem (heID.symm.trans hID)
    exact absurd (hetype.symm.trans (by simpa [SchemaObj.isAbstract] using habstract)) htype
  · obtain ⟨s, hs, before, during, after, hprepare, rfl⟩ := Prog.mapEach_mem h.prepare hprepared
    have hsame := (prepareSchema_eq_ok hprepare).1
    obtain ⟨e, he, heID, hetype, metaschema, hnew⟩ := hof s hs
    obtain rfl := huniq e he entries hmem (heID.symm.trans (hsame.ID.symm.trans hID))
    have hsconcrete : s.isAbstract = false := by
      rwa [SchemaObj.isAbstract, ← hsame.type]
    rw [prepareSchema, hsconcrete, if_neg Bool.false_ne_true, ← Machine.final_append] at hprepare
    refine ⟨metaschema, s, _, during, hnew, hsconcrete, hprepare, fun base hbase rb hrb ↦ ?_⟩
    obtain ⟨hbput, hbID⟩ := Manager.mem_of_schema_final (hfresh base hbase) hrb
    have hprefix : .schema rb.obj ∈ as₁ ++ as₂ ++ (before ++ during ++ after) := by
      rcases List.mem_append.mp hbput with hbput | hbput
      · exact List.mem_append_left _ hbput
      · exact List.mem_append_right _ (by simp [hbput])
    obtain ⟨hbread, hbabstract⟩ := h.mem_read hnone hprefix
    obtain ⟨e', he', heID', -, metaschema', hnew'⟩ := hof _ hbread
    obtain rfl := huniq e' he' base hbase (heID'.symm.trans hbID)
    obtain ⟨hparent, hproperties⟩ := newSchemaFromObj_abstract hnew' hbabstract
    exact ⟨hparent, fun name ↦ by rw [hproperties]⟩

end Registered

end Loading

end Gohan
