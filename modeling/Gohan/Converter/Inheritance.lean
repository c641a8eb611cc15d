import Gohan.Converter.Item
import Gohan.Schema.Definition
import Gohan.Logic.Toposort

/-!
# Inheritance in the converter

Each schema is parsed by itself: its properties are those that its definition writes down, and one
for its parent.  Then the graph of the bases is sorted, and each schema gets the properties of its
bases.  This goes from the end of the order to its start, so a schema is joined before its bases
are, and gets from them what they were parsed with (`collectSchemas_eq_ok`).
-/

set_option autoImplicit false

namespace Gohan.Converter

open Definition

/-! ## Sets of properties -/

/-- Where a property is created. -/
inductive Origin where
  /-- In the loop over the properties of the schema. -/
  | written (schema : String)
  /-- In `addParent`. -/
  | parent (schema : String)
  deriving DecidableEq

/-- The schema where it comes from. -/
def Origin.schema : Origin → String
  | .written schema | .parent schema => schema

/-- `item.Property`, at the top level of a schema.  Its name is what it is in a set under.  A
property that is copied in the course of a join keeps its origin. -/
structure Property where
  item : Item
  origin : Origin
  copiedBy : Option String := none

/-- The pointers to two properties of one name are the same. -/
def Property.SamePointer (p q : Property) : Prop := p.origin = q.origin ∧ p.copiedBy = q.copiedBy

instance : DecidableRel Property.SamePointer := fun _ _ ↦ instDecidableAnd

/-- `set.Set`, of properties. -/
abbrev PropertySet := GoMap Property

namespace PropertySet

/-- `safeContains`: another property has the name. -/
def safeContains (set : PropertySet) (name : String) (element : Property) : Bool :=
  match set.lookup name with
  | none => false
  | some other => decide ¬other.SamePointer element

/-- `InsertAll`. -/
def insertAll (set other : PropertySet) : PropertySet := other ∪ set

/-- `SafeInsertAll`. -/
def safeInsertAll (set other : PropertySet) : Go PropertySet :=
  match (GoMap.toList other).find? fun e ↦ set.safeContains e.1 e.2 with
  | some value => .errorf "the element with the name %s already in the set" [.str value.1]
  | none => .ok (set.insertAll other)

end PropertySet

/-! ## Objects -/

/-- `item.Object`, at the top level of a schema. -/
structure Object where
  objectType : String
  properties : PropertySet
  required : List String

namespace Object

/-- `Compress`: of two properties that are taken for equal the first one stays. -/
def compress (object : Object) (source destination : String × Property) : Object :=
  if destination.1 ∈ object.properties then
    { object with
      properties := (object.properties.erase destination.1).insert source.1 source.2 }
  else object

/-- The properties that the object requires are made so, in a copy. -/
def makeRequired (object : Object) (schema : String) (properties : List (String × Property)) :
    Object :=
  properties.foldl (fun object e ↦
    if object.required.contains e.1 && e.2.item.isNull then
      { object with
        properties := object.properties.insert e.1
          { e.2 with item := e.2.item.makeRequired, copiedBy := some schema } }
    else object) object

/-- `AddProperties`, for the object of the given schema. -/
def addProperties (object : Object) (schema : String) (properties : PropertySet) (safe : Bool) :
    Go Object :=
  if GoMap.toList properties = [] then .ok object
  else if safe then
    match object.properties.safeInsertAll properties with
    | .error _ => .errorf "object %s: multiple properties have the same name"
        [.str object.objectType]
    | .ok all => .ok (makeRequired { object with properties := all } schema
        (GoMap.toList properties))
  else
    let all := properties.insertAll object.properties
    .ok (makeRequired { object with properties := all } schema (GoMap.toList all))

variable [Packages]

/-- The properties in the order of their names, each with the hash of its node. -/
def hashed (object : Object) : List ((String × Property) × HashNode) :=
  ((GoMap.toList object.properties).insertionSort fun p q ↦ p.1 ≤ q.1).map fun p ↦
    (p, HashNode.joinHashes p.1 [p.2.item.hash])

/-- `compressNodes`, after the given node. -/
def compressNodes (object : Object) (previous : (String × Property) × HashNode) :
    List ((String × Property) × HashNode) → Object
  | [] => object
  | node :: nodes =>
    if node.2 = previous.2 then compressNodes (object.compress previous.1 node.1) previous nodes
    else compressNodes object node nodes

/-- `CompressObjects`, as far as it is about the properties of the object itself. -/
def compressObjects (object : Object) : Object :=
  match Packages.sortByHash (·.2) object.hashed with
  | [] => object
  | node :: nodes => object.compressNodes node nodes

end Object

/-! ## Schemas -/

/-- A schema of the converter. -/
structure Schema where
  name : String
  parent : String
  bases : List String
  object : Object

namespace Schema

/-- `getBaseSchemas`. -/
def getBaseSchemas (data : Dict) : Go (List String) :=
  match data.get "extends" with
  | .list extended => extended.mapM fun base ↦
      match base with
      | .str base => .ok base
      | _ => .errorf "one of the base schemas is not a string"
  | _ => .ok []

/-- `prepareSchema`. -/
def prepareSchema (data : Dict) : List (String × Value) :=
  if GoMap.toList data = [] then [("type", .str "object")] else GoMap.toList data

/-- `addParent`: a property for the identifier of the parent. -/
def addParent [Packages] (schema : Schema) : Go Schema :=
  if schema.parent = "" then .ok schema
  else do
    let name := addName schema.parent "id"
    let item ← parseProperty name ⟨"", 0, true, .nil⟩ [("type", .str "string")]
    let properties : PropertySet := AList.singleton name { item, origin := .parent schema.name }
    let object ← schema.object.addProperties schema.name properties true
    .ok { schema with object }

variable [Packages]

/-- `parse`, without the compression at its end. -/
def parseUncompressed (data : Dict) : Go Schema :=
  match data.get "id" with
  | .str name => do
    let bases ← inContext "invalid schema %s: %v" name (getBaseSchemas data)
    match data.get "schema" with
    | .map next => do
      let item ← inContext "invalid schema %s: %v" name
        (parseProperty name ⟨"", 0, true, .nil⟩ (prepareSchema (GoMap.ofList next)))
      match item with
      | .object objectType properties required =>
        inContext "invalid schema %s: %v" name (addParent {
          name, bases
          parent := (data.get "parent").maybeString
          object := {
            objectType, required
            properties := GoMap.ofList (properties.map fun e ↦
              (e.1, { item := e.2, origin := .written name })) } })
      | _ => .errorf "invalid schema %s: schema should be an object" [.str name]
    | _ => .errorf "invalid schema %s: schema does not have a \"schema\"" [.str name]
  | _ => .errorf "schema does not have an id"

/-- `Parse`. -/
def parse (data : Dict) : Go Schema := do
  let schema ← parseUncompressed data
  .ok { schema with object := schema.object.compressObjects }

omit [Packages] in
/-- `collectProperties(2, 1)`: at this depth there are just the properties of the object. -/
def collectProperties (schema : Schema) : PropertySet := schema.object.properties

omit [Packages] in
/-- `join`: the properties of the schema and of those it extends. -/
def join (schema : Schema) (edges : List Schema) : Go Schema := do
  let properties ← edges.foldlM (fun properties (node : Schema) ↦
    match PropertySet.safeInsertAll properties node.collectProperties with
    | .ok properties => .ok properties
    | .error _ => .errorf "multiple properties with the same name in bases of schema %s"
        [.str schema.name]) ∅
  let object ← schema.object.addProperties schema.name properties false
  .ok { schema with object }

end Schema

/-- `set.Set`, of schemas. -/
abbrev SchemaSet := GoMap Schema

/-- The loop of `parseAll`; each schema is a new one. -/
def parseFrom [Packages] (set : SchemaSet) : List Dict → Go SchemaSet
  | [] => .ok set
  | data :: schemas => do
    let newSchema ← Schema.parse data
    if newSchema.name ∈ set then
      .errorf "multiple schemas with the same name: %s" [.str newSchema.name]
    else parseFrom (set.insert newSchema.name newSchema) schemas

/-- `parseAll`. -/
def parseAll [Packages] (schemas : List Dict) : Go SchemaSet := parseFrom ∅ schemas

/-! ## The graph -/

/-- `createGraph`: all the schemas. -/
def createGraph (toConvert other : SchemaSet) : Go SchemaSet :=
  if toConvert.keys.any (· ∈ other) then .errorf "multiple schemas with the same name"
  else .ok (toConvert ∪ other)

/-- The schema of an identifier. -/
def getNode (allSchemas : SchemaSet) (id : String) : Go Schema :=
  match allSchemas.lookup id with
  | some schema => .ok schema
  | none => .errorf "schema with id %s does not exist" [.str id]

/-- The schemas that a schema extends, all of which have to be there. -/
def getNeighbours (allSchemas : SchemaSet) (id : String) : Go (List String) := do
  let schema ← getNode allSchemas id
  schema.bases.mapM fun name ↦ do
    let _ ← getNode allSchemas name
    .ok name

/-- `sort`, with the schemas to convert visited in the given order. -/
def sort (allSchemas : SchemaSet) (order : List String) : Go (List String) :=
  match order.foldlM (Toposort.visit id (getNeighbours allSchemas) (allSchemas.keys.length + 1))
    .start with
  | .ok s => .ok s.done
  | .error .cycle => .errorf "cyclic dependencies detected"
  | .error (.next fault) => .error fault
  | .error .fuel => .panicf "stack overflow"

/-- The schemas with one of them joined. -/
def joinNode (schemas : SchemaSet) (id : String) : Go SchemaSet := do
  let schema ← getNode schemas id
  let edges ← schema.bases.mapM (getNode schemas)
  let joined ← schema.join edges
  .ok (schemas.insert id joined)

/-- `updateSchemas`: from the end of the list to its start. -/
def updateSchemas (nodes : List String) (schemas : SchemaSet) : Go SchemaSet :=
  nodes.reverse.foldlM joinNode schemas

/-- `collectSchemas`: the schemas with the properties of their bases, base by base. -/
def collectSchemas (order : List String) (toConvert other : SchemaSet) : Go SchemaSet := do
  let allSchemas ← createGraph toConvert other
  let nodes ← sort allSchemas order
  updateSchemas nodes allSchemas

/-! ## Where the properties of a schema come from -/

/-- Where the property of a name comes from. -/
def PropertySet.origin? (set : PropertySet) (name : String) : Option Origin :=
  (set.lookup name).map (·.origin)

/-- Where the property of a name comes from. -/
def Object.origin? (object : Object) (name : String) : Option Origin :=
  object.properties.origin? name

section Origins

variable {set other all : PropertySet} {object object' : Object} {name : String} {o : Origin}

namespace PropertySet

theorem origin?_insert (set : PropertySet) (key name : String) (property : Property) :
    origin? (set.insert key property) name =
      if name = key then some property.origin else set.origin? name := by
  rw [origin?, origin?]
  by_cases h : name = key
  · rw [if_pos h, h, AList.lookup_insert, Option.map_some]
  · rw [if_neg h, AList.lookup_insert_ne h]

theorem origin?_insertAll (set other : PropertySet) (name : String) :
    (set.insertAll other).origin? name = (other.origin? name).or (set.origin? name) := by
  rw [origin?, insertAll, GoMap.lookup_union]
  cases h : other.lookup name <;> simp [origin?, h]

/-- What is inserted safely keeps its origin, and so does what was there. -/
theorem safeInsertAll_eq_ok (h : set.safeInsertAll other = .ok all) :
    all = set.insertAll other ∧ (∀ name o, set.origin? name = some o → all.origin? name = some o) ∧
      ∀ name o, other.origin? name = some o → all.origin? name = some o := by
  rw [safeInsertAll] at h
  split at h
  · exact absurd h (Go.errorf_ne_ok _ _ _)
  · next hnone =>
    obtain rfl := Except.ok.inj h
    refine ⟨rfl, fun name o hset ↦ ?_, fun name o hother ↦ ?_⟩
    · rw [origin?_insertAll]
      cases hother : other.lookup name with
      | none => rw [origin?, hother, Option.map_none, Option.none_or, hset]
      | some q =>
        obtain ⟨p, hp, rfl⟩ := Option.map_eq_some_iff.mp hset
        have hsame := List.find?_eq_none.mp hnone (name, q) (GoMap.mem_toList.mpr hother)
        have hpointer : p.SamePointer q := by simpa [safeContains, hp] using hsame
        rw [origin?, hother, Option.map_some, Option.some_or, hpointer.1]
    · rw [origin?_insertAll, hother, Option.some_or]

end PropertySet

namespace Object

theorem origin?_makeRequired {schema : String} {properties : List (String × Property)}
    (h : ∀ e ∈ properties, object.origin? e.1 = some e.2.origin) (name : String) :
    (object.makeRequired schema properties).origin? name = object.origin? name := by
  induction properties generalizing object with
  | nil => rfl
  | cons e properties ih =>
    rw [makeRequired, List.foldl_cons]
    split
    · -- the copy has the origin of what it replaces
      have hcopy : ∀ name, ({ object with
          properties := object.properties.insert e.1
            { e.2 with item := e.2.item.makeRequired, copiedBy := some schema } } : Object).origin?
          name = object.origin? name := by
        intro name
        rw [origin?, PropertySet.origin?_insert]
        split
        · next heq => rw [heq, h e List.mem_cons_self]
        · rfl
      exact (ih fun e' he' ↦ (hcopy e'.1).trans (h e' (List.mem_cons_of_mem _ he'))).trans
        (hcopy name)
    · exact ih fun e' he' ↦ h e' (List.mem_cons_of_mem _ he')

theorem origin?_of_mem {e : String × Property} {set : PropertySet} (h : e ∈ GoMap.toList set) :
    set.origin? e.1 = some e.2.origin := by
  rw [PropertySet.origin?, GoMap.mem_toList.mp h, Option.map_some]

theorem origin?_of_toList_eq_nil {set : PropertySet} (h : GoMap.toList set = []) (name : String) :
    set.origin? name = none := by
  rw [PropertySet.origin?, Option.map_eq_none_iff, ← GoMap.lookup_toList, h, List.lookup_nil]

/-- Properties that are added safely have names that are new. -/
theorem addProperties_safe_eq_ok {schema : String}
    (h : object.addProperties schema set true = .ok object') :
    (∀ name o, object.origin? name = some o → object'.origin? name = some o) ∧
      (∀ name o, set.origin? name = some o → object'.origin? name = some o) ∧
      ∀ name, object.origin? name = none → set.origin? name = none →
        object'.origin? name = none := by
  rw [addProperties] at h
  split at h
  · next hnil =>
    obtain rfl := Except.ok.inj h
    refine ⟨fun _ _ h ↦ h, fun name o hset ↦ ?_, fun _ h _ ↦ h⟩
    rw [origin?_of_toList_eq_nil hnil] at hset
    cases hset
  · rw [if_pos rfl] at h
    split at h
    · exact absurd h (Go.errorf_ne_ok _ _ _)
    · next all hall =>
      obtain rfl := Except.ok.inj h
      obtain ⟨rfl, hobject, hset⟩ := PropertySet.safeInsertAll_eq_ok hall
      let joined : Object := { object with properties := object.properties.insertAll set }
      have hrequired : ∀ name, (joined.makeRequired schema (GoMap.toList set)).origin? name =
          joined.origin? name :=
        origin?_makeRequired fun e he ↦ hset _ _ (origin?_of_mem he)
      refine ⟨fun name o h ↦ ?_, fun name o h ↦ ?_, fun name h h' ↦ ?_⟩
      · exact (hrequired name).trans (hobject name o h)
      · exact (hrequired name).trans (hset name o h)
      · refine (hrequired name).trans ?_
        show (object.properties.insertAll set).origin? name = none
        rw [PropertySet.origin?_insertAll, h', Option.none_or]
        exact h

/-- Otherwise the properties of the object are preferred. -/
theorem addProperties_eq_ok {schema : String}
    (h : object.addProperties schema set false = .ok object') (name : String) :
    object'.origin? name = (object.origin? name).or (set.origin? name) := by
  rw [addProperties] at h
  split at h
  · next hnil =>
    obtain rfl := Except.ok.inj h
    rw [origin?_of_toList_eq_nil hnil, Option.or_none]
  · rw [if_neg Bool.false_ne_true] at h
    obtain rfl := Except.ok.inj h
    refine (origin?_makeRequired (fun e he ↦ origin?_of_mem he) name).trans ?_
    exact PropertySet.origin?_insertAll _ _ _

variable [Packages]

/-- No two properties have the same hash. -/
def Distinct (object : Object) : Prop := object.hashed.Pairwise fun p q ↦ p.2 ≠ q.2

omit [Packages] in
theorem compressNodes_eq {previous : (String × Property) × HashNode}
    {nodes : List ((String × Property) × HashNode)}
    (h : (previous :: nodes).Pairwise fun p q ↦ p.2 ≠ q.2) :
    object.compressNodes previous nodes = object := by
  induction nodes generalizing previous with
  | nil => rfl
  | cons node nodes ih =>
    have hne : node.2 ≠ previous.2 :=
      ((List.pairwise_cons.mp h).1 node List.mem_cons_self).symm
    rw [compressNodes, if_neg hne]
    exact ih (List.pairwise_cons.mp h).2

/-- **Compressing loses no property unless two of them have the same hash.** -/
theorem compressObjects_eq (h : object.Distinct) : object.compressObjects = object := by
  have hsorted : (Packages.sortByHash (·.2) object.hashed).Pairwise fun p q ↦ p.2 ≠ q.2 :=
    ((Packages.sortByHash_perm (·.2) object.hashed).pairwise_iff Ne.symm).mpr h
  rw [compressObjects]
  split
  · rfl
  · next node nodes heq => exact compressNodes_eq (heq ▸ hsorted)

end Object

end Origins

/-! ## What a schema is parsed with -/

/-- A decoder makes lists of interfaces, and none of strings. -/
def Decoded (data : Dict) : Prop := ∀ bases, data.get "extends" ≠ .strs bases

/-- Where the properties of a schema by itself come from. -/
def declared (data : Dict) (name : String) : Option Origin :=
  if name ∈ writtenProperties data then some (.written (schemaID data))
  else if parentOf data ≠ "" ∧ name = addName (parentOf data) "id" then
    some (.parent (schemaID data))
  else none

/-- What is known of a definition that has been parsed. -/
structure Parsed (data : Dict) (schema : Schema) : Prop where
  name : schema.name = schemaID data
  parent : schema.parent = parentOf data
  bases : Decoded data → schema.bases = basesOf data
  declared : ∀ name, schema.object.origin? name = declared data name
  /-- The definitions of the properties are maps. -/
  maps : ∀ name value, (writtenProperties data).lookup name = some value → ∃ m, value = .map m
  /-- The property for the parent is not written down. -/
  parentFree : parentOf data ≠ "" → addName (parentOf data) "id" ∉ writtenProperties data

section Parse

variable {data : Dict} {schema : Schema}

theorem getBaseSchemas_eq_ok {bases : List String} (h : Schema.getBaseSchemas data = .ok bases)
    (hdecoded : Decoded data) : bases = basesOf data := by
  rw [Schema.getBaseSchemas] at h
  rw [Decoded] at hdecoded
  rw [basesOf]
  generalize data.get "extends" = extended at h hdecoded ⊢
  cases extended with
  | list extended =>
    have hall := Go.mapM_eq_ok.mp h
    clear h hdecoded
    induction hall with
    | nil => rfl
    | @cons value base values bases hvalue _ ih =>
      cases value with
      | str s =>
        obtain rfl := Except.ok.inj hvalue
        rw [ih]
        rfl
      | _ => exact absurd hvalue (Go.errorf_ne_ok _ _ _)
  | strs extended => exact absurd rfl (hdecoded extended)
  | _ => exact (Except.ok.inj h).symm

theorem lookup_prepareSchema (data : Dict) :
    (Schema.prepareSchema data).lookup "properties" = data.lookup "properties" := by
  rw [Schema.prepareSchema, ← GoMap.lookup_toList]
  split
  · next hnil =>
    rw [hnil]
    rfl
  · rfl

/-- The origins in a set that is made from a list of items. -/
theorem origin?_ofItems (schema name : String) (items : List (String × Item)) :
    PropertySet.origin? (GoMap.ofList (items.map fun e ↦
      (e.1, { item := e.2, origin := .written schema }))) name =
        if name ∈ items.map (·.1) then some (.written schema) else none := by
  rw [PropertySet.origin?]
  split
  · next hmem =>
    obtain ⟨e, he, rfl⟩ := List.mem_map.mp hmem
    have hin := GoMap.mem_ofList (List.mem_map_of_mem (f := fun e : String × Item ↦
      (e.1, ({ item := e.2, origin := .written schema } : Property))) he)
    obtain ⟨p, hp⟩ := Option.isSome_iff_exists.mp (AList.lookup_isSome.mpr hin)
    obtain ⟨e', -, heq⟩ := List.mem_map.mp (GoMap.mem_of_lookup_ofList hp)
    rw [hp, Option.map_some, ← (Prod.mk.inj heq).2]
  · next hmem =>
    rw [Option.map_eq_none_iff, AList.lookup_eq_none]
    intro hin
    obtain ⟨p, hp⟩ := Option.isSome_iff_exists.mp (AList.lookup_isSome.mpr hin)
    obtain ⟨e, he, heq⟩ := List.mem_map.mp (GoMap.mem_of_lookup_ofList hp)
    exact hmem ((Prod.mk.inj heq).1 ▸ List.mem_map_of_mem he)

theorem origin?_singleton (key name : String) (property : Property) :
    PropertySet.origin? (AList.singleton key property) name =
      if name = key then some property.origin else none := by
  rw [← AList.insert_empty, PropertySet.origin?]
  by_cases h : name = key
  · rw [if_pos h, h, AList.lookup_insert, Option.map_some]
  · rw [if_neg h, AList.lookup_insert_ne h, AList.lookup_empty, Option.map_none]

variable [Packages]

/-- The property for the parent is added if there is none of its name. -/
theorem addParent_eq_ok {schema' : Schema} (h : schema.addParent = .ok schema') :
    (schema'.name = schema.name ∧ schema'.parent = schema.parent ∧ schema'.bases = schema.bases) ∧
      (schema.parent ≠ "" → schema.object.origin? (addName schema.parent "id") = none ∨
        schema.object.origin? (addName schema.parent "id") = some (.parent schema.name)) ∧
      ∀ name, schema'.object.origin? name = (schema.object.origin? name).or
        (if schema.parent ≠ "" ∧ name = addName schema.parent "id" then
          some (.parent schema.name) else none) := by
  rw [Schema.addParent] at h
  split at h
  · next hparent =>
    obtain rfl := Except.ok.inj h
    exact ⟨⟨rfl, rfl, rfl⟩, fun hne ↦ absurd hparent hne, fun name ↦ by simp [hparent]⟩
  · next hparent =>
    obtain ⟨item, -, h⟩ := Go.bind_eq_ok.mp h
    obtain ⟨object, hobject, h⟩ := Go.bind_eq_ok.mp h
    obtain rfl := Except.ok.inj h
    obtain ⟨hown, hadded, hnone⟩ := Object.addProperties_safe_eq_ok hobject
    have hnew := hadded (addName schema.parent "id") (.parent schema.name)
      (by rw [origin?_singleton, if_pos rfl])
    refine ⟨⟨rfl, rfl, rfl⟩, fun _ ↦ ?_, fun name ↦ ?_⟩
    · cases hbefore : schema.object.origin? (addName schema.parent "id") with
      | none => exact .inl rfl
      | some o => exact .inr ((hown _ o hbefore).symm.trans hnew)
    · cases hbefore : schema.object.origin? name with
      | some o => exact hown name o hbefore
      | none =>
        rw [Option.none_or]
        by_cases hname : name = addName schema.parent "id"
        · rw [if_pos ⟨hparent, hname⟩, hname]
          exact hnew
        · rw [if_neg fun h ↦ hname h.2]
          exact hnone name hbefore (by rw [origin?_singleton, if_neg hname])

theorem parseUncompressed_eq_ok (h : Schema.parseUncompressed data = .ok schema) :
    Parsed data schema := by
  rw [Schema.parseUncompressed] at h
  split at h
  swap
  · exact absurd h (Go.errorf_ne_ok _ _ _)
  next id hid =>
  obtain ⟨bases, hbases, h⟩ := Go.bind_eq_ok.mp h
  rw [inContext_eq_ok] at hbases
  split at h
  swap
  · exact absurd h (Go.errorf_ne_ok _ _ _)
  next raw hraw =>
  obtain ⟨item, hitem, h⟩ := Go.bind_eq_ok.mp h
  rw [inContext_eq_ok] at hitem
  split at h
  swap
  · exact absurd h (Go.errorf_ne_ok _ _ _)
  next objectType items required =>
  rw [inContext_eq_ok] at h
  obtain ⟨⟨hname, hparent, hschemaBases⟩, hfree, horigins⟩ := addParent_eq_ok h
  obtain ⟨required', context, hproperties⟩ := parseProperty_eq_object hitem
  obtain ⟨next, hnext, heach⟩ := parseProperties_eq_ok hproperties
  obtain ⟨hnames, hmaps⟩ := parseEach_eq_ok heach
  have hidOf : schemaID data = id := by rw [schemaID, hid]; rfl
  have hwritten : writtenProperties data = GoMap.ofList next := by
    rw [lookup_prepareSchema] at hnext
    rw [writtenProperties, hraw]
    show (((GoMap.ofList raw).lookup "properties").getD .nil).maybeMap = GoMap.ofList next
    cases hlookup : (GoMap.ofList raw).lookup "properties" with
    | none =>
      rw [hlookup] at hnext
      obtain rfl := Value.map.inj hnext
      rfl
    | some v =>
      rw [hlookup] at hnext
      obtain rfl : v = .map next := hnext
      rfl
  have hmem : ∀ name, name ∈ items.map (·.1) ↔ name ∈ writtenProperties data := by
    intro name
    rw [hnames, hwritten]
    constructor
    · intro h
      obtain ⟨e, he, rfl⟩ := List.mem_map.mp h
      exact GoMap.mem_ofList he
    · intro h
      obtain ⟨v, hv⟩ := Option.isSome_iff_exists.mp (AList.lookup_isSome.mpr h)
      exact List.mem_map_of_mem (GoMap.mem_of_lookup_ofList hv)
  refine ⟨hname.trans hidOf.symm, hparent, fun hdecoded ↦
    hschemaBases.trans (getBaseSchemas_eq_ok hbases hdecoded), fun name ↦ ?_,
    fun name value hvalue ↦ ?_, fun hne hin ↦ ?_⟩
  · rw [horigins name, Object.origin?, origin?_ofItems, declared, hidOf, parentOf]
    by_cases hin : name ∈ items.map (·.1)
    · rw [if_pos hin, if_pos ((hmem name).mp hin), Option.some_or]
    · rw [if_neg hin, if_neg fun h ↦ hin ((hmem name).mpr h), Option.none_or]
  · rw [hwritten] at hvalue
    exact hmaps _ (GoMap.mem_of_lookup_ofList hvalue)
  · have hown := origin?_ofItems id (addName (parentOf data) "id") items
    rw [if_pos ((hmem _).mpr hin)] at hown
    rcases hfree hne with hnone | hparentOrigin
    · exact absurd (hown.symm.trans hnone) (by simp)
    · exact absurd (hown.symm.trans hparentOrigin) (by simp)

theorem parse_eq_ok (h : Schema.parse data = .ok schema) : ∃ uncompressed,
    Schema.parseUncompressed data = .ok uncompressed ∧
      schema = { uncompressed with object := uncompressed.object.compressObjects } := by
  obtain ⟨uncompressed, huncompressed, h⟩ := Go.bind_eq_ok.mp h
  exact ⟨uncompressed, huncompressed, (Except.ok.inj h).symm⟩

end Parse

/-! ## What a join does -/

section Join

variable {schema joined : Schema} {edges : List Schema} {sets : List PropertySet}
  {set all : PropertySet}

/-- A fold of safe insertions has all the properties, as they were. -/
theorem foldlM_safeInsertAll_eq_ok {f : PropertySet → Schema → Go PropertySet}
    (hf : ∀ set edge all, f set edge = .ok all →
      PropertySet.safeInsertAll set edge.object.properties = .ok all)
    (h : edges.foldlM f set = .ok all) :
    (∀ name o, set.origin? name = some o → all.origin? name = some o) ∧
      (∀ edge ∈ edges, ∀ name o, edge.object.origin? name = some o → all.origin? name = some o) ∧
      ∀ name o, all.origin? name = some o →
        set.origin? name = some o ∨ ∃ edge ∈ edges, edge.object.origin? name = some o := by
  induction edges generalizing set with
  | nil =>
    obtain rfl := Except.ok.inj h
    exact ⟨fun _ _ h ↦ h, fun _ h ↦ absurd h List.not_mem_nil, fun _ _ h ↦ .inl h⟩
  | cons edge edges ih =>
    rw [List.foldlM_cons] at h
    obtain ⟨next, hnext, h⟩ := Go.bind_eq_ok.mp h
    obtain ⟨heq, hset, hedge⟩ := PropertySet.safeInsertAll_eq_ok (hf _ _ _ hnext)
    obtain ⟨hkept, hedges, hback⟩ := ih h
    refine ⟨fun name o ho ↦ hkept name o (hset name o ho), fun edge' he name o ho ↦ ?_,
      fun name o ho ↦ ?_⟩
    · rcases List.mem_cons.mp he with rfl | he
      · exact hkept name o (hedge name o ho)
      · exact hedges edge' he name o ho
    · rcases hback name o ho with ho | ⟨edge', he, ho⟩
      · rw [heq, PropertySet.origin?_insertAll, Option.or_eq_some_iff] at ho
        rcases ho with ho | ⟨-, ho⟩
        · exact .inr ⟨edge, List.mem_cons_self, ho⟩
        · exact .inl ho
      · exact .inr ⟨edge', List.mem_cons_of_mem _ he, ho⟩

/-- What comes out of a join: a property of the schema itself, or else the one that its bases
have. -/
structure Joined (schema : Schema) (edges : List Schema) (joined : Schema) : Prop where
  name : joined.name = schema.name
  own : ∀ name o, schema.object.origin? name = some o → joined.object.origin? name = some o
  inherited : ∀ edge ∈ edges, ∀ name o, schema.object.origin? name = none →
    edge.object.origin? name = some o → joined.object.origin? name = some o
  origin : ∀ name o, joined.object.origin? name = some o → schema.object.origin? name = some o ∨
    schema.object.origin? name = none ∧ ∃ edge ∈ edges, edge.object.origin? name = some o

theorem join_eq_ok (h : schema.join edges = .ok joined) : Joined schema edges joined := by
  obtain ⟨all, hall, h⟩ := Go.bind_eq_ok.mp h
  obtain ⟨object, hobject, h⟩ := Go.bind_eq_ok.mp h
  obtain rfl := Except.ok.inj h
  have horigin := Object.addProperties_eq_ok hobject
  obtain ⟨-, hedges, hback⟩ := foldlM_safeInsertAll_eq_ok (fun set edge all h ↦ by
    split at h
    · next hinsert => rwa [← Except.ok.inj h]
    · exact absurd h (Go.errorf_ne_ok _ _ _)) hall
  refine ⟨rfl, fun name o ho ↦ ?_, fun edge he name o hnone ho ↦ ?_, fun name o ho ↦ ?_⟩
  · exact (horigin name).trans (by rw [ho, Option.some_or])
  · exact (horigin name).trans (by rw [hnone, Option.none_or, hedges edge he name o ho])
  · rw [show ({ schema with object := object } : Schema).object = object from rfl,
      horigin name, Option.or_eq_some_iff] at ho
    refine ho.imp id fun ⟨hnone, ho⟩ ↦ ⟨hnone, ?_⟩
    rcases hback name o ho with hempty | hedge
    · simp [PropertySet.origin?] at hempty
    · exact hedge

end Join

/-! ## All the schemas -/

section All

variable {toConvert other all set result : SchemaSet} {order nodes : List String} {name : String}

section ParseAll

variable [Packages] {schemas : List Dict}

/-- The schemas of a list are in the set under their identifiers, which are distinct. -/
theorem parseFrom_eq_ok (h : parseFrom set schemas = .ok all) :
    (∀ id schema, set.lookup id = some schema → all.lookup id = some schema) ∧
      (∀ data ∈ schemas, schemaID data ∉ set ∧ ∃ schema, Schema.parse data = .ok schema ∧
        all.lookup (schemaID data) = some schema) ∧
      (∀ id, id ∈ all → id ∈ set ∨ ∃ data ∈ schemas, schemaID data = id) ∧
      (schemas.map schemaID).Nodup := by
  induction schemas generalizing set with
  | nil =>
    obtain rfl := Except.ok.inj h
    exact ⟨fun _ _ h ↦ h, fun _ h ↦ absurd h List.not_mem_nil, fun _ h ↦ .inl h, List.nodup_nil⟩
  | cons data schemas ih =>
    obtain ⟨schema, hschema, h⟩ := Go.bind_eq_ok.mp h
    have hname : schema.name = schemaID data := by
      obtain ⟨uncompressed, huncompressed, rfl⟩ := parse_eq_ok hschema
      exact (parseUncompressed_eq_ok huncompressed).name
    rw [hname] at h
    split at h
    · exact absurd h (Go.errorf_ne_ok _ _ _)
    · next hnew =>
      obtain ⟨hkept, hall, hback, hnodup⟩ := ih h
      refine ⟨fun id s hs ↦ hkept id s ?_, fun d hd ↦ ?_, fun id hid ↦ ?_, ?_⟩
      · have hne : id ≠ schemaID data :=
          fun heq ↦ hnew (heq ▸ AList.lookup_isSome.mp (by simp [hs]))
        rwa [AList.lookup_insert_ne hne]
      · rcases List.mem_cons.mp hd with rfl | hd
        · exact ⟨hnew, schema, hschema, hkept _ _ (AList.lookup_insert _)⟩
        · obtain ⟨hfree, hparsed⟩ := hall d hd
          exact ⟨fun hin ↦ hfree ((AList.mem_insert _).mpr (.inr hin)), hparsed⟩
      · rcases hback id hid with hin | ⟨d, hd, heq⟩
        · rcases (AList.mem_insert _).mp hin with rfl | hin
          · exact .inr ⟨data, List.mem_cons_self, rfl⟩
          · exact .inl hin
        · exact .inr ⟨d, List.mem_cons_of_mem _ hd, heq⟩
      · refine List.nodup_cons.mpr ⟨fun hmem ↦ ?_, hnodup⟩
        obtain ⟨d, hd, heq⟩ := List.mem_map.mp hmem
        exact (hall d hd).1 (heq ▸ (AList.mem_insert _).mpr (.inl rfl))

end ParseAll

theorem createGraph_eq_ok (h : createGraph toConvert other = .ok all) :
    all = toConvert ∪ other ∧ ∀ id ∈ toConvert, id ∉ other := by
  rw [createGraph] at h
  split at h
  · exact absurd h (Go.errorf_ne_ok _ _ _)
  · next hdisjoint =>
    refine ⟨(Except.ok.inj h).symm, fun id hid hother ↦ hdisjoint ?_⟩
    exact List.any_eq_true.mpr ⟨id, AList.mem_keys.mpr hid, by simpa using hother⟩

theorem getNode_eq_ok {schema : Schema} :
    getNode all name = .ok schema ↔ all.lookup name = some schema := by
  rw [getNode]
  cases all.lookup name with
  | none => simp
  | some s => simp

theorem getNeighbours_eq_ok {bases : List String} (hok : getNeighbours all name = .ok bases) :
    ∃ schema, all.lookup name = some schema ∧ bases = schema.bases ∧ ∀ b ∈ bases, b ∈ all := by
  obtain ⟨schema, hschema, h⟩ := Go.bind_eq_ok.mp hok
  clear hok
  refine ⟨schema, getNode_eq_ok.mp hschema, ?_⟩
  generalize schema.bases = names at h ⊢
  have hall := Go.mapM_eq_ok.mp h
  clear h
  induction hall with
  | nil => exact ⟨rfl, fun b hb ↦ absurd hb List.not_mem_nil⟩
  | cons hname _ ih =>
    obtain ⟨base, hbase, hname⟩ := Go.bind_eq_ok.mp hname
    obtain rfl := Except.ok.inj hname
    refine ⟨congrArg _ ih.1, fun b hb ↦ ?_⟩
    rcases List.mem_cons.mp hb with rfl | hb
    · exact AList.lookup_isSome.mp (by rw [getNode_eq_ok.mp hbase]; rfl)
    · exact ih.2 b hb

theorem edge_mem (b c : String) (_ : b ∈ all)
    (h : Toposort.Edge (getNeighbours all) b c) : c ∈ all := by
  obtain ⟨bases, hbases, hc⟩ := h
  obtain ⟨schema, -, -, hmem⟩ := getNeighbours_eq_ok hbases
  exact hmem c hc

/-- **The order of the graph**, whichever schemas are visited first. -/
theorem sort_eq_ok (horder : ∀ id ∈ order, id ∈ all) (h : sort all order = .ok nodes) :
    Toposort.Sorted id (getNeighbours all) nodes ∧ nodes.Nodup ∧ ∀ id ∈ order, id ∈ nodes := by
  rw [sort] at h
  split at h
  · next s hs =>
    obtain rfl := Except.ok.inj h
    have hvisits := Toposort.foldlM_ok (P := (· ∈ all))
      (fun t b u hb ht hu ↦ Toposort.visit_ok edge_mem (horder b hb) ht hu) Toposort.Inv.start hs
    refine ⟨hvisits.inv.sorted, by simpa using hvisits.inv.nodup, fun id hid ↦ ?_⟩
    simpa using (hvisits.inv.visited_iff id).mp (hvisits.visited id hid)
  · exact absurd h (Go.errorf_ne_ok _ _ _)
  · cases h
  · exact absurd h (Go.panicf_ne_ok _ _ _)

/-- The bases of a schema are there, and have the properties they were parsed with. -/
def JoinedWith (all result : SchemaSet) (name : String) : Prop :=
  ∃ schema edges joined, all.lookup name = some schema ∧
    List.Forall₂ (fun base edge ↦ all.lookup base = some edge) schema.bases edges ∧
    schema.join edges = .ok joined ∧ result.lookup name = some joined

/-- A schema is joined before its bases, so each join finds its schemas as they were. -/
theorem foldlM_joinNode_eq_ok
    (horder : nodes.Pairwise fun a b ↦ a ≠ b ∧
      ∀ schema, all.lookup b = some schema → a ∉ schema.bases)
    (hset : ∀ name ∈ nodes, set.lookup name = all.lookup name ∧
      ∀ schema, all.lookup name = some schema → ∀ b ∈ schema.bases, set.lookup b = all.lookup b)
    (h : nodes.foldlM joinNode set = .ok result) :
    (∀ name ∉ nodes, result.lookup name = set.lookup name) ∧
      ∀ name ∈ nodes, JoinedWith all result name := by
  induction nodes generalizing set with
  | nil =>
    obtain rfl := Except.ok.inj h
    exact ⟨fun _ _ ↦ rfl, fun _ h ↦ absurd h List.not_mem_nil⟩
  | cons first nodes ih =>
    rw [List.foldlM_cons] at h
    obtain ⟨next, hnext, h⟩ := Go.bind_eq_ok.mp h
    obtain ⟨schema, hschema, hnext⟩ := Go.bind_eq_ok.mp hnext
    obtain ⟨edges, hedges, hnext⟩ := Go.bind_eq_ok.mp hnext
    obtain ⟨joined, hjoin, hnext⟩ := Go.bind_eq_ok.mp hnext
    obtain rfl := Except.ok.inj hnext
    obtain ⟨hfirst, hpairs⟩ := List.pairwise_cons.mp horder
    have hset' : ∀ name ∈ nodes, (set.insert first joined).lookup name = all.lookup name ∧
        ∀ schema, all.lookup name = some schema →
          ∀ b ∈ schema.bases, (set.insert first joined).lookup b = all.lookup b := by
      intro name hname
      obtain ⟨hsame, hbases⟩ := hset name (List.mem_cons_of_mem _ hname)
      obtain ⟨hne, hnot⟩ := hfirst name hname
      refine ⟨by rwa [AList.lookup_insert_ne (Ne.symm hne)], fun s hs b hb ↦ ?_⟩
      have hbase : b ≠ first := fun heq ↦ hnot s hs (heq ▸ hb)
      rw [AList.lookup_insert_ne hbase]
      exact hbases s hs b hb
    obtain ⟨hout, hin⟩ := ih hpairs hset' h
    have hnotin : first ∉ nodes := fun hmem ↦ (hfirst first hmem).1 rfl
    obtain ⟨hsame, hbases⟩ := hset first List.mem_cons_self
    rw [getNode_eq_ok, hsame] at hschema
    refine ⟨fun name hname ↦ ?_, fun name hname ↦ ?_⟩
    · rw [List.mem_cons, not_or] at hname
      rw [hout name hname.2, AList.lookup_insert_ne hname.1]
    · rcases List.mem_cons.mp hname with rfl | hname
      · refine ⟨schema, edges, joined, hschema, ?_, hjoin, ?_⟩
        · have hmem := (List.forall₂_and_left schema.bases edges).mpr
            ⟨fun b hb ↦ hb, Go.mapM_eq_ok.mp hedges⟩
          refine hmem.imp fun b edge hedge ↦ ?_
          rw [← hbases schema hschema b hedge.1]
          exact getNode_eq_ok.mp hedge.2
        · rw [hout _ hnotin, AList.lookup_insert]
      · exact hin name hname

/-- **What is collected**, whatever order the schemas are visited in: each schema that is converted
has been joined with its bases as they were parsed. -/
theorem collectSchemas_eq_ok (horder : ∀ name ∈ order, name ∈ toConvert)
    (h : collectSchemas order toConvert other = .ok result) :
    (∀ name ∈ toConvert, name ∉ other) ∧
      ∀ name ∈ order, JoinedWith (toConvert ∪ other) result name := by
  obtain ⟨all, hall, h⟩ := Go.bind_eq_ok.mp h
  obtain ⟨nodes, hnodes, h⟩ := Go.bind_eq_ok.mp h
  obtain ⟨rfl, hdisjoint⟩ := createGraph_eq_ok hall
  refine ⟨hdisjoint, ?_⟩
  obtain ⟨hsorted, hnodup, hvisited⟩ := sort_eq_ok
    (fun name hname ↦ AList.mem_union.mpr (.inl (horder name hname))) hnodes
  have hpairs := hsorted.pairwise (by simpa using hnodup)
  have hlater : nodes.reverse.Pairwise fun a b ↦ a ≠ b ∧
      ∀ schema, (toConvert ∪ other).lookup b = some schema → a ∉ schema.bases := by
    refine List.pairwise_reverse.mpr (hpairs.imp_of_mem fun {b a} hb _ hba ↦ ?_)
    refine ⟨Ne.symm hba.1, fun schema hschema ha ↦ ?_⟩
    obtain ⟨before, after, heq⟩ := List.append_of_mem hb
    obtain ⟨bases, hbases, -⟩ := hsorted before b after heq
    obtain ⟨schema', hschema', rfl, -⟩ := getNeighbours_eq_ok hbases
    obtain rfl := Option.some.inj (hschema.symm.trans hschema')
    exact hba.2 a ⟨_, hbases, ha⟩ rfl
  obtain ⟨-, hjoined⟩ := foldlM_joinNode_eq_ok hlater
    (fun name hname ↦ ⟨rfl, fun _ _ _ _ ↦ rfl⟩) h
  exact fun name hname ↦ hjoined name (List.mem_reverse.mpr (hvisited name hname))

end All

end Gohan.Converter
