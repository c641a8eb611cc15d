import Gohan.Schema.Nested
import Gohan.Schema.Policy
import Gohan.Logic.Program
import Gohan.Logic.Toposort

/-!
# Loading schema files

A schema file lists namespaces, schemas, policies and extensions, and other files to load first.
`loadSchemaFromFile` reads it into the manager: it registers the abstract schemas, extends the
others by them, puts them in an order in which every schema comes after the ones it refers to, and
registers them in that order.

Loading is not atomic.  What has been registered stays when something later in the file is refused,
so the loader is a program that acts on the manager, and its run is the list of these actions.  Two
of them change nothing: they mark where the order is computed, and where a call returns nil.

A pointer to a registered schema is the schema, with what it points to.  A schema that names itself
as its parent finds itself in the manager; following its pointer does not come to an end.
-/

set_option autoImplicit false

namespace Gohan

variable [RegexpEngine]

/-- What the loader uses of the world around it: files, and packages that are not the program's
own. -/
class Files where
  /-- `util.LoadFile`: the decoded contents of a file. -/
  loadFile : String → Go Value
  /-- `util.GetContent`. -/
  getContent : String → Go String
  /-- `os.Getwd`. -/
  getwd : Go String
  /-- `filepath.Dir`. -/
  dir : String → String
  /-- `fixRelativeURL`, which is about package `net/url`. -/
  fixRelativeURL : String → String → Go String
  /-- `Schema.Validate`, which is about package `gojsonschema`. -/
  validate : Dict → Dict → Go Unit
  /-- `sort.Sort(PropertyOrder{…})`. -/
  sortProperties : List String → List NestedProperty → List NestedProperty
  /-- `PropertyOrder.Less` is not an order, so nothing is said of the result but that it is a
  rearrangement. -/
  sortProperties_perm : ∀ propertiesOrder properties,
    (sortProperties propertiesOrder properties).Perm properties

namespace Loading

/-- The list under a key, or none. -/
def listUnder (data : Dict) (key : String) : List Value := ((data.get key).slice?).getD []

/-- `util.ExtendStringList`. -/
def extendStringList (original extension : List String) : List String :=
  extension.foldl
    (fun extended item ↦ if extended.contains item then extended else extended ++ [item]) original

omit [RegexpEngine] in
theorem extendStringList_cons (original extension : List String) (item : String) :
    extendStringList original (item :: extension) = extendStringList
      (if original.contains item then original else original ++ [item]) extension := rfl

omit [RegexpEngine] in
theorem mem_extendStringList {original extension : List String} {item : String} :
    item ∈ extendStringList original extension ↔ item ∈ original ∨ item ∈ extension := by
  induction extension generalizing original with
  | nil => simp [extendStringList]
  | cons first extension ih =>
    rw [extendStringList_cons, ih]
    by_cases h : first ∈ original
    · have hfirst : item = first → item ∈ original := fun heq ↦ heq ▸ h
      rw [if_pos (List.contains_iff_mem.mpr h), List.mem_cons]
      tauto
    · rw [if_neg (by simpa using h), List.mem_append, List.mem_singleton, List.mem_cons, or_assoc]

omit [RegexpEngine] in
/-- What is there twice stays there twice, but nothing is put in twice. -/
theorem nodup_extendStringList_iff {original extension : List String} :
    (extendStringList original extension).Nodup ↔ original.Nodup := by
  induction extension generalizing original with
  | nil => exact Iff.rfl
  | cons first extension ih =>
    rw [extendStringList_cons, ih]
    by_cases h : first ∈ original
    · rw [if_pos (List.contains_iff_mem.mpr h)]
    · rw [if_neg (by simpa using h), ← List.concat_eq_append, List.nodup_concat]
      exact and_iff_right h

/-- `util.ExtendMap`. -/
def extendMap (original extension : Dict) : Dict := original ∪ extension

/-- `FormatParentID`. -/
def formatParentID (parent : String) : String := parent ++ "_id"

/-! ## Properties -/

/-- The type of a property, and whether null is allowed. -/
def parseType : Value → Go (String × Bool)
  | .str typeID => .ok (typeID, false)
  | .list typeInts => typeInts.foldlM (fun (typeID, nullable) typeInt ↦
      match typeInt with
      | .str "null" => .ok (typeID, true)
      | .str name => .ok (name, nullable)
      | _ => .panicf "interface conversion: interface {} is not string") ("", false)
  | _ => .ok ("", false)

/-- `typeData[key].(bool)`, when the value is one. -/
def boolUnder (typeData : List (String × Value)) (key : String) : Bool :=
  typeData.lookup key == some (.bool true)

mutual
/-- `NewPropertyFromObj`. -/
def newPropertyFromObj (id : String) (required : Bool) : Value → Go NestedProperty
  | .map typeData => do
    let (type, nullable) ← parseType ((typeData.lookup "type").getD .nil)
    let default := (typeData.lookup "default").getD .nil
    let own : Property := {
      id, type
      nullable := nullable || (!required && default == .nil)
      relation := stringUnder typeData "relation"
      relationProperty := stringUnder typeData "relation_property"
      indexed := boolUnder typeData "indexed"
      default }
    let items ← (if type = "array" then parseItems typeData else .ok none)
    match typeData.lookup "enum" with
    | none | some (.list _) =>
      let subrequired := match typeData.lookup "required" with
        | some (.strs required) => required
        | _ => []
      let properties ←
        (if type = "object" then parseSubproperties subrequired typeData else .ok [])
      .ok (.mk own properties items)
    | some _ => .panicf "interface conversion: interface {} is not []interface {}"
  | _ => .panicf "interface conversion: interface {} is not map[string]interface {}"

/-- The property for the items, if the definition has one. -/
def parseItems : List (String × Value) → Go (Option NestedProperty)
  | [] => .ok none
  | (key, itemsRaw) :: typeData =>
    if key = "items" then
      match itemsRaw with
      | .map typedItems => do
        .ok (some (← newPropertyFromObj itemPropertyID true (.map typedItems)))
      | .list _ => .ok none
      | _ => .panicf "Invalid \"items\" type in property: should be a map or an array, but is %T"
          [itemsRaw]
    else parseItems typeData

/-- The loop of `NewPropertyFromObj` over the keys of a definition, up to one that has properties
below it. -/
def parseSubproperties (required : List String) : List (String × Value) → Go (List NestedProperty)
  | [] => .ok []
  | (key, value) :: typeData =>
    if key = "properties" then
      match value with
      | .map properties => parseProperties required properties
      | _ => .ok []
    else parseSubproperties required typeData

/-- The loop over the properties of a map. -/
def parseProperties (required : List String) : List (String × Value) → Go (List NestedProperty)
  | [] => .ok []
  | (id, property) :: properties => do
    let propertyObj ← newPropertyFromObj id (required.contains id) property
    let propertyObjs ← parseProperties required properties
    .ok (propertyObj :: propertyObjs)
end

/-- `getParentPropertyObj`: the definition of the property for the parent. -/
def getParentPropertyObj (title parent : String) : Value :=
  .map [("type", .str "string"), ("relation", .str parent), ("title", .str title),
    ("description", .str "parent object"), ("unique", .bool false),
    ("permission", .list [.str "create"])]

/-! ## Indexes -/

/-- The types of indexes. -/
inductive IndexType where
  | unique
  | fullText
  | spatial
  | none

/-- An index that a schema lists. -/
structure Index where
  name : String
  columns : List String
  type : IndexType

/-- `mapIndexType`, which does not mind the case of the letters. -/
def mapIndexType (rawIndexType : String) : Go IndexType :=
  match rawIndexType.toUpper with
  | "UNIQUE" => .ok .unique
  | "FULLTEXT" => .ok .fullText
  | "SPATIAL" => .ok .spatial
  | "" => .ok .none
  | _ => .errorf "Unknown index type: %s" [.str rawIndexType]

/-- `NewIndexFromObj`. -/
def newIndexFromObj (name : String) : Value → Go Index
  | .map typeData => do
    let stringIndexType ← match (typeData.lookup "type").getD (.str "") with
      | .str stringIndexType => .ok stringIndexType
      | _ => .panicf "interface conversion: interface {} is not string"
    let indexType ← mapIndexType stringIndexType
    match (typeData.lookup "columns").bind Value.slice? with
    | none => .panicf "interface conversion: interface {} is not []interface {}"
    | some rawColumns => do
      let columns ← rawColumns.mapM fun rawColumn ↦
        match rawColumn with
        | .str columnName => .ok columnName
        | _ => .panicf "interface conversion: interface {} is not string"
      .ok ⟨name, columns, indexType⟩
  | _ => .panicf "interface conversion: interface {} is not map[string]interface {}"

/-- The loop over the indexes of a schema. -/
def newIndexes : List (String × Value) → Go (List Index)
  | [] => .ok []
  | (name, property) :: indexes =>
    match newIndexFromObj name property with
    | .ok indexObj => do .ok (indexObj :: (← newIndexes indexes))
    | .error (.error format args) => .errorf "Invalid schema: err: %v" (.str format :: args)
    | .error fault => .error fault

/-! ## Schemas -/

/-- A schema as it is read from a file.  Its actions are kept under their identifiers, as they are
written. -/
structure SchemaObj where
  ID : String
  Plural : String
  Title : String
  Description : String
  Singular : String
  Prefix : String
  URL : String
  type : String
  Parent : String
  NamespaceID : String
  IsolationLevel : Dict
  JSONSchema : Dict
  Metadata : Dict
  Extends : List String
  OrderPropertiesBefore : List String
  Actions : Dict
  Properties : List NestedProperty := []
  Indexes : List Index := []

variable [Files]

namespace SchemaObj

/-- `IsAbstract`. -/
def isAbstract (schema : SchemaObj) : Bool := schema.type == "abstract"

/-- `properties[FormatParentID(parent)] == nil`, for a schema with a parent: the schema gets a
property for it. -/
def lacksParentID (schema : SchemaObj) (properties : Dict) : Bool :=
  schema.Parent != "" && properties.get (formatParentID schema.Parent) == .nil

/-- `Init`.  The map of properties is changed in place, so the property for the parent appears in
the JSON schema too, if that has a map of properties. -/
def init (schema : SchemaObj) : Go SchemaObj :=
  if schema.isAbstract then .ok schema
  else do
    let parentID := formatParentID schema.Parent
    let jsonSchema := schema.JSONSchema
    let required := (jsonSchema.get "required").maybeStringList
    let properties : Dict := (jsonSchema.get "properties").maybeMap
    let indexes := (jsonSchema.get "indexes").maybeMap
    let propertiesOrder := (jsonSchema.get "propertiesOrder").maybeStringList
    let added := schema.lacksParentID properties
    let properties : Dict := if added then
      properties.insert parentID (getParentPropertyObj schema.Parent schema.Parent) else properties
    let propertiesOrder := if added then propertiesOrder ++ [parentID] else propertiesOrder
    let required := if added then required ++ [parentID] else required
    let jsonSchema : Dict := match jsonSchema.get "properties" with
      | .map _ => jsonSchema.insert "properties" (.map (GoMap.toList properties))
      | _ => jsonSchema
    let jsonSchema := jsonSchema.insert "required" (.strs required)
    let propertyObjs ← parseProperties required (GoMap.toList properties)
    let indexObjs ← newIndexes (GoMap.toList indexes)
    let propertyObjs := Files.sortProperties propertiesOrder propertyObjs
    let propertiesOrder := extendStringList propertiesOrder (propertyObjs.map (·.own.id))
    .ok { schema with
      JSONSchema := jsonSchema.insert "propertiesOrder" (.strs propertiesOrder)
      Properties := propertyObjs
      Indexes := indexObjs }

/-- `Extend`. -/
def extend (schema fromSchema : SchemaObj) : Go SchemaObj :=
  let properties := extendMap (schema.JSONSchema.get "properties").maybeMap
    (fromSchema.JSONSchema.get "properties").maybeMap
  let order := (schema.JSONSchema.get "propertiesOrder").maybeStringList
  let fromOrder := (fromSchema.JSONSchema.get "propertiesOrder").maybeStringList
  let propertiesOrder := if schema.OrderPropertiesBefore.contains fromSchema.ID then
    extendStringList order fromOrder else extendStringList fromOrder order
  let required := extendStringList (fromSchema.JSONSchema.get "required").maybeStringList
    (schema.JSONSchema.get "required").maybeStringList
  init { schema with
    Parent := if schema.Parent = "" then fromSchema.Parent else schema.Parent
    Prefix := if schema.Prefix = "" then fromSchema.Prefix else schema.Prefix
    URL := if schema.URL = "" then fromSchema.URL else schema.URL
    NamespaceID := if schema.NamespaceID = "" then fromSchema.NamespaceID else schema.NamespaceID
    JSONSchema := ((schema.JSONSchema.insert "properties" (.map (GoMap.toList properties))).insert
      "propertiesOrder" (.strs propertiesOrder)).insert "required" (.strs required)
    Actions := extendMap schema.Actions fromSchema.Actions
    Metadata := extendMap schema.Metadata fromSchema.Metadata
    IsolationLevel := extendMap schema.IsolationLevel fromSchema.IsolationLevel }

/-- `relatedSchemas`: the schemas a schema has relations to, and its bases. -/
def relatedSchemas (schema : SchemaObj) : List String :=
  extendStringList ((schema.Properties.map (·.own.relation)).filter (· != "")) schema.Extends

end SchemaObj

/-- A field of the definition of a schema that may not be empty. -/
def requireString (typeData : Dict) (field : String) : Go String :=
  let value := (typeData.get field).maybeString
  if value = "" then .errorf "Type Assertion Error: invalid schema %v field" [.str field]
  else .ok value

/-- The definition is held against the metaschema, if there is one. -/
def validateBy (metaschema : Option SchemaObj) (typeData : Dict) : Go Unit :=
  match metaschema with
  | some metaschema => Files.validate metaschema.JSONSchema typeData
  | none => .ok ()

/-- `NewSchemaFromObj`: the schema that a definition is read as, once the metaschema has accepted
it. -/
def newSchemaFromObj (metaschema : Option SchemaObj) : Value → Go SchemaObj
  | .map entries => do
    let typeData : Dict := GoMap.ofList entries
    validateBy metaschema typeData
    let ID ← requireString typeData "id"
    let Plural ← requireString typeData "plural"
    let Title ← requireString typeData "title"
    let Description ← requireString typeData "description"
    let Singular ← requireString typeData "singular"
    match typeData.get "schema" with
    | .map jsonSchema => SchemaObj.init {
        ID, Plural, Title, Description, Singular
        Prefix := (typeData.get "prefix").maybeString
        URL := (typeData.get "url").maybeString
        type := (typeData.get "type").maybeString
        Parent := (typeData.get "parent").maybeString
        NamespaceID := (typeData.get "namespace").maybeString
        IsolationLevel := (typeData.get "isolation_level").maybeMap
        JSONSchema := GoMap.ofList jsonSchema
        Metadata := (typeData.get "metadata").maybeMap
        Extends := (typeData.get "extends").maybeStringList
        OrderPropertiesBefore := (typeData.get "order_properties_before").maybeStringList
        Actions := (typeData.get "actions").maybeMap }
    | _ => .errorf "Type Assertion Error: invalid schema %v field" [.str "schema"]
  | _ => .panicf "interface conversion: interface {} is not map[string]interface {}"

/-! ## The order of schemas -/

omit [Files] in
/-- The schemas of the list that a schema refers to: for each identifier the first one. -/
def candidates (schemas : List SchemaObj) (schema : SchemaObj) : List SchemaObj :=
  schema.relatedSchemas.filterMap fun relatedSchemaID ↦
    schemas.find? fun candidate ↦ candidate.ID == relatedSchemaID

/-- The loop of `reorderSchemas`, which goes on with the last schema that is not visited yet. -/
def sortSchemas (schemas : List SchemaObj) :
    Except (Toposort.Failure Empty) (Toposort.State String SchemaObj) :=
  Toposort.exhaust SchemaObj.ID (fun schema ↦ .ok (candidates schemas schema))
    (fun s ↦ (schemas.filter fun schema ↦ s.mark schema.ID = .notVisited).getLast?)
    (schemas.length + 1) (schemas.length + 1) .start

/-- `reorderSchemas`: the identifiers, those first that others depend on. -/
def reorderSchemas (schemas : List SchemaObj) : Go (List String) :=
  match sortSchemas schemas with
  | .ok s => .ok (s.done.map SchemaObj.ID)
  | .error _ => .errorf "Schemas aren't DAG. We can't reorder automatically"

/-! ## The manager -/

/-- A namespace as it is read from a file. -/
structure NamespaceObj where
  ID : String
  Prefix : String
  Parent : String

/-- `NewNamespace`. -/
def newNamespace : Value → Go NamespaceObj
  | .map typeData => .ok {
      ID := stringUnder typeData "id"
      Prefix := stringUnder typeData "prefix"
      Parent := stringUnder typeData "parent" }
  | _ => .panicf "interface conversion: interface {} is not map[string]interface {}"

/-- A registered namespace, with the one above it if it names one. -/
inductive Namespace where
  | mk (obj : NamespaceObj) (ParentNamespace : Option Namespace)

/-- The namespace, without its parent. -/
def Namespace.obj : Namespace → NamespaceObj
  | mk obj _ => obj

/-- `GetFullPrefix`: the prefixes of the namespaces around it come first. -/
def Namespace.getFullPrefix : Namespace → String
  | mk obj none => "/" ++ obj.Prefix
  | mk obj (some parent) => parent.getFullPrefix ++ "/" ++ obj.Prefix

/-- The pointer from a schema to its parent. -/
inductive Link (α : Type) where
  | none
  | itself
  | to (parent : α)

/-- A schema in the manager. -/
structure Registered where
  obj : SchemaObj
  ParentSchema : Link Registered
  Namespace : Option Namespace
  URL : String
  URLWithParents : String

/-- `GetParentURL`.  A schema that is its own parent has none: the calls do not come to an end. -/
def Registered.getParentURL : Registered → Go String
  | ⟨_, .none, _, _, _⟩ => .ok ""
  | ⟨_, .itself, _, _, _⟩ => .panicf "stack overflow"
  | ⟨obj, .to parent, _, _, _⟩ => do
    let url ← parent.getParentURL
    .ok (url ++ "/" ++ parent.obj.Plural ++ "/:" ++ obj.Parent)

/-- `Extension`. -/
structure Extension where
  ID : String
  CodeType : String
  URL : String
  Code : String
  Path : Regexp

/-- What is read from a list of a file, with the place it is from.  The place stands for the
pointer: what is read twice from one place is recorded twice. -/
structure Recorded (α : Type) where
  file : String
  position : ℕ
  value : α

/-- Where it stands: the file, and the place in its list. -/
def Recorded.origin {α : Type} (r : Recorded α) : String × ℕ := (r.file, r.position)

/-- What a manager has registered, and in which order. -/
structure Manager where
  schemas : GoMap Registered := ∅
  schemaOrder : List String := []
  policies : List (Recorded Policy) := []
  Extensions : List (Recorded Extension) := []
  namespaces : GoMap Namespace := ∅

namespace Manager

/-- `Schema`. -/
def schema (m : Manager) (id : String) : Option Registered := m.schemas.lookup id

/-- A namespace that has been registered. -/
def namespaceByID (m : Manager) (name : String) : Option Namespace := m.namespaces.lookup name

/-- The parent a schema is linked to, which is looked up when the schema is in the map already. -/
def parentOf (m : Manager) (schema : SchemaObj) : Option (Link Registered) :=
  if schema.Parent = "" then some .none
  else if schema.Parent = schema.ID then some .itself
  else (m.schema schema.Parent).map .to

/-- The namespace of a schema: none where none is named, and nothing where it is not registered. -/
def namespaceOf (m : Manager) (schema : SchemaObj) : Option (Option Namespace) :=
  if schema.NamespaceID = "" then some none
  else (m.namespaceByID schema.NamespaceID).map some

/-- What the URLs of a schema begin with. -/
def baseURL (schema : SchemaObj) (namespaceObj : Option Namespace) : String :=
  let baseURL := match namespaceObj with
    | none => "/"
    | some namespaceObj => namespaceObj.getFullPrefix ++ "/"
  if schema.Prefix = "" then baseURL else baseURL ++ trimPrefix schema.Prefix "/" ++ "/"

/-- The manager with a schema put in. -/
def store (m : Manager) (r : Registered) : Manager :=
  { m with
    schemas := m.schemas.insert r.obj.ID r
    schemaOrder := m.schemaOrder ++ [r.obj.ID] }

/-- A schema with the URLs that its parent and its namespace lead to. -/
def withURLs (schema : SchemaObj) (parentSchema : Link Registered)
    (namespaceObj : Option Namespace) : Registered × Go Unit :=
  let base := baseURL schema namespaceObj
  let url := base ++ schema.Plural
  let registered : Registered := ⟨schema, parentSchema, namespaceObj, url, ""⟩
  if schema.Parent = "" then ({ registered with URLWithParents := url }, .ok ())
  else
    match registered.getParentURL with
    | .error fault => (registered, .error fault)
    | .ok parentURL =>
      let urlWithParents := base ++ trimPrefix parentURL "/" ++ "/" ++ schema.Plural
      ({ registered with URLWithParents := urlWithParents }, .ok ())

/-- A schema with its parent, its namespace and its URLs, as far as they are found. -/
def link (m : Manager) (schema : SchemaObj) : Registered × Go Unit :=
  match m.parentOf schema with
  | none => (⟨schema, .none, none, schema.URL, ""⟩,
      .errorf "Parent schema %s of %s not found" [.str schema.Parent, .str schema.ID])
  | some parentSchema =>
    match m.namespaceOf schema with
    | none => (⟨schema, parentSchema, none, schema.URL, ""⟩,
        .errorf "Namespace schema %s of %s not found" [.str schema.NamespaceID, .str schema.ID])
    | some namespaceObj => withURLs schema parentSchema namespaceObj

/-- The schema is in the map before its parent and its namespace are looked up, and stays there. -/
def registerSchema (m : Manager) (schema : SchemaObj) : Manager × Go Unit :=
  if schema.ID ∈ m.schemas then (m, .ok ())
  else (m.store (m.link schema).1, (m.link schema).2)

/-- `registerNamespace`. -/
def registerNamespace (m : Manager) (obj : NamespaceObj) : Manager × Go Unit :=
  if obj.Parent = "" then ({ m with namespaces := m.namespaces.insert obj.ID ⟨obj, none⟩ }, .ok ())
  else
    match m.namespaceByID obj.Parent with
    | none => (m, .errorf "Parent namespace %s of %s not found" [.str obj.Parent, .str obj.ID])
    | some parentNamespace =>
      ({ m with namespaces := m.namespaces.insert obj.ID ⟨obj, some parentNamespace⟩ }, .ok ())

end Manager

/-! ## The loader -/

/-- What the loader does to the manager. -/
inductive Act where
  | namespaceObj (obj : NamespaceObj)
  | schema (obj : SchemaObj)
  | policy (policy : Recorded Policy)
  | extension (extension : Recorded Extension)
  /-- The order of the schemas of a file is computed. -/
  | sorting (schemas : List SchemaObj)
  /-- The call for a file returns nil. -/
  | returned (filePath : String)

/-- What an act makes of the manager. -/
def Manager.step (m : Manager) : Act → Manager
  | .namespaceObj obj => (m.registerNamespace obj).1
  | .schema obj => (m.registerSchema obj).1
  | .policy policy => { m with policies := m.policies ++ [policy] }
  | .extension extension => { m with Extensions := m.Extensions ++ [extension] }
  | .sorting _ => m
  | .returned _ => m

/-- A program of the loader. -/
abbrev Load (α : Type) : Type := Machine.Prog Manager.step Fault α

open Machine (Prog)
open Machine.Prog (lift act forEach mapEach attempt)

/-- `registerSchema`, in a load. -/
def registerSchema (schema : SchemaObj) : Load Unit :=
  act (.schema schema) fun m ↦ (m.registerSchema schema).2

/-- `registerNamespace`, in a load. -/
def registerNamespace (obj : NamespaceObj) : Load Unit :=
  act (.namespaceObj obj) fun m ↦ (m.registerNamespace obj).2

/-- A call whose error is not looked at; a panic is not held up by that. -/
def ignoringError (x : Load Unit) : Load Unit := do
  match ← attempt x with
  | .error (.panic format args) => lift (Go.panicf format args)
  | _ => pure ()

/-- `LoadMap`. -/
def loadMap (filePath : String) : Go Dict := do
  match ← Files.loadFile filePath with
  | .map d => .ok (GoMap.ofList d)
  | _ => .errorf "data isn't map"

/-- The loop over the schemas of a file, which loads the files it includes. -/
def loadEntries (loadSchemaFromFile : String → Load Unit) : List Value → Load (List SchemaObj)
  | [] => pure []
  | schemaData :: list =>
    match schemaData.string? with
    | some fileName => do
      loadSchemaFromFile fileName
      loadEntries loadSchemaFromFile list
    | none => do
      let m ← Prog.get
      let schemaObj ← lift (newSchemaFromObj ((m.schema "schema").map (·.obj)) schemaData)
      let schemaObjList ← loadEntries loadSchemaFromFile list
      pure (schemaObj :: schemaObjList)

/-- The loop over the bases of a schema.  `Extend` can only fail at the indexes, which are not
changed by it and have been read before. -/
def extendByBases : List String → SchemaObj → Load SchemaObj
  | [], schemaObj => pure schemaObj
  | baseSchemaID :: bases, schemaObj => do
    let m ← Prog.get
    match m.schema baseSchemaID with
    | none => lift (Go.errorf "Base Schema %s not found" [.str baseSchemaID])
    | some baseSchema =>
      if !baseSchema.obj.isAbstract then
        lift (Go.errorf "Base Schema %s isn't abstract type" [.str baseSchemaID])
      else do
        let schemaObj ← lift (schemaObj.extend baseSchema.obj)
        extendByBases bases schemaObj

/-- An abstract schema is registered, and any other one extended. -/
def prepareSchema (schemaObj : SchemaObj) : Load SchemaObj :=
  if schemaObj.isAbstract then do
    ignoringError (registerSchema schemaObj)
    pure schemaObj
  else extendByBases schemaObj.Extends schemaObj

/-- `schemaMap[id]`: a later schema with the identifier replaces an earlier one. -/
def schemaMap (schemaObjList : List SchemaObj) (id : String) : Option SchemaObj :=
  schemaObjList.reverse.find? (·.ID == id)

/-- The body of the loop over the order. -/
def registerByID (schemaObjList : List SchemaObj) (id : String) : Load Unit :=
  match schemaMap schemaObjList id with
  | none => lift (Go.panicf "invalid memory address or nil pointer dereference")
  | some schemaObj => if schemaObj.isAbstract then pure () else registerSchema schemaObj

/-- The schemas that are not abstract are registered in order.  When there is no order, the order
is nil. -/
def registerInOrder (schemaObjList : List SchemaObj) : Load Unit := do
  act (.sorting schemaObjList) fun _ ↦ .ok ()
  match reorderSchemas schemaObjList with
  | .error _ => pure ()
  | .ok schemaOrder => forEach (registerByID schemaObjList) schemaOrder

/-- The body of the loop over the namespaces of a file. -/
def loadNamespace (namespaceData : Value) : Load Unit := do
  let obj ← lift (newNamespace namespaceData)
  registerNamespace obj

/-- The body of the loop over the policies of a file. -/
def loadPolicy (filePath : String) (policyData : Value × ℕ) : Load Unit := do
  let policy ← lift (newPolicy policyData.1)
  act (.policy ⟨filePath, policyData.2, policy⟩) fun _ ↦ .ok ()

/-- The URL of an extension, relative to the working directory. -/
def extensionURL (typeData : Dict) : Go String :=
  match typeData.get "url" with
  | .str url => do
    let wd ← Files.getwd
    Files.fixRelativeURL url wd
  | _ => .ok ""

omit [Files] in
/-- The path of an extension, compiled. -/
def extensionPath (path : String) : Go Regexp :=
  match Regexp.compile path with
  | .ok regexp => .ok regexp
  | .error (.error format args) => .errorf "failed to parse regexp: %s" (.str format :: args)
  | .error fault => .error fault

omit [Files] in
/-- Is there code to load?  That of a `goext` extension is not a text. -/
def shouldLoadCode (codeType url : String) : Bool := url != "" && codeType != "goext"

/-- The code that is appended to that of the extension itself. -/
def remoteCode (codeType url : String) : Go String :=
  if shouldLoadCode codeType url then
    match Files.getContent url with
    | .ok remoteCode => .ok remoteCode
    | .error (.error format args) => .errorf "failed to load remote code: %s" (.str format :: args)
    | .error fault => .error fault
  else .ok ""

/-- `NewExtension`. -/
def newExtension (typeData : Dict) : Go Extension := do
  let rawCodeType := (typeData.get "code_type").maybeString
  let CodeType := if rawCodeType = "" then "javascript" else rawCodeType
  let URL ← extensionURL typeData
  let Path ← extensionPath (typeData.get "path").maybeString
  let remoteCode ← remoteCode CodeType URL
  .ok { ID := (typeData.get "id").maybeString, CodeType, URL
        Code := (typeData.get "code").maybeString ++ remoteCode, Path }

/-- The URL of an extension is relative to the file it is listed in. -/
def newExtensionOf (filePath : String) : Value → Go Extension
  | .map entries => do
    let d : Dict := GoMap.ofList entries
    match d.get "url" with
    | .str rawurl => do
      let url ← Files.fixRelativeURL rawurl (Files.dir filePath)
      newExtension (d.insert "url" (.str url))
    | _ => newExtension d
  | _ => .panicf "interface conversion: interface {} is not map[string]interface {}"

/-- The body of the loop over the extensions of a file. -/
def loadExtension (filePath : String) (extensionData : Value × ℕ) : Load Unit := do
  let extension ← lift (newExtensionOf filePath extensionData.1)
  act (.extension ⟨filePath, extensionData.2, extension⟩) fun _ ↦ .ok ()

/-- `loadSchemaFromFile`, with a bound on how deep files include each other. -/
def loadSchemaFromFile : ℕ → String → Load Unit
  | 0, _ => lift (Go.panicf "stack overflow")
  | depth + 1, filePath =>
    if filePath = "" then pure ()
    else do
      let data ← lift (loadMap filePath)
      forEach loadNamespace (listUnder data "namespaces")
      let schemaObjList ← loadEntries (loadSchemaFromFile depth) (listUnder data "schemas")
      let schemaObjList ← mapEach prepareSchema schemaObjList
      registerInOrder schemaObjList
      forEach (loadPolicy filePath) (listUnder data "policies").zipIdx
      forEach (loadExtension filePath) (listUnder data "extensions").zipIdx
      act (.returned filePath) fun _ ↦ .ok ()

/-! ## A call that returns nil -/

/-- The parts of a call for a file, one after the other, with the actions that each takes. -/
structure FileRun (depth : ℕ) (filePath : String) (m : Manager) (data : Dict)
    (read prepared : List SchemaObj) (as₁ as₂ as₃ as₄ as₅ as₆ : List Act) : Prop where
  loadMap : loadMap filePath = .ok data
  namespaces : forEach loadNamespace (listUnder data "namespaces") m = (.ok (), as₁)
  entries : loadEntries (loadSchemaFromFile depth) (listUnder data "schemas")
    (Machine.final Manager.step m as₁) = (.ok read, as₂)
  prepare : mapEach prepareSchema read (Machine.final Manager.step m (as₁ ++ as₂)) =
    (.ok prepared, as₃)
  register : registerInOrder prepared (Machine.final Manager.step m (as₁ ++ as₂ ++ as₃)) =
    (.ok (), as₄)
  policies : forEach (loadPolicy filePath) (listUnder data "policies").zipIdx
    (Machine.final Manager.step m (as₁ ++ as₂ ++ as₃ ++ as₄)) = (.ok (), as₅)
  extensions : forEach (loadExtension filePath) (listUnder data "extensions").zipIdx
    (Machine.final Manager.step m (as₁ ++ as₂ ++ as₃ ++ as₄ ++ as₅)) = (.ok (), as₆)

theorem loadSchemaFromFile_eq_ok {depth : ℕ} {filePath : String} {m : Manager} {acts : List Act}
    (hne : filePath ≠ "") (h : loadSchemaFromFile depth filePath m = (.ok (), acts)) :
    ∃ (depth' : ℕ) (data : Dict) (read prepared : List SchemaObj)
      (as₁ as₂ as₃ as₄ as₅ as₆ : List Act), depth = depth' + 1 ∧
        FileRun depth' filePath m data read prepared as₁ as₂ as₃ as₄ as₅ as₆ ∧
        acts = as₁ ++ as₂ ++ as₃ ++ as₄ ++ as₅ ++ as₆ ++ [.returned filePath] := by
  cases depth with
  | zero => exact absurd (Prod.ext_iff.mp h).1 (Go.panicf_ne_ok _ _ _)
  | succ depth =>
    rw [loadSchemaFromFile, if_neg hne] at h
    obtain ⟨data, hdata, h⟩ := Prog.lift_bind_eq_ok.mp h
    obtain ⟨_, as₁, bs₁, h₁, k₁, heq₁⟩ := Prog.bind_eq_ok.mp h
    obtain ⟨read, as₂, bs₂, h₂, k₂, heq₂⟩ := Prog.bind_eq_ok.mp k₁
    rw [← Machine.final_append] at k₂
    obtain ⟨prepared, as₃, bs₃, h₃, k₃, heq₃⟩ := Prog.bind_eq_ok.mp k₂
    rw [← Machine.final_append] at k₃
    obtain ⟨_, as₄, bs₄, h₄, k₄, heq₄⟩ := Prog.bind_eq_ok.mp k₃
    rw [← Machine.final_append] at k₄
    obtain ⟨_, as₅, bs₅, h₅, k₅, heq₅⟩ := Prog.bind_eq_ok.mp k₄
    rw [← Machine.final_append] at k₅
    obtain ⟨_, as₆, bs₆, h₆, k₆, heq₆⟩ := Prog.bind_eq_ok.mp k₅
    have hend : bs₆ = [.returned filePath] := (Prog.act_eq_ok.mp k₆).2
    exact ⟨depth, data, read, prepared, as₁, as₂, as₃, as₄, as₅, as₆, rfl,
      ⟨hdata, h₁, h₂, h₃, h₄, h₅, h₆⟩, by simp [heq₁, heq₂, heq₃, heq₄, heq₅, heq₆, hend]⟩

/-! ## What the actions do to the schemas -/

namespace Manager

omit [Files]

variable {m : Manager} {schema : SchemaObj} {id : String} {r : Registered}

theorem schema_eq_none_iff : m.schema id = none ↔ id ∉ m.schemas := AList.lookup_eq_none

omit [RegexpEngine] in
theorem withURLs_fst (schema : SchemaObj) (parentSchema : Link Registered)
    (namespaceObj : Option Namespace) : ∃ urlWithParents,
      (withURLs schema parentSchema namespaceObj).1 = ⟨schema, parentSchema, namespaceObj,
        baseURL schema namespaceObj ++ schema.Plural, urlWithParents⟩ := by
  simp only [withURLs]
  split
  · exact ⟨_, rfl⟩
  · split <;> exact ⟨_, rfl⟩

/-- A schema that is registered in full has its parent and its namespace. -/
theorem link_eq_ok (h : (m.link schema).2 = .ok ()) : ∃ parentSchema namespaceObj,
    m.parentOf schema = some parentSchema ∧ m.namespaceOf schema = some namespaceObj ∧
      m.link schema = withURLs schema parentSchema namespaceObj := by
  rw [link] at h ⊢
  split at h
  · exact absurd h (Go.errorf_ne_ok _ _ _)
  · next parentSchema hparent =>
    split at h
    · exact absurd h (Go.errorf_ne_ok _ _ _)
    · next namespaceObj hnamespace =>
      exact ⟨parentSchema, namespaceObj, hparent, hnamespace, rfl⟩

theorem link_obj (m : Manager) (schema : SchemaObj) : (m.link schema).1.obj = schema := by
  rw [link]
  split
  · rfl
  · split
    · rfl
    · next namespaceObj _ =>
      obtain ⟨urlWithParents, hfst⟩ := withURLs_fst schema _ namespaceObj
      rw [hfst]

theorem schema_store (m : Manager) (r : Registered) (id : String) :
    (m.store r).schema id = if id = r.obj.ID then some r else m.schema id := by
  rw [schema, store]
  by_cases h : id = r.obj.ID
  · rw [if_pos h, h, AList.lookup_insert]
  · rw [if_neg h, AList.lookup_insert_ne h]
    rfl

/-- **What an action does to the schemas**: it leaves them as they are, or puts in one whose
identifier is new. -/
theorem schema_step (m : Manager) (a : Act) (id : String) : (m.step a).schema id = m.schema id ∨
    ∃ schema, a = .schema schema ∧ m.schema schema.ID = none ∧ id = schema.ID ∧
      (m.step a).schema id = some (m.link schema).1 := by
  cases a with
  | namespaceObj obj =>
    refine .inl ?_
    rw [step, registerNamespace]
    split
    · rfl
    · split <;> rfl
  | schema schema =>
    rw [step, registerSchema]
    by_cases hmem : schema.ID ∈ m.schemas
    · exact .inl (by rw [if_pos hmem])
    · rw [if_neg hmem]
      by_cases hid : id = schema.ID
      · refine .inr ⟨schema, rfl, schema_eq_none_iff.mpr hmem, hid, ?_⟩
        rw [schema_store, link_obj, if_pos hid]
      · exact .inl (by rw [schema_store, link_obj, if_neg hid])
  | policy policy => exact .inl rfl
  | extension extension => exact .inl rfl
  | sorting schemas => exact .inl rfl
  | returned filePath => exact .inl rfl

theorem schema_final_of_forall {as : List Act} (h : ∀ a ∈ as, ∀ schema, a ≠ .schema schema)
    (id : String) : (Machine.final step m as).schema id = m.schema id := by
  induction as generalizing m with
  | nil => rfl
  | cons a as ih =>
    have hfirst : (m.step a).schema id = m.schema id :=
      (schema_step m a id).resolve_right fun ⟨schema, ha, _⟩ ↦ h a List.mem_cons_self schema ha
    rw [← hfirst]
    exact ih fun b hb ↦ h b (List.mem_cons_of_mem _ hb)

/-- **A registered schema is never replaced.** -/
theorem schema_final (h : m.schema id = some r) (as : List Act) :
    (Machine.final step m as).schema id = some r := by
  induction as generalizing m with
  | nil => exact h
  | cons a as ih =>
    refine ih (m := m.step a) ?_
    rcases schema_step m a id with heq | ⟨schema, _, hnone, rfl, _⟩
    · rwa [heq]
    · rw [h] at hnone
      cases hnone

/-- A schema is registered with an action that succeeds, or was there before. -/
theorem schema_registerSchema (hok : (m.registerSchema schema).2 = .ok ()) :
    (∃ r, (m.registerSchema schema).1.schema schema.ID = some r) ∧
      (m.schema schema.ID = none → (m.link schema).2 = .ok ()) := by
  rw [registerSchema] at hok ⊢
  by_cases hmem : schema.ID ∈ m.schemas
  · rw [if_pos hmem]
    have hsome := AList.lookup_isSome.mpr hmem
    exact ⟨Option.isSome_iff_exists.mp hsome, fun hnone ↦
      absurd hmem (schema_eq_none_iff.mp hnone)⟩
  · rw [if_neg hmem] at hok ⊢
    refine ⟨⟨(m.link schema).1, ?_⟩, fun _ ↦ hok⟩
    rw [schema_store, link_obj, if_pos rfl]

end Manager

/-! ## Files for examples -/

/-- Files with the given contents, and nothing else around them. -/
abbrev ofContents (contents : List (String × Value)) : Files where
  loadFile filePath :=
    match contents.lookup filePath with
    | some data => .ok data
    | none => .errorf "open %s: no such file or directory" [.str filePath]
  getContent url := .errorf "unsupported protocol in %s" [.str url]
  getwd := .ok "/"
  dir _ := "/"
  fixRelativeURL rawurl _ := .ok rawurl
  validate _ _ := .ok ()
  sortProperties _ properties := properties
  sortProperties_perm _ properties := List.Perm.refl properties

/-- The definition of a schema of a few words. -/
def definition (id : String) (more : List (String × Value)) (properties : List (String × Value)) :
    Value :=
  .map ([("id", .str id), ("plural", .str (id ++ "s")), ("title", .str id),
    ("description", .str id), ("singular", .str id),
    ("schema", .map [("type", .str "object"), ("properties", .map properties)])] ++ more)

/-- A schema with nothing but an identifier, bases and a JSON schema. -/
def bareSchema (id : String) (bases : List String := []) (jsonSchema : Dict := ∅) : SchemaObj :=
  ⟨id, id ++ "s", id, "", id, "", "", "", "", "", ∅, jsonSchema, ∅, bases, [], ∅, [], []⟩

/-- A property that refers to a schema, as it stands in a definition. -/
def relationTo (id : String) : String × Value :=
  (id ++ "_id", .map [("type", .str "string"), ("relation", .str id)])

end Loading

end Gohan
