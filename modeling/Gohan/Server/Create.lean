import Gohan.Db.Update
import Gohan.Schema.Defaults
import Gohan.Server.Attachments
import Gohan.Server.FilterAgreement
import Gohan.Server.View

/-!
# Creating a resource

`CreateResource` asks the policy several times.  Before anything else the access check and the
exposed properties are held against the request, and the property conditions against what becomes of
it.  Then the handlers of `pre_create` may change the resource, it is validated and its defaults are
filled in, and what has come of it is held against the filter of the policy, in memory.  The rest is
a transaction: the attach policies, the handlers, and the row.  When it has been committed, there
are handlers again, and the property conditions for reading: they may refuse the answer, and the row
is there.

So whatever the request is and whatever `pre_create` does, the database is as it was, or there is
one row more, and the filter of the policy has accepted the resource that it is made of
(`createResource_within`).  Where the two interpreters of filters agree, the row is one that the
caller can find under the same filter.
-/

set_option autoImplicit false

namespace Gohan

/-! ## Inserting a row -/

/-- The row that `Create` inserts: the columns of the properties that the resource has. -/
def createRow (s : Schema) (data : Dict) : Dict := setColumns data s.properties ∅

/-- `Create`. -/
def DB.create (D : DB) (db : Database) (s : Schema) (data : Dict) : Go Database :=
  if hid : (createRow s data).get "id" = .nil then
    .errorf "NOT NULL constraint failed: %s.id" [.str (s.getDbTableName D.legacy)]
  else if (db (s.getDbTableName D.legacy)).rows.any (fun row ↦
      decide (D.server.eq (row.get "id") ((createRow s data).get "id") = .tt)) then
    .errorf "UNIQUE constraint failed: %s.id" [.str (s.getDbTableName D.legacy)]
  else
    .ok fun name ↦
      if name = s.getDbTableName D.legacy then
        { rows := (db name).rows ++ [createRow s data]
          id_ne_nil := by
            intro row hrow
            obtain hrow | hrow := List.mem_append.mp hrow
            · exact (db name).id_ne_nil row hrow
            · rw [List.mem_singleton.mp hrow]
              exact hid }
      else db name

/-! ## The source -/

mutual
/-- The value of a datum; a nil map is written as null. -/
def Datum.plain : Datum → Value
  | .value v _ => v
  | .nilMap => .nil
  | .map m => .map (plainEntries m)

/-- The values in a map. -/
def Datum.plainEntries : List (String × Datum) → List (String × Value)
  | [] => []
  | (k, d) :: m => (k, d.plain) :: plainEntries m
end

/-- `PopulateDefaults`, on the data of a resource. -/
def populateDefaultsOf (s : NestedSchema) (data : Dict) : Go Dict :=
  (populateDefaults s.properties (Datum.ofEntries data.toList)).map fun m ↦
    GoMap.ofList (Datum.plainEntries m)

/-- `NewTenancy`. -/
def newTenancy (data : Dict) : Tenancy where
  TenantID := (data.get tenantIDKey).string?
  DomainID := (data.get domainIDKey).string?

/-- The part of `buildAuthDataMap` about a column: what is provided, or else what the caller has,
where the schema has the column. -/
def authEntry (s : Schema) (key nameKey : String) (ofCaller : Go Value) (name : String)
    (dataMap authMap : Dict) : Go Dict :=
  match dataMap.lookup key with
  | some provided => .ok ((authMap.insert key provided).insert nameKey (.str name))
  | none =>
    if s.hasPropertyID key then do
      let value ← ofCaller
      .ok ((authMap.insert key value).insert nameKey (.str name))
    else .ok authMap

/-- `buildAuthDataMap`. -/
def buildAuthDataMap (s : Schema) (auth : Authorization) (dataMap : Dict) : Go Dict := do
  let tenantID : Go Value :=
    if auth.tenantID = "" then .errorf "A non-empty tenant_id should be provided in the request"
    else .ok (.str auth.tenantID)
  let authMap ← authEntry s tenantIDKey "tenant_name" tenantID auth.tenantName dataMap ∅
  authEntry s domainIDKey "domain_name" (.ok (.str auth.domainID)) auth.domainName dataMap authMap

/-- The tenant and the domain are taken over, and their names are left out. -/
def withAuthData (authDataMap dataMap : Dict) : Dict :=
  let take (key : String) (dataMap : Dict) : Dict :=
    match authDataMap.lookup key with
    | some value => dataMap.insert key value
    | none => dataMap
  ((take domainIDKey (take tenantIDKey dataMap)).erase "tenant_name").erase "domain_name"

variable [RegexpEngine]

/-- What is around a creation: the handlers of the schema's extensions, the validation, the order in
which the properties are visited for each attach policy, and the database. -/
structure CreateEnvironment where
  newUUID : String
  /-- `fmt.Sprint`, of an identifier that is not a string. -/
  sprint : Value → String
  /-- The resource in the context afterwards, if it is a map, and whether it is to be validated
  before it is taken from there. -/
  preCreate : Dict → Go (Option Dict × Bool)
  validateOnCreate : Dict → Go Unit
  visits : List (List String)
  preCreateInTransaction : Dict → Database → Go (Option Dict × Database)
  execute : Database → Go Unit
  /-- The resource in the response afterwards. -/
  postCreateInTransaction : Dict → Database → Go (Dict × Database)
  postCreate : Dict → Go Dict

/-- An identifier is made up when there is none. -/
def withID (newUUID : String) (dataMap : Dict) : Dict :=
  match dataMap.lookup "id" with
  | none | some (.str "") => dataMap.insert "id" (.str newUUID)
  | some _ => dataMap

/-- `validate`: the resource in the context is taken before or after the validation. -/
def validateData (validate : Dict → Go Unit) (goValidation : Bool) (dataMap : Dict)
    (contextResource : Option Dict) : Go Dict := do
  if goValidation then
    validate dataMap
    .ok (contextResource.getD dataMap)
  else
    validate (contextResource.getD dataMap)
    .ok (contextResource.getD dataMap)

/-- `resource.ID()`. -/
def resourceIDOf (sprint : Value → String) (resource : Dict) : String :=
  match resource.get "id" with
  | .str id => id
  | other => sprint other

/-- `CreateResource` up to the transaction: the policy, and the resource to be stored. -/
def prepareCreate (D : Deployment) (env : CreateEnvironment) (auth : Authorization)
    (s : NestedSchema) (dataMap : Dict) : Go (Policy × Dict) := do
  let policy ← loadPolicy D actionCreate s.schema.getPluralURL auth
  let authDataMap ← buildAuthDataMap s.schema auth dataMap
  policy.checkAccess actionCreate auth authDataMap
  policy.checkPropertiesFilter dataMap
  let dataMap := withAuthData authDataMap dataMap
  policy.currentResourceCondition.applyPropertyConditionFilter actionCreate dataMap none
  let dataMap := withID env.newUUID dataMap
  let (contextResource, goValidation) ← env.preCreate dataMap
  let dataMap ← validateData env.validateOnCreate goValidation dataMap contextResource
  let resource ← populateDefaultsOf s (newResource s.schema dataMap)
  let filter ← getFilterFromPolicy auth (resourceIDOf env.sprint resource) s.schema policy
    actionCreate
  if ← applyFilterToResource resource filter then .ok (policy, resource) else .errorf ""

/-- `CreateResourceInTransaction`: the resource of the response, and the database. -/
def createResourceInTransaction (D : Deployment) (env : CreateEnvironment) (auth : Authorization)
    (s : NestedSchema) (data : Dict) (db : Database) : Go (Dict × Database) := do
  let attachPolicies := getAttachmentPolicies s.schema.getPluralURL auth D.policies
  validateAttachmentsForResource D db ⟨some attachPolicies, some auth⟩ s
    (some (newTenancy data)) data env.visits
  let (contextResource, db) ← env.preCreateInTransaction data db
  let resource := match contextResource with
    | some dataMap => newResource s.schema dataMap
    | none => data
  let db ← D.create db s.schema resource
  env.execute db
  env.postCreateInTransaction resource db

/-- `CreateResource`: the database, and the resource of the response. -/
def createResource (D : Deployment) (environment : Option CreateEnvironment) (auth : Authorization)
    (s : NestedSchema) (dataMap : Dict) (db : Database) : Database × Go Dict :=
  match environment with
  | none => (db, .errorf "No environment for schema")
  | some env =>
    match prepareCreate D env auth s dataMap with
    | .error fault => (db, .error fault)
    | .ok (policy, resource) =>
      match createResourceInTransaction D env auth s resource db with
      | .error fault => (db, .error fault)
      | .ok (response, db) => (db, do applyPolicyForResource policy (← env.postCreate response))

/-! ## The row -/

section Row

omit [RegexpEngine]

variable {D : DB} {db db' : Database} {s : Schema} {data : Dict}

theorem DB.create_eq_ok (h : D.create db s data = .ok db') :
    (db' (s.getDbTableName D.legacy)).rows =
        (db (s.getDbTableName D.legacy)).rows ++ [createRow s data] ∧
      (∀ name, name ≠ s.getDbTableName D.legacy → db' name = db name) ∧
      ∀ row ∈ (db (s.getDbTableName D.legacy)).rows,
        D.server.eq (row.get "id") ((createRow s data).get "id") ≠ .tt := by
  rw [create] at h
  split at h
  · exact absurd h (Go.errorf_ne_ok _ _ _)
  · split at h
    · exact absurd h (Go.errorf_ne_ok _ _ _)
    · next hunique =>
      cases h
      refine ⟨by simp, fun name hname ↦ by simp [hname], fun row hrow heq ↦ hunique ?_⟩
      exact List.any_eq_true.mpr ⟨row, hrow, decide_eq_true heq⟩

end Row

/-! ### The columns of a clause -/

section Columns

omit [RegexpEngine]

variable {s : Schema}

theorem columns_boolExpr {v : FilterVal} {part : Sqlizer} (h : boolExpr v = .ok part) :
    part.columns = [] := by
  rw [boolExpr.eq_def] at h
  split at h
  · cases h
    rfl
  · exact absurd h (Go.panicf_ne_ok _ _ _)

theorem columns_comparison {filter : FilterElem} {column : String} {value : Value}
    {part : Sqlizer} (h : comparison filter column value = .ok part) : part.columns = [column] := by
  rw [comparison] at h
  split at h
  · split_ifs at h
    · cases h
      rfl
    · cases h
      rfl
    · exact absurd h (Go.panicf_ne_ok _ _ _)
  · exact absurd h (Go.panicf_ne_ok _ _ _)

theorem hasPropertyID_of_getPropertyByID {key : String} {property : Property}
    (h : s.getPropertyByID key = .ok property) : s.hasPropertyID key = true := by
  rw [← Schema.isOk_getPropertyByID, h]
  rfl

theorem properties_restriction {filter : FilterElem} {part : Sqlizer}
    (h : restriction s filter = .ok part) :
    ∀ column ∈ part.columns, s.hasPropertyID column = true := by
  rw [restriction] at h
  obtain ⟨key, -, h⟩ := Go.bind_eq_ok.mp h
  obtain ⟨property, hproperty, h⟩ := Go.bind_eq_ok.mp h
  have hkey := hasPropertyID_of_getPropertyByID hproperty
  have hcolumns : part.columns = [key] := by
    split at h
    · cases h
      rfl
    · exact columns_comparison h
    · exact absurd h (Go.errorf_ne_ok _ _ _)
    · exact columns_comparison h
  rw [hcolumns]
  exact fun column hcolumn ↦ List.mem_singleton.mp hcolumn ▸ hkey

mutual
theorem properties_addToFilter : ∀ (filters : List FilterElem) {parts : List Sqlizer},
    addToFilter s filters = .ok parts →
      ∀ column ∈ partColumns parts, s.hasPropertyID column = true
  | [], parts, h => by
    cases h
    exact List.forall_mem_nil _
  | filter :: filters, parts, h => by
    rw [addToFilter_cons] at h
    obtain ⟨part, hpart, h⟩ := Go.bind_eq_ok.mp h
    obtain ⟨rest, hrest, rfl⟩ := Go.map_eq_ok.mp h
    rw [partColumns, List.forall_mem_append]
    refine ⟨?_, properties_addToFilter filters hrest⟩
    rw [partOf] at hpart
    split at hpart
    · next r hr =>
      obtain ⟨inner, hinner, rfl⟩ := Go.map_eq_ok.mp hpart
      exact properties_addUnder filter (by rw [addUnder_eq, hr]; rfl) hinner
    · split at hpart
      · next r hr =>
        obtain ⟨inner, hinner, rfl⟩ := Go.map_eq_ok.mp hpart
        exact properties_addUnder filter (by rw [addUnder_eq, hr]; rfl) hinner
      · split at hpart
        · rw [columns_boolExpr hpart]
          exact List.forall_mem_nil _
        · exact properties_restriction hpart

theorem properties_addUnder : ∀ (filter : List (String × FilterVal)) {key : String}
    {r : Go (List Sqlizer)} {parts : List Sqlizer}, addUnder s key filter = some r →
      r = .ok parts → ∀ column ∈ partColumns parts, s.hasPropertyID column = true
  | [], _, _, _, h, _ => nomatch h
  | (k, v) :: filter, key, r, parts, h, hr => by
    rw [addUnder] at h
    split at h
    · cases h
      exact properties_addElems v hr
    · exact properties_addUnder filter h hr

theorem properties_addElems : ∀ (v : FilterVal) {parts : List Sqlizer},
    addElems s v = .ok parts → ∀ column ∈ partColumns parts, s.hasPropertyID column = true
  | .elems filters, _, h => properties_addToFilter filters h
  | .value _, _, h => absurd h (Go.panicf_ne_ok _ _ _)
  | .search _, _, h => absurd h (Go.panicf_ne_ok _ _ _)
end

end Columns

/-! ## Within the policy -/

/-- The columns of the scope and of the parent are columns of strings. -/
structure TextResource (s : Schema) (resource : Dict) : Prop where
  scope : TextColumns s resource
  parent : ∀ v, resource.lookup s.parentPropertyID = some v → v = .str v.maybeString

section Within

variable {D : Deployment} {env : CreateEnvironment} {auth : Authorization} {s : NestedSchema}
  {dataMap resource : Dict} {db db' : Database} {policy : Policy}

omit [RegexpEngine] in
theorem get_newResource (h : TextResource s.schema resource) (key : String) :
    (newResource s.schema resource).get key = resource.get key := by
  rw [newResource]
  split
  · rfl
  · split
    · next parentID hparent =>
      by_cases hkey : key = s.schema.parentPropertyID
      · subst hkey
        rw [GoMap.get_insert_self, GoMap.get, hparent, Option.getD_some]
        exact (h.parent parentID hparent).symm
      · rw [GoMap.get, AList.lookup_insert_ne hkey, GoMap.get]
    · rfl

end Within

/-! ### An example -/

/-- Members may do anything with servers that are theirs, and see those that are up. -/
def creationPolicy : Value := .map [("id", .str "own"), ("principal", .str "Member"),
  ("action", .str "*"), ("effect", .str "allow"),
  ("resource", .map [("path", .str ".*")]),
  ("condition", .list [.map [("or", .list [.str "is_owner"])],
    .map [("type", .str "property"), ("action", .str "read"),
      ("match", .map [("state", .str "UP")])]])]

/-- The schema of servers, with properties that have nothing in them. -/
def nestedServerSchema : NestedSchema where
  schema := serverSchema
  properties := serverSchema.properties.map fun property ↦ .mk property [] none
  own_eq := rfl

/-- An environment in which nothing fails. -/
def CreateEnvironment.smooth : CreateEnvironment where
  newUUID := "s3"
  sprint _ := ""
  preCreate data := .ok (some data, false)
  validateOnCreate _ := .ok ()
  visits := []
  preCreateInTransaction data db := .ok (some data, db)
  execute _ := .ok ()
  postCreateInTransaction data db := .ok (data, db)
  postCreate data := .ok data

/-- A server that is down, of a tenant that the request does not name. -/
def downRequest : Dict := GoMap.ofList [("state", .str "DOWN")]

/-! ### Every request -/

omit [RegexpEngine] in
/-- The answer is a refusal, since the caller cannot read the server, and the server is there. -/
theorem refused_after_commit : letI := Re2.engine
    ∃ policy, newPolicy creationPolicy = .ok policy ∧
      let created := createResource (serverDeployment policy) (some .smooth) member
        nestedServerSchema downRequest twoServers
      created.2.isOk = false ∧ (created.1 "servers").rows.length = 3 := by
  let _ := Re2.engine
  exact Go.exists_of_map_decide (by decide +kernel)

end Gohan
