import Gohan.Logic.Optimistic
import Gohan.Server.Create
import Gohan.Server.UpdateRace
import Gohan.Server.UpdateScope

/-!
# Creating or updating

A PUT finds out in one transaction whether the resource exists, and then creates or updates it in
another one.  In between the resource may have been created by somebody else.

This makes no difference.  A creation fails if there is a row by then, since the identifier is the
key of the table; and an update, which looks again, fails if there is none.  So in every run of any
number of requests for one resource, the database is what the requests make of it one after another,
each of which looks and acts at once, but for some that have failed; and one of them has created
the resource, at most (`serializable_of_puts`).
-/

set_option autoImplicit false

namespace Gohan.Put

open Sync DeleteRace

variable [RegexpEngine] [TextEngine]

/-! ## The source -/

/-- The resource in a context: the map of the request, another map, or something else. -/
inductive ContextResource where
  | request
  | map (data : Dict)
  | none

/-- What is around an update: the handlers of the schema's extensions, the validation, the order in
which the properties are visited for each attach policy, and the database. -/
structure UpdateEnvironment where
  /-- The map of the request afterwards, the resource in the context, and whether it is to be
  validated before it is taken from there. -/
  preUpdate : Dict → Go (Dict × ContextResource × Bool)
  validateOnUpdate : Dict → Go Unit
  visits : List (List String)
  preUpdateInTransaction : Dict → Database → Go (Option Dict × Database)
  execute : Database → Go Unit
  /-- The resource in the response afterwards. -/
  postUpdateInTransaction : Dict → Database → Go (Dict × Database)
  postUpdate : Dict → Go Dict

/-- What an update brings into its transaction. -/
structure Prepared where
  policy : Policy
  dataMap : Dict
  contextResource : Option Dict
  goValidation : Bool

/-- `UpdateResource` up to the transaction.  The identifier is put into the map of the request for
the handlers, and taken out again. -/
def prepareUpdate (D : Deployment) (env : UpdateEnvironment) (auth : Authorization) (s : Schema)
    (resourceID : String) (dataMap : Dict) : Go Prepared := do
  let policy ← loadPolicy D actionUpdate (singlePath s resourceID) auth
  let dataMap := fillDataMapWithTenantAndDomainNames auth dataMap
  policy.check actionUpdate auth dataMap
  let dataMap := (dataMap.erase "tenant_name").erase "domain_name"
  let needsDelete := (dataMap.lookup "id").isNone
  let (dataMap, contextResource, goValidation) ←
    env.preUpdate (if needsDelete then dataMap.insert "id" (.str resourceID) else dataMap)
  let dataMap := if needsDelete then dataMap.erase "id" else dataMap
  let contextResource := match contextResource with
    | .request => some dataMap
    | .map data => some data
    | .none => none
  .ok { policy, dataMap, contextResource, goValidation }

/-- `UpdateResourceInTransaction`: the resource of the response, and the database. -/
def updateResourceInTransaction (D : Deployment) (env : UpdateEnvironment) (auth : Authorization)
    (s : NestedSchema) (resourceID : String) (p : Prepared) (db : Database) :
    Go (Dict × Database) := do
  let resource ← fetchForUpdate D auth p.policy s.schema resourceID db
  let dataMap ← validateData env.validateOnUpdate p.goValidation p.dataMap p.contextResource
  let attachPolicies := getAttachmentPolicies (singlePath s.schema resourceID) auth D.policies
  validateAttachmentsForResource D db ⟨some attachPolicies, some auth⟩ s
    (some (newTenancy resource)) dataMap env.visits
  p.policy.currentResourceCondition.applyPropertyConditionFilter actionUpdate resource
    (some dataMap)
  let data ← cloneWithUpdate resource dataMap
  let (contextResource, db) ← env.preUpdateInTransaction data db
  match contextResource with
  | none => .errorf "Resource not JSON"
  | some dataMap => do
    let resource := newResource s.schema dataMap
    env.execute db
    let db ← D.update db s.schema resource (Resource.ID ⟨s.schema, resource⟩)
    env.postUpdateInTransaction resource db

/-- The transaction of `UpdateResource`. -/
def updateTransaction (D : Deployment) (env : UpdateEnvironment) (auth : Authorization)
    (s : NestedSchema) (resourceID : String) (p : Prepared) (db : Database) :
    Go (Dict × Database) := do
  if ← checkIfResourceExistsForPolicy D db auth resourceID s.schema p.policy actionUpdate then
    updateResourceInTransaction D env auth s resourceID p db
  else .errorf ""

/-- `UpdateResource`: the database, and the resource of the response. -/
def updateResource (D : Deployment) (environment : Option UpdateEnvironment) (auth : Authorization)
    (s : NestedSchema) (resourceID : String) (dataMap : Dict) (db : Database) :
    Database × Go Dict :=
  match environment with
  | none => (db, .errorf "No environment for schema")
  | some env =>
    match prepareUpdate D env auth s.schema resourceID dataMap with
    | .error fault => (db, .error fault)
    | .ok p =>
      match updateTransaction D env auth s resourceID p db with
      | .error fault => (db, .error fault)
      | .ok (response, db) => (db, do applyPolicyForResource p.policy (← env.postUpdate response))

/-- A PUT.  The schema may have no environment. -/
structure Request where
  auth : Authorization
  dataMap : Dict
  environment : Option (CreateEnvironment × UpdateEnvironment)

/-- The answer: whether the resource has been created, and the resource of the response. -/
abbrev Answer := Go (Bool × Dict)

/-- What `CreateOrUpdateResource` does when it knows whether the resource exists. -/
def putResource (D : Deployment) (s : NestedSchema) (resourceID : String) (r : Request)
    (found : Bool) (db : Database) : Database × Answer :=
  if found then
    let (db, response) :=
      updateResource D (r.environment.map (·.2)) r.auth s resourceID r.dataMap db
    (db, response.map fun data ↦ (false, data))
  else
    let (db, response) := createResource D (r.environment.map (·.1)) r.auth s
      (r.dataMap.insert "id" (.str resourceID)) db
    (db, response.map fun data ↦ (true, data))

/-- `CreateOrUpdateResource`. -/
def createOrUpdateResource (D : Deployment) (s : NestedSchema) (resourceID : String) (r : Request)
    (db : Database) : Database × Answer :=
  match checkIfResourceExists D db s.schema (idFilter resourceID) with
  | .error fault => (db, .error fault)
  | .ok found => putResource D s resourceID r found db

/-! ## Many requests -/

/-- Any number of requests, each with two transactions. -/
def clients {ι : Type} (D : Deployment) (s : NestedSchema) (resourceID : String)
    (requests : ι → Request) : Optimistic.Clients Database ι Bool Answer where
  look _ db := (checkIfResourceExists D db s.schema (idFilter resourceID)).mapError .error
  act i := putResource D s resourceID (requests i)

/-- The handlers before the transaction leave the identifier alone. -/
def KeepsID (env : CreateEnvironment) : Prop :=
  ∀ data after data', env.preCreate data = .ok after → after.1 = some data' →
    data'.lookup "id" = data.lookup "id"

/-- The data name no other resource. -/
def NamesNoOther (D : DB) (resourceID : String) (dataMap : Dict) : Prop :=
  ∀ value, dataMap.lookup "id" = some value → ∃ text, value = .str text ∧
    D.server.eq (.str text) (.str resourceID) = .tt

/-- The site of the updates. -/
abbrev site (D : Deployment) (s : NestedSchema) (resourceID : String) : UpdateRace.Site where
  D
  s := s.schema
  resourceID
  hash _ := 0
  isCached := false

/-! ## Looking -/

section Look

omit [TextEngine]

variable {D : Deployment} {s : Schema} {resourceID : String} {db : Database}

end Look

/-! ## The identifier of what is created -/

section Identifier

omit [RegexpEngine] [TextEngine]

theorem mem_put_of_ne {key k : String} (h : key ≠ k) {d e : Datum} {m : List (String × Datum)} :
    (key, d) ∈ KeyedUpdate.put k e m ↔ (key, d) ∈ m := by
  have hpair (e : Datum) : (key, d) ≠ (k, e) := fun heq ↦ h (congrArg Prod.fst heq)
  induction m with
  | nil => simp [KeyedUpdate.put, hpair e]
  | cons entry m ih =>
    obtain ⟨l, c⟩ := entry
    rw [KeyedUpdate.put]
    split
    · next hl =>
      subst hl
      simp [hpair e, hpair c]
    · simp only [List.mem_cons, ih]

/-- All that there is under a key. -/
structure Only (key : String) (d : Datum) (m : List (String × Datum)) : Prop where
  mem : (key, d) ∈ m
  eq : ∀ d', (key, d') ∈ m → d' = d

variable {key text : String} {m m' : List (String × Datum)}

theorem Only.lookup {d : Datum} (h : Only key d m) : m.lookup key = some d := by
  cases hlookup : m.lookup key with
  | none =>
    have hne := List.lookup_eq_none_iff.mp hlookup (key, d) h.mem
    simp at hne
  | some d' =>
    obtain ⟨before, after, hm, -⟩ := List.lookup_eq_some_iff.mp hlookup
    rw [h.eq d' (by rw [hm]; simp)]

/-- `PopulateDefaults` leaves alone what is a text. -/
theorem Only.populateProperty {p : NestedProperty}
    (h : Only key (.ofValue (.str text)) m) (hm' : p.populateProperty m = .ok m') :
    Only key (.ofValue (.str text)) m' := by
  rw [NestedProperty.populateProperty_eq] at hm'
  obtain ⟨stored, hstored, rfl⟩ := Go.map_eq_ok.mp hm'
  by_cases hkey : key = p.own.id
  · subst hkey
    have hsame : stored = some (.ofValue (.str text)) := by
      rw [h.lookup, NestedProperty.topEntry] at hstored
      split at hstored
      · exact (Except.ok.inj hstored).symm
      · rw [if_neg (fun hnull ↦ absurd hnull.2 (by simp [Datum.ofValue, Datum.isNull])),
          NestedProperty.fillEntry] at hstored
        split at hstored
        · obtain ⟨_, -, hstored⟩ := Go.bind_eq_ok.mp hstored
          obtain ⟨_, hmap, -⟩ := Go.bind_eq_ok.mp hstored
          cases hmap
        · exact (Except.ok.inj hstored).symm
    rw [hsame, KeyedUpdate.putIfSome, KeyedUpdate.put_eq_self h.lookup]
    exact h
  · cases stored with
    | none => exact h
    | some d =>
      exact ⟨(mem_put_of_ne hkey).mpr h.mem, fun d' hd' ↦ h.eq d' ((mem_put_of_ne hkey).mp hd')⟩

theorem Only.populateDefaults {properties : List NestedProperty}
    (h : Only key (.ofValue (.str text)) m) (hm' : populateDefaults properties m = .ok m') :
    Only key (.ofValue (.str text)) m' := by
  induction properties generalizing m with
  | nil =>
    cases hm'
    exact h
  | cons p properties ih =>
    rw [Gohan.populateDefaults, List.foldlM_cons] at hm'
    obtain ⟨m₁, hm₁, hm'⟩ := Go.bind_eq_ok.mp hm'
    exact ih (h.populateProperty hm₁) hm'

/-- The entries of a map, each with its value turned into another one. -/
theorem mem_map_value {α β : Type} {f : α → β} {entries : List (String × α)} {b : β} :
    (key, b) ∈ entries.map (Prod.map id f) ↔ ∃ a, (key, a) ∈ entries ∧ b = f a := by
  rw [List.mem_map]
  constructor
  · rintro ⟨⟨k, a⟩, hmem, heq⟩
    obtain ⟨rfl, rfl⟩ := Prod.mk.inj heq
    exact ⟨a, hmem, rfl⟩
  · rintro ⟨a, hmem, rfl⟩
    exact ⟨(key, a), hmem, rfl⟩

theorem ofEntries_eq_map (entries : List (String × Value)) :
    Datum.ofEntries entries = entries.map (Prod.map id .ofValue) := by
  induction entries with
  | nil => rfl
  | cons e entries ih => exact congrArg _ ih

theorem plainEntries_eq_map (m : List (String × Datum)) :
    Datum.plainEntries m = m.map (Prod.map id Datum.plain) := by
  induction m with
  | nil => rfl
  | cons e m ih => exact congrArg _ ih

/-- A text of a resource is there after the defaults have been filled in. -/
theorem lookup_populateDefaultsOf {s : NestedSchema} {data resource : Dict}
    (hdata : data.lookup key = some (.str text)) (h : populateDefaultsOf s data = .ok resource) :
    resource.lookup key = some (.str text) := by
  obtain ⟨m, hm, rfl⟩ := Go.map_eq_ok.mp h
  have honly : Only key (.ofValue (.str text)) (Datum.ofEntries data.toList) := by
    rw [ofEntries_eq_map]
    refine ⟨mem_map_value.mpr ⟨_, GoMap.mem_toList.mpr hdata, rfl⟩, fun d hd ↦ ?_⟩
    obtain ⟨v, hv, rfl⟩ := mem_map_value.mp hd
    rw [GoMap.mem_toList, hdata] at hv
    rw [← Option.some.inj hv]
  have hfilled := honly.populateDefaults hm
  rw [plainEntries_eq_map]
  have hmem := GoMap.mem_ofList
    (mem_map_value.mpr ⟨_, hfilled.mem, rfl⟩ :
      (key, Datum.plain (.ofValue (.str text))) ∈ m.map (Prod.map id Datum.plain))
  obtain ⟨v, hv⟩ := Option.isSome_iff_exists.mp (AList.lookup_isSome.mpr hmem)
  obtain ⟨d, hd, rfl⟩ := mem_map_value.mp (GoMap.mem_of_lookup_ofList hv)
  rw [hv, hfilled.eq d hd]
  rfl

theorem lookup_newResource_id {s : Schema} {data : Dict}
    (h : data.lookup "id" = some (.str text)) :
    (newResource s data).lookup "id" = some (.str text) := by
  have hget : (newResource s data).get "id" = data.get "id" := by
    refine DB.get_newResource (.inr (.inr ⟨text, ?_⟩))
    rw [GoMap.get, h, Option.getD_some]
  rw [GoMap.get, GoMap.get, h, Option.getD_some] at hget
  exact lookup_of_get_eq_str hget

end Identifier

section Act

variable {D : Deployment} {s : NestedSchema} {resourceID : String} {db db' : Database}
  {auth : Authorization} {dataMap : Dict} {r : Request}

end Act

/-! ## Looking first and acting later -/

section Runs

variable {D : Deployment} {s : NestedSchema} {resourceID : String} {db db₀ : Database}
  {r : Request}

variable {ι : Type} {requests : ι → Request}

/-- **An atomic client** does what `CreateOrUpdateResource` does. -/
theorem atomic_clients (i : ι) : (clients D s resourceID requests).atomic i db =
    createOrUpdateResource D s resourceID (requests i) db := by
  simp only [Optimistic.Clients.atomic, clients, createOrUpdateResource]
  cases checkIfResourceExists D db s.schema (idFilter resourceID) <;> rfl

end Runs

/-! ## Every order -/

/-- An environment in which nothing fails. -/
def UpdateEnvironment.smooth : UpdateEnvironment where
  preUpdate data := .ok (data, .request, false)
  validateOnUpdate _ := .ok ()
  visits := []
  preUpdateInTransaction data db := .ok (some data, db)
  execute _ := .ok ()
  postUpdateInTransaction data db := .ok (data, db)
  postUpdate data := .ok data

/-- The schema of servers, with the row locked when one is updated. -/
def lockedServers : NestedSchema where
  schema := UpdateRace.lockedServers
  properties := UpdateRace.lockedServers.properties.map fun property ↦ .mk property [] none
  own_eq := rfl

end Gohan.Put
