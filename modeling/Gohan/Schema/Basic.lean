import Gohan.Lang.Value

/-!
# Schemas and property filters

A schema describes one kind of resource: where it lives in the URL space, which properties it has
and which of them refer to other resources.  A table of the database is made from it, one column
for each property, and every request is checked against it.

`PropertyFilter` is the part of a policy that says which properties the caller may see or name:
all of them, a white list, or everything but a black list.
-/

set_option autoImplicit false

namespace Gohan

/-! ## Schemas -/

/-- The property that names the tenant of a resource. -/
def tenantIDKey : String := "tenant_id"

/-- The property that names the domain of a resource. -/
def domainIDKey : String := "domain_id"

/-- A property of a schema, with the fields that queries, filters and defaults read. -/
structure Property where
  id : String
  type : String := "string"
  nullable : Bool := false
  /-- The schema the property refers to, or the empty string. -/
  relation : String := ""
  /-- Where the resource referred to is shown in a detailed view, or the empty string. -/
  relationProperty : String := ""
  indexed : Bool := false
  /-- The value of a property that is not supplied, or nil. -/
  default : Value := .nil

/-- A schema, with the fields that queries and filters read. -/
structure Schema where
  id : String
  singular : String
  plural : String
  url : String
  parent : String := ""
  metadata : Dict := ∅
  properties : List Property

/-- Which rows are locked when a resource is fetched. -/
inductive LockPolicy where
  | noLocking
  | lockRelatedResources
  | skipRelatedResources

namespace Schema

/-- `GetPluralURL`. -/
def getPluralURL (s : Schema) : String := s.url

/-- `GetSingleURL`. -/
def getSingleURL (s : Schema) : String := s.url ++ "/:id"

/-- The name of the table; `legacy` is the configuration flag `database/legacy`. -/
def getDbTableName (legacy : Bool) (s : Schema) : String :=
  if legacy then s.id ++ "s" else s.plural

/-- `GetPropertyByID`. -/
def getPropertyByID (s : Schema) (id : String) : Go Property :=
  match s.properties.find? (·.id == id) with
  | some p => .ok p
  | none => .errorf "Property with ID %s not found in schema %s" [.str id, .str s.id]

/-- `HasPropertyID`. -/
def hasPropertyID (s : Schema) (id : String) : Bool := s.properties.any (·.id == id)

/-- Substring search is on unless the metadata switches it off. -/
def isSubstringSearchEnabled (s : Schema) : Bool :=
  match s.metadata.lookup "substr_search_enabled" with
  | some (.bool enabled) => enabled
  | _ => true

/-- `StateVersioning`. -/
def stateVersioning (s : Schema) : Bool :=
  match s.metadata.lookup "state_versioning" with
  | some (.bool stateful) => stateful
  | _ => false

/-- `SyncKeyTemplate`. -/
def syncKeyTemplate (s : Schema) : Option String :=
  (s.metadata.lookup "sync_key_template").bind Value.string?

/-- `GetLockingPolicy`. -/
def getLockingPolicy (s : Schema) (event : String) : Go LockPolicy :=
  match (s.metadata.get "locking_policy").map? with
  | none => .ok .noLocking
  | some policies =>
    match ((policies.lookup event).getD .nil).maybeString with
    | "lock_related" => .ok .lockRelatedResources
    | "skip_related" => .ok .skipRelatedResources
    | "" => .ok .noLocking
    | policy => .panicf "Unknown locking policy '%s' for event %s in schema %s"
        [.str policy, .str event, .str s.id]

/-- `FormatParentID` of the schema's parent. -/
def parentPropertyID (s : Schema) : String := s.parent ++ "_id"

theorem getPropertyByID_of_has {s : Schema} {id : String} (h : s.hasPropertyID id = true) :
    ∃ p, s.getPropertyByID id = .ok p ∧ p ∈ s.properties ∧ p.id = id := by
  obtain ⟨p, hp, hid⟩ := List.any_eq_true.mp h
  have hsome : (s.properties.find? (·.id == id)).isSome :=
    List.find?_isSome.mpr ⟨p, hp, hid⟩
  obtain ⟨q, hq⟩ := Option.isSome_iff_exists.mp hsome
  have hqid : q.id = id := by simpa using List.find?_some hq
  exact ⟨q, by simp only [getPropertyByID, hq], List.mem_of_find?_eq_some hq, hqid⟩

/-- A property is found exactly when the schema has it. -/
theorem isOk_getPropertyByID (s : Schema) (id : String) :
    (s.getPropertyByID id).isOk = s.hasPropertyID id := by
  cases h : s.hasPropertyID id with
  | true =>
    obtain ⟨p, hp, _⟩ := getPropertyByID_of_has h
    rw [hp]; rfl
  | false =>
    have hnone : s.properties.find? (·.id == id) = none := by
      rw [List.find?_eq_none]
      intro p hp
      rw [hasPropertyID, List.any_eq_false] at h
      exact h p hp
    simp only [getPropertyByID, hnone]
    rfl

end Schema

/-- `manager.Schema(id)`. -/
def schemaByID (schemas : List Schema) (schemaID : String) : Option Schema :=
  schemas.find? (·.id == schemaID)

/-! ## Property filters -/

/-- Which properties a policy exposes: the `Predicate`s of the source, one constructor each. -/
inductive PropertyFilter where
  | includeAll
  | excludeAll
  | visible (properties : List String)
  | hidden (properties : List String)

namespace PropertyFilter

/-- `Validate`: may the caller see the property? -/
def validate : PropertyFilter → String → Bool
  | .includeAll, _ => true
  | .excludeAll, _ => false
  | .visible ps, key => ps.contains key
  | .hidden ps, key => !ps.contains key

/-- `IsForbidden`. -/
def isForbidden (f : PropertyFilter) (key : String) : Bool := !f.validate key

/-- `RemoveHiddenKeysFromMap`. -/
def removeHiddenKeysFromMap {α : Type} (f : PropertyFilter) (data : GoMap α) : GoMap α :=
  data.filterKeys f.validate

/-- `CreateFilterFromProperties`; a nil slice is `none`. -/
def createFilterFromProperties : Option (List String) → Option (List String) → Go PropertyFilter
  | none, none => .ok .includeAll
  | some ps, none => .ok (.visible ps)
  | none, some ps => .ok (.hidden ps)
  | some _, some _ => .errorf "Cannot have filter with both visible and hidden properties"

end PropertyFilter

end Gohan
