import Gohan.Logic.Precedence
import Gohan.Schema.CreationOrder
import Gohan.Schema.Reinit
import Gohan.Server.CustomAction

/-!
# What a caller is told about the schemas

`TrimmedResource` describes a schema to a caller: the properties that the caller's policy for
reading lets be seen, and with each of them the actions that its definition gives a permission for,
less those that the caller has no policy for or whose policy hides the property.  Nothing of this is
enforced here, so it has to agree with what is: with the filter of the policy under which a resource
is created, and with the JSON schema that it is validated against (`created_as_shown`).

The description is served by two routes, for all schemas and for one.  The list leaves out the
schemas that the caller may not read; the other route does not look (`getSchemas_spec`).
-/

set_option autoImplicit false

namespace Gohan

open Precedence (foldlM_before)

/-- `RemoveHiddenKeysFromSlice`. -/
def PropertyFilter.removeHiddenKeysFromSlice (f : PropertyFilter) (data : List String) :
    List String :=
  data.filter f.validate

/-- `FilterSchema`. -/
def Policy.filterSchema [RegexpEngine] (p : Policy) (properties : Dict)
    (propertiesOrder required : List String) : Dict × List String × List String :=
  let filter := p.resource.PropertiesFilter
  (filter.removeHiddenKeysFromMap properties, filter.removeHiddenKeysFromSlice propertiesOrder,
    filter.removeHiddenKeysFromSlice required)

namespace Loading

/-! ## The source -/

/-- What `JSON` says of an action, which `NewActionFromObject` has made of its definition.  A map
that is not there is written as null. -/
def actionJSON (rawData : Value) : Value :=
  let actionData : Dict := rawData.maybeMap
  let schema (key : String) : Value := ((actionData.get key).map?.map Value.map).getD .nil
  .map [("method", .str (actionData.get "method").maybeString),
    ("path", .str (actionData.get "path").maybeString), ("input", schema "input"),
    ("output", schema "output"), ("protocol", .str (actionData.get "protocol").maybeString)]

/-- `JSON`. -/
def Registered.json (s : Registered) : Dict :=
  GoMap.ofList [("id", .str s.obj.ID), ("plural", .str s.obj.Plural), ("title", .str s.obj.Title),
    ("description", .str s.obj.Description), ("parent", .str s.obj.Parent),
    ("singular", .str s.obj.Singular), ("prefix", .str s.obj.Prefix), ("url", .str s.URL),
    ("namespace", .str s.obj.NamespaceID), ("schema", .map (GoMap.toList s.obj.JSONSchema)),
    ("actions", .map ((GoMap.toList s.obj.Actions).map fun e ↦ (e.1, actionJSON e.2))),
    ("metadata", .map (GoMap.toList s.obj.Metadata))]

/-- `removePermission`, which takes out the first occurrence. -/
def removePermission (action : String) : List Value → Go (List Value)
  | [] => .ok []
  | .str permission :: permissions =>
    if action = permission then .ok permissions
    else do
      let rest ← removePermission action permissions
      .ok (.str permission :: rest)
  | _ :: _ => .panicf "interface conversion: interface {} is not string"

/-- The body of the loop of `filterPermission`. -/
def filterProperty (action : String) (filter : PropertyFilter) (property : String) :
    Value → Go Value
  | .map rawPermissions =>
    let permissions : Dict := GoMap.ofList rawPermissions
    if filter.isForbidden property then
      match permissions.lookup "permission" with
      | none => .ok (.map rawPermissions)
      | some (.list permission) => do
        let permission ← removePermission action permission
        .ok (.map (GoMap.toList (permissions.insert "permission" (.list permission))))
      | some _ => .panicf "interface conversion: interface {} is not []interface {}"
    else .ok (.map rawPermissions)
  | _ => .panicf "interface conversion: interface {} is not map[string]interface {}"

/-- `filterPermission`. -/
def filterPermission (action : String) (filter : PropertyFilter) (schemaProperties : Dict) :
    Go Dict :=
  schemaProperties.keys.foldlM (fun properties property ↦ do
    let permissions ← filterProperty action filter property (properties.get property)
    .ok (properties.insert property permissions)) schemaProperties

section Source

variable [RegexpEngine]

/-- `PolicyValidate` of the manager. -/
def Manager.policyValidate (m : Manager) (action path : String)
    (auth : Authorization) : Option (Policy × Role) :=
  Gohan.policyValidate action path auth (m.policies.map (·.value))

/-- The body of the loop over the actions. -/
def showAction (m : Manager) (s : Registered) (auth : Authorization)
    (shown : List String × Dict) (action : String) : Go (List String × Dict) :=
  match m.policyValidate action s.URL auth with
  | some (p, _) => do
    let schemaProperties ← filterPermission action p.resource.PropertiesFilter shown.2
    .ok (shown.1 ++ [action], schemaProperties)
  | none => do
    let schemaProperties ← filterPermission action .excludeAll shown.2
    .ok (shown.1, schemaProperties)

/-- `JSON` of a schema, with what is left of the JSON schema in place of it. -/
def Registered.trimmed (s : Registered) (schemaProperties : Dict)
    (schemaPropertiesOrder schemaRequired permission : List String) : Dict :=
  let filteredSchema : Dict := s.obj.JSONSchema
    |>.insert "properties" (.map (GoMap.toList schemaProperties))
    |>.insert "propertiesOrder" (.strs schemaPropertiesOrder)
    |>.insert "required" (.strs schemaRequired)
    |>.insert "permission" (.strs permission)
  s.json.insert "schema" (.map (GoMap.toList filteredSchema))

/-- `TrimmedResource`.  None of the keys of `JSON` is the identifier of a parent, so `NewResource`
adds nothing to them. -/
def trimmedResource (m : Manager) (s : Registered) (auth : Authorization) : Go (Option Dict) :=
  match m.policyValidate actionRead s.URL auth with
  | none => .ok none
  | some (policy, _) =>
    if s.obj.isAbstract then .ok none
    else do
      let (schemaProperties, schemaPropertiesOrder, schemaRequired) := policy.filterSchema
        (s.obj.JSONSchema.get "properties").maybeMap
        (s.obj.JSONSchema.get "propertiesOrder").maybeStringList
        (s.obj.JSONSchema.get "required").maybeStringList
      let (permission, schemaProperties) ←
        allActions.foldlM (showAction m s auth) ([], schemaProperties)
      .ok (some (s.trimmed schemaProperties schemaPropertiesOrder schemaRequired permission))

/-- `LoadPolicy` of the manager, where the policy is not looked at. -/
def Manager.loadPolicy (m : Manager) (action path : String) (auth : Authorization) : Go Unit :=
  match m.policyValidate action path auth with
  | some _ => .ok ()
  | none => .errorf "No matching policy: %s %s" [.str action, .str path]

/-- The path under which one schema is asked for. -/
def singlePath (metaschema : Registered) (id : String) : String :=
  String.ofList (replaceFirst ":id".toList id.toList (metaschema.URL ++ "/:id").toList)

/-- What the route for one schema makes of the description, which may be nil. -/
def answer (fullSchema : Registered) : Option Dict → Go Dict
  | none => .panicf "runtime error: invalid memory address or nil pointer dereference"
  | some rawData => .ok (rawData.insert "url" (.str fullSchema.URL))

/-- The route for one schema. -/
def getSingle (m : Manager) (metaschema : Registered) (auth : Authorization) (id : String) :
    Go Dict := do
  m.loadPolicy actionRead (singlePath metaschema id) auth
  match m.schema id with
  | none => .errorf "Schema %s not found" [.str id]
  | some fullSchema => do
    let trimmedResource ← trimmedResource m fullSchema auth
    answer fullSchema trimmedResource

/-- The body of the loop of the route for all schemas. -/
def listSchema (m : Manager) (auth : Authorization) (listed : List Dict × ℕ)
    (fullSchema : Registered) : Go (List Dict × ℕ) := do
  match ← trimmedResource m fullSchema auth with
  | none => .ok listed
  | some rawData => .ok (listed.1 ++ [rawData.insert "url" (.str fullSchema.URL)], listed.2 + 1)

/-- The route for all schemas: the list, and the total in the header. -/
def getPlural (m : Manager) (metaschema : Registered) (auth : Authorization) :
    Go (List Dict × ℕ) := do
  m.loadPolicy actionRead metaschema.URL auth
  m.orderedSchemas.foldlM (listSchema m auth) ([], 0)

end Source

/-! ## Taking out permissions -/

/-- The actions that the definition of a property gives a permission for. -/
def permissionOf (property : Value) : List String :=
  (property.maybeMap.get "permission").maybeStringList

/-- The definition of a property is a map, and its permissions, if it has any, are a list of
names. -/
def Defined (property : Value) : Prop :=
  ∃ definition : List (String × Value), property = .map definition ∧
    ∀ permission, property.maybeMap.lookup "permission" = some permission →
      ∃ names : List String, permission = .list (names.map .str)

/-- The permission of a definition is a list of names. -/
def isNames (permission : Value) : Bool := permission.slice?.any (·.all (·.string?.isSome))

theorem isNames_iff {permission : Value} :
    isNames permission = true ↔ ∃ names : List String, permission = .list (names.map .str) := by
  constructor
  · intro h
    cases permission with
    | list vs =>
      refine ⟨vs.filterMap Value.string?, ?_⟩
      have hall : ∀ v ∈ vs, v.string?.isSome = true := List.all_eq_true.mp h
      have hstr : ∀ v ∈ vs, (v.string?.map Value.str) = some v := by
        intro v hv
        cases v with
        | str s => rfl
        | _ => cases hall _ hv
      rw [List.map_filterMap, List.filterMap_congr hstr, List.filterMap_some]
    | _ => cases h
  · rintro ⟨names, rfl⟩
    exact List.all_eq_true.mpr fun v hv ↦ by
      obtain ⟨name, -, rfl⟩ := List.mem_map.mp hv
      rfl

theorem defined_iff {property : Value} : Defined property ↔ property.map?.isSome = true ∧
    (property.maybeMap.lookup "permission").all isNames = true := by
  have hall : (property.maybeMap.lookup "permission").all isNames = true ↔
      ∀ permission, property.maybeMap.lookup "permission" = some permission →
        ∃ names : List String, permission = .list (names.map .str) := by
    rw [Option.all_eq_true]
    exact forall₂_congr fun _ _ ↦ isNames_iff
  rw [hall]
  constructor
  · rintro ⟨definition, rfl, hnames⟩
    exact ⟨rfl, hnames⟩
  · rintro ⟨hmap, hnames⟩
    cases property with
    | map definition => exact ⟨definition, rfl, hnames⟩
    | _ => cases hmap

instance : DecidablePred Defined := fun _ ↦ decidable_of_iff _ defined_iff.symm

/-- The permissions for some actions have been taken out of a definition. -/
structure Restricted (actions : List String) (definition shown : Value) : Prop where
  defined : Defined shown
  others : ∀ key, key ≠ "permission" → shown.maybeMap.lookup key = definition.maybeMap.lookup key
  permission : permissionOf shown = (permissionOf definition).diff actions

/-- The action, if the filter forbids the property. -/
def hiddenBy (filter : PropertyFilter) (action property : String) : List String :=
  if filter.isForbidden property then [action] else []

section Restrict

variable {actions actions' : List String}

theorem Defined.restricted {property : Value} (h : Defined property) :
    Restricted [] property property :=
  ⟨h, fun _ _ ↦ rfl, (List.diff_nil _).symm⟩

theorem Restricted.trans {v v' v'' : Value} (h : Restricted actions v v')
    (h' : Restricted actions' v' v'') : Restricted (actions ++ actions') v v'' where
  defined := h'.defined
  others key hkey := (h'.others key hkey).trans (h.others key hkey)
  permission := by rw [h'.permission, h.permission, List.diff_append]

theorem Restricted.rel_trans {v v' v'' : Option Value} (h : Option.Rel (Restricted actions) v v')
    (h' : Option.Rel (Restricted actions') v' v'') :
    Option.Rel (Restricted (actions ++ actions')) v v'' := by
  cases h with
  | none =>
    cases h' with
    | none => exact .none
  | some hfirst =>
    cases h' with
    | some hsecond => exact .some (hfirst.trans hsecond)

theorem Restricted.defined_of_rel {v : Option Value} {v' : Value}
    (h : Option.Rel (Restricted actions) v (some v')) : Defined v' := by
  cases h with
  | some hrestricted => exact hrestricted.defined

theorem maybeStringList_names (names : List String) :
    (Value.list (names.map .str)).maybeStringList = names := by
  show (names.map Value.str).filterMap Value.string? = names
  rw [List.filterMap_map]
  exact List.filterMap_some

theorem removePermission_names (action : String) (names : List String) :
    removePermission action (names.map .str) = .ok ((names.erase action).map .str) := by
  induction names with
  | nil => rfl
  | cons name names ih =>
    rw [List.map_cons, removePermission]
    split
    · next heq => rw [heq, List.erase_cons_head]
    · next hne =>
      rw [ih, List.erase_cons_tail (by simpa using Ne.symm hne)]
      rfl

/-- The map of a value that has been made of a map. -/
theorem lookup_maybeMap_toList (m : Dict) (key : String) :
    (Value.map (GoMap.toList m)).maybeMap.lookup key = m.lookup key :=
  GoMap.lookup_ofList_toList m key

theorem filterProperty_spec (action : String) (filter : PropertyFilter) (property : String)
    {v : Value} (h : Defined v) : ∃ shown, filterProperty action filter property v = .ok shown ∧
      Restricted (hiddenBy filter action property) v shown := by
  obtain ⟨definition, rfl, hnames⟩ := id h
  cases hforbidden : filter.isForbidden property with
  | false =>
    rw [hiddenBy, if_neg (by simp [hforbidden])]
    refine ⟨_, ?_, h.restricted⟩
    rw [filterProperty, if_neg (by simp [hforbidden])]
  | true =>
    rw [hiddenBy, if_pos hforbidden]
    have hmap : (Value.map definition).maybeMap = GoMap.ofList definition := rfl
    rw [hmap] at hnames
    cases hpermission : (GoMap.ofList definition).lookup "permission" with
    | none =>
      refine ⟨_, by rw [filterProperty, if_pos hforbidden, hpermission], h, fun _ _ ↦ rfl, ?_⟩
      have hnil : permissionOf (.map definition) = [] := by
        rw [permissionOf, hmap, GoMap.get, hpermission]
        rfl
      rw [hnil, List.nil_diff]
    | some permission =>
      obtain ⟨names, rfl⟩ := hnames permission hpermission
      have hok : filterProperty action filter property (.map definition) =
          .ok (.map (GoMap.toList ((GoMap.ofList definition).insert "permission"
            (.list ((names.erase action).map .str))))) := by
        rw [filterProperty, if_pos hforbidden, hpermission]
        show (removePermission action (names.map .str) >>= _) = _
        rw [removePermission_names, Go.ok_bind]
      refine ⟨_, hok, ?_, fun key hkey ↦ ?_, ?_⟩
      · refine ⟨_, rfl, fun permission hlookup ↦ ?_⟩
        rw [lookup_maybeMap_toList, AList.lookup_insert] at hlookup
        exact ⟨_, (Option.some.inj hlookup).symm⟩
      · rw [lookup_maybeMap_toList, AList.lookup_insert_ne hkey, hmap]
      · rw [permissionOf, permissionOf, GoMap.get, GoMap.get, lookup_maybeMap_toList,
          AList.lookup_insert, hmap, hpermission]
        show (Value.list ((names.erase action).map .str)).maybeStringList =
          (Value.list (names.map .str)).maybeStringList.diff [action]
        rw [maybeStringList_names, maybeStringList_names, List.diff_cons, List.diff_nil]

/-- The loop, when it is through with some of the properties. -/
theorem filterPermission_loop (action : String) (filter : PropertyFilter) {properties : Dict}
    (h : ∀ id v, properties.lookup id = some v → Defined v) :
    ∃ shown, filterPermission action filter properties = .ok shown ∧ ∀ id,
      (id ∈ properties.keys → Option.Rel (Restricted (hiddenBy filter action id))
        (properties.lookup id) (shown.lookup id)) ∧
      (id ∉ properties.keys → shown.lookup id = properties.lookup id) := by
  refine foldlM_before (P := fun (done : List String) (shown : Dict) ↦ ∀ id,
    (id ∈ done → Option.Rel (Restricted (hiddenBy filter action id))
      (properties.lookup id) (shown.lookup id)) ∧
    (id ∉ done → shown.lookup id = properties.lookup id))
    (fun id ↦ ⟨fun hid ↦ absurd hid List.not_mem_nil, fun _ ↦ rfl⟩) ?_
  intro done property later shown hl hdone
  have hnew : property ∉ done := by
    have hnodup : (done ++ property :: later).Nodup := hl ▸ properties.keys_nodup
    exact fun hold ↦ (List.nodup_append.mp hnodup).2.2 property hold property
      List.mem_cons_self rfl
  have hkey : property ∈ properties.keys := hl ▸ List.mem_append_right _ List.mem_cons_self
  obtain ⟨v, hv⟩ :=
    Option.isSome_iff_exists.mp (AList.lookup_isSome.mpr (AList.mem_keys.mp hkey))
  have hget : shown.get property = v := by
    rw [GoMap.get, (hdone property).2 hnew, hv]
    rfl
  obtain ⟨v', hv', hrestricted⟩ := filterProperty_spec action filter property (h property v hv)
  refine ⟨shown.insert property v', by simp only [hget, hv', Go.ok_bind], fun id ↦ ?_⟩
  by_cases hid : id = property
  · subst hid
    refine ⟨fun _ ↦ ?_, fun hnot ↦ absurd (List.mem_append_right _ List.mem_cons_self) hnot⟩
    rw [AList.lookup_insert, hv]
    exact .some hrestricted
  · rw [AList.lookup_insert_ne hid, List.mem_append, List.mem_singleton, or_iff_left hid]
    exact hdone id

/-- **One action**: where the filter hides a property, the permission for the action is taken out
of its definition, and nothing else changes. -/
theorem filterPermission_spec (action : String) (filter : PropertyFilter) {properties : Dict}
    (h : ∀ id v, properties.lookup id = some v → Defined v) :
    ∃ shown, filterPermission action filter properties = .ok shown ∧ ∀ id,
      Option.Rel (Restricted (hiddenBy filter action id))
        (properties.lookup id) (shown.lookup id) := by
  obtain ⟨shown, hok, hshown⟩ := filterPermission_loop action filter h
  refine ⟨shown, hok, fun id ↦ ?_⟩
  by_cases hid : id ∈ properties.keys
  · exact (hshown id).1 hid
  · have hnone : properties.lookup id = none :=
      AList.lookup_eq_none.mpr fun hmem ↦ hid (AList.mem_keys.mpr hmem)
    rw [(hshown id).2 hid, hnone]
    exact .none

end Restrict

/-! ## The description -/

section View

variable [RegexpEngine] {m : Manager} {auth : Authorization} {s : Registered}

/-- The caller has a policy for the action. -/
def Manager.permits (m : Manager) (auth : Authorization) (s : Registered) (action : String) :
    Bool :=
  (m.policyValidate action s.URL auth).isSome

/-- The caller has a policy for the action, and it lets the property be named. -/
def Manager.allows (m : Manager) (auth : Authorization) (s : Registered)
    (action property : String) : Bool :=
  (m.policyValidate action s.URL auth).any fun found ↦
    found.1.resource.PropertiesFilter.validate property

/-- The actions that the caller may not name the property in. -/
def Manager.withheld (m : Manager) (auth : Authorization) (s : Registered)
    (actions : List String) (property : String) : List String :=
  actions.filter fun action ↦ !m.allows auth s action property

variable (m auth s) in
theorem showAction_spec {shown : List String × Dict} (action : String)
    (h : ∀ id v, shown.2.lookup id = some v → Defined v) :
    ∃ properties, showAction m s auth shown action =
        .ok (shown.1 ++ [action].filter (m.permits auth s), properties) ∧
      ∀ id, Option.Rel (Restricted (m.withheld auth s [action] id))
        (shown.2.lookup id) (properties.lookup id) := by
  cases hpolicy : m.policyValidate action s.URL auth with
  | none =>
    obtain ⟨properties, hok, hproperties⟩ := filterPermission_spec action .excludeAll h
    refine ⟨properties, ?_, fun id ↦ ?_⟩
    · simp [showAction, hpolicy, hok, Manager.permits]
    · have hwithheld : m.withheld auth s [action] id = hiddenBy .excludeAll action id := by
        simp [Manager.withheld, Manager.allows, hpolicy, hiddenBy, PropertyFilter.isForbidden,
          PropertyFilter.validate]
      rw [hwithheld]
      exact hproperties id
  | some found =>
    obtain ⟨p, role⟩ := found
    obtain ⟨properties, hok, hproperties⟩ :=
      filterPermission_spec action p.resource.PropertiesFilter h
    refine ⟨properties, ?_, fun id ↦ ?_⟩
    · simp [showAction, hpolicy, hok, Manager.permits]
    · have hwithheld : m.withheld auth s [action] id =
          hiddenBy p.resource.PropertiesFilter action id := by
        simp [Manager.withheld, Manager.allows, hpolicy, hiddenBy, PropertyFilter.isForbidden,
          List.filter_cons]
      rw [hwithheld]
      exact hproperties id

variable (m auth s) in
/-- **All actions**: what is shown of a property is its definition without the permissions for the
actions that are withheld. -/
theorem foldlM_showAction {properties : Dict}
    (h : ∀ id v, properties.lookup id = some v → Defined v) (actions : List String) :
    ∃ shown, actions.foldlM (showAction m s auth) ([], properties) = .ok shown ∧
      shown.1 = actions.filter (m.permits auth s) ∧
      ∀ id, Option.Rel (Restricted (m.withheld auth s actions id))
        (properties.lookup id) (shown.2.lookup id) := by
  refine foldlM_before (P := fun (done : List String) (shown : List String × Dict) ↦
    shown.1 = done.filter (m.permits auth s) ∧
      ∀ id, Option.Rel (Restricted (m.withheld auth s done id))
        (properties.lookup id) (shown.2.lookup id)) ⟨rfl, fun id ↦ ?_⟩ ?_
  · cases hid : properties.lookup id with
    | none => exact .none
    | some v => exact .some (h id v hid).restricted
  rintro done action later shown - ⟨hpermission, hdone⟩
  obtain ⟨properties', hok, hnext⟩ := showAction_spec m auth s action fun id v hv ↦
    Restricted.defined_of_rel (hv ▸ hdone id)
  refine ⟨_, hok, by rw [hpermission, List.filter_append], fun id ↦ ?_⟩
  have happend : m.withheld auth s (done ++ [action]) id =
      m.withheld auth s done id ++ m.withheld auth s [action] id := List.filter_append ..
  rw [happend]
  exact Restricted.rel_trans (hdone id) (hnext id)

/-- What is shown in place of the JSON schema. -/
def shownSchema (shown : Dict) : Dict := (shown.get "schema").maybeMap

/-- The properties that a schema is shown with. -/
def shownProperties (shown : Dict) : Dict := ((shownSchema shown).get "properties").maybeMap

/-- The actions that are shown with a property. -/
def shownPermission (shown : Dict) (property : String) : List String :=
  permissionOf ((shownProperties shown).get property)

/-- **What a caller should be told about a schema.** -/
structure Shown (m : Manager) (auth : Authorization) (s : Registered) (shown : Dict) : Prop where
  others : ∀ key, key ≠ "schema" → shown.lookup key = s.json.lookup key
  schemaOthers : ∀ key, key ∉ ["properties", "propertiesOrder", "required", "permission"] →
    (shownSchema shown).lookup key = s.obj.JSONSchema.lookup key
  permission : (shownSchema shown).get "permission" =
    .strs (allActions.filter (m.permits auth s))
  propertiesOrder : (shownSchema shown).get "propertiesOrder" =
    .strs (s.obj.propertiesOrder.filter (m.allows auth s actionRead))
  required : (shownSchema shown).get "required" =
    .strs (s.obj.required.filter (m.allows auth s actionRead))
  properties : ∀ id, Option.Rel (Restricted (m.withheld auth s allActions id))
    (if m.allows auth s actionRead id then s.obj.properties.lookup id else none)
    ((shownProperties shown).lookup id)

/-- The definitions of the properties can be read. -/
def Registered.AllDefined (s : Registered) : Prop :=
  ∀ id v, s.obj.properties.lookup id = some v → Defined v

omit [RegexpEngine] in
theorem shownSchema_trimmed (properties : Dict) (order required permission : List String)
    (key : String) :
    (shownSchema (s.trimmed properties order required permission)).lookup key =
      (s.obj.JSONSchema
        |>.insert "properties" (.map (GoMap.toList properties))
        |>.insert "propertiesOrder" (.strs order)
        |>.insert "required" (.strs required)
        |>.insert "permission" (.strs permission)).lookup key := by
  rw [shownSchema, Registered.trimmed, GoMap.get_insert_self, lookup_maybeMap_toList]

theorem shown_trimmed {properties : Dict}
    (hproperties : ∀ id, Option.Rel (Restricted (m.withheld auth s allActions id))
      (if m.allows auth s actionRead id then s.obj.properties.lookup id else none)
      (properties.lookup id)) :
    Shown m auth s (s.trimmed properties
      (s.obj.propertiesOrder.filter (m.allows auth s actionRead))
      (s.obj.required.filter (m.allows auth s actionRead))
      (allActions.filter (m.permits auth s))) where
  others key hkey := AList.lookup_insert_ne hkey
  schemaOthers key hkey := by
    simp only [List.mem_cons, List.not_mem_nil, or_false, not_or] at hkey
    obtain ⟨hproperties, horder, hrequired, hpermission⟩ := hkey
    rw [shownSchema_trimmed, AList.lookup_insert_ne hpermission, AList.lookup_insert_ne hrequired,
      AList.lookup_insert_ne horder, AList.lookup_insert_ne hproperties]
  permission := by
    rw [GoMap.get, shownSchema_trimmed, AList.lookup_insert]
    rfl
  propertiesOrder := by
    rw [GoMap.get, shownSchema_trimmed, AList.lookup_insert_ne (by decide),
      AList.lookup_insert_ne (by decide), AList.lookup_insert]
    rfl
  required := by
    rw [GoMap.get, shownSchema_trimmed, AList.lookup_insert_ne (by decide), AList.lookup_insert]
    rfl
  properties id := by
    rw [shownProperties, GoMap.get, shownSchema_trimmed, AList.lookup_insert_ne (by decide),
      AList.lookup_insert_ne (by decide), AList.lookup_insert_ne (by decide), AList.lookup_insert]
    show Option.Rel _ _ ((Value.map (GoMap.toList properties)).maybeMap.lookup id)
    rw [lookup_maybeMap_toList]
    exact hproperties id

omit [RegexpEngine] in
theorem allDefined_iff : s.AllDefined ↔
    ∀ e ∈ GoMap.toList s.obj.properties, Defined e.2 := by
  constructor
  · exact fun h e he ↦ h e.1 e.2 (GoMap.mem_toList.mp he)
  · exact fun h id v hv ↦ h (id, v) (GoMap.mem_toList.mpr hv)

instance (s : Registered) : Decidable s.AllDefined := decidable_of_iff _ allDefined_iff.symm

/-- **The description of a schema**, for a caller who may read its resources. -/
theorem trimmedResource_spec (hdefined : s.AllDefined) (hconcrete : s.obj.isAbstract = false)
    (hread : m.permits auth s actionRead = true) :
    ∃ shown, trimmedResource m s auth = .ok (some shown) ∧ Shown m auth s shown := by
  obtain ⟨⟨policy, role⟩, hpolicy⟩ := Option.isSome_iff_exists.mp hread
  have hallows : m.allows auth s actionRead = policy.resource.PropertiesFilter.validate := by
    funext property
    rw [Manager.allows, hpolicy]
    rfl
  have hseen : ∀ id, (policy.resource.PropertiesFilter.removeHiddenKeysFromMap
      s.obj.properties).lookup id =
        if m.allows auth s actionRead id then s.obj.properties.lookup id else none := by
    intro id
    rw [hallows]
    exact GoMap.lookup_filterKeys _ _ id
  obtain ⟨⟨permission, properties⟩, hok, hpermission, hproperties⟩ := foldlM_showAction m auth s
    (fun id v hv ↦ by
      rw [hseen] at hv
      split at hv
      · exact hdefined id v hv
      · cases hv) allActions
  simp only [hseen] at hproperties
  obtain rfl : permission = allActions.filter (m.permits auth s) := hpermission
  refine ⟨_, ?_, shown_trimmed hproperties⟩
  rw [trimmedResource, hpolicy, hallows]
  simp only [hconcrete, Bool.false_eq_true, if_false, Policy.filterSchema]
  have hstart : ((s.obj.JSONSchema.get "properties").maybeMap : Dict) = s.obj.properties := rfl
  rw [hstart, hok]
  rfl

theorem trimmedResource_eq_none
    (h : s.obj.isAbstract = true ∨ m.permits auth s actionRead = false) :
    trimmedResource m s auth = .ok none := by
  rw [trimmedResource]
  cases hpolicy : m.policyValidate actionRead s.URL auth with
  | none => rfl
  | some found =>
    obtain ⟨policy, role⟩ := found
    rcases h with habstract | hnone
    · simp only [habstract, if_true]
    · rw [Manager.permits, hpolicy] at hnone
      cases hnone

theorem shown_of_trimmedResource {shown : Dict} (hdefined : s.AllDefined)
    (h : trimmedResource m s auth = .ok (some shown)) : Shown m auth s shown := by
  have hnot : ¬ (s.obj.isAbstract = true ∨ m.permits auth s actionRead = false) := by
    intro hnone
    rw [trimmedResource_eq_none hnone] at h
    cases h
  obtain ⟨habstract, hread⟩ := not_or.mp hnot
  obtain ⟨shown', hok, hshown⟩ := trimmedResource_spec hdefined (Bool.eq_false_iff.mpr habstract)
    (Bool.eq_true_of_not_eq_false hread)
  rw [hok] at h
  exact Option.some.inj (Except.ok.inj h) ▸ hshown

/-! ## A host and its key -/

/-- A host has a key, which some are not to set. -/
def hostWithKey : SchemaObj :=
  bareSchema "host" ["base"] (GoMap.ofList [("type", .str "object"), ("properties", .map
    [("id", .map [("type", .str "string"), ("permission", .list [.str "create"])]),
      ("name", .map [("type", .str "string"),
        ("permission", .list [.str "create", .str "update"])]),
      ("key", .map [("type", .str "string"), ("permission", .list [.str "create"])])])])

/-- A member of a tenant. -/
def hostMember : Authorization :=
  .tenantScoped ⟨"acme-1", "one"⟩ ⟨"default", "Default"⟩ [⟨"Member"⟩]

/-- A member may read everything, and create hosts that have no key. -/
def memberPolicies : List Value := [.map [("id", .str "read"), ("principal", .str "Member"),
    ("action", .str "read"), ("effect", .str "allow"), ("resource", .map [("path", .str ".*")])],
  .map [("id", .str "create"), ("principal", .str "Member"), ("action", .str "create"),
    ("effect", .str "allow"), ("resource", .map [("path", .str "/hosts"),
      ("blacklistProperties", .list [.str "key"])])]]

/-- What has been loaded: the metaschema, a base, the host and the policies. -/
def loadedHost (policies : List Policy) : Manager :=
  Machine.final Manager.step {} ([.schema (bareSchema "schema"),
    .schema { bareSchema "base" with type := "abstract" }, .schema hostWithKey] ++
      policies.map fun policy ↦ .policy ⟨"", 0, policy⟩)

/-! ## What is told and what is enforced -/

/-- **The permissions that are shown**, of a property that the caller may read. -/
theorem Shown.mem_shownPermission_iff {shown : Dict} (h : Shown m auth s shown)
    (honce : ∀ id v, s.obj.properties.lookup id = some v → (permissionOf v).Nodup)
    {action : String} (haction : action ∈ allActions) {property : String}
    (hread : m.allows auth s actionRead property = true) :
    action ∈ shownPermission shown property ↔ m.allows auth s action property = true ∧
      ∃ v, s.obj.properties.lookup property = some v ∧ action ∈ permissionOf v := by
  have hrel := h.properties property
  rw [if_pos hread] at hrel
  rw [shownPermission, GoMap.get]
  generalize (shownProperties shown).lookup property = found at hrel
  cases hv : s.obj.properties.lookup property with
  | none =>
    rw [hv] at hrel
    cases hrel with
    | none =>
      refine iff_of_false List.not_mem_nil ?_
      rintro ⟨-, v, hsome, -⟩
      cases hsome
  | some v =>
    rw [hv] at hrel
    cases hrel with
    | some hrestricted =>
    have hwithheld : action ∈ m.withheld auth s allActions property ↔
        m.allows auth s action property = false := by
      rw [Manager.withheld, List.mem_filter, and_iff_right haction, Bool.not_eq_true']
    rw [Option.getD_some, hrestricted.permission, List.Nodup.mem_sdiff_iff (honce _ v hv),
      hwithheld, Bool.not_eq_false]
    constructor
    · rintro ⟨hmem, hallows⟩
      exact ⟨hallows, v, rfl, hmem⟩
    · rintro ⟨hallows, v', heq, hmem⟩
      obtain rfl := Option.some.inj heq
      exact ⟨hmem, hallows⟩

/-- What is enforced when a resource is created with some properties: there is a policy, its filter
has nothing against the properties, and they are in the JSON schema for creation, which has no
additional ones. -/
def Accepted (m : Manager) (auth : Authorization) (s : Registered) (data : Dict) : Prop :=
  (∃ policy role, m.policyValidate actionCreate s.URL auth = some (policy, role) ∧
    policy.checkPropertiesFilter data = .ok ()) ∧
  ∀ key ∈ data.keys,
    key ∈ ((filterSchemaByPermission s.obj.JSONSchema actionCreate).get "properties").maybeMap

omit [RegexpEngine] in
theorem mem_filterSchemaByPermission_iff {permission key : String} :
    key ∈ ((filterSchemaByPermission s.obj.JSONSchema permission).get "properties").maybeMap ↔
      ∃ v, s.obj.properties.lookup key = some v ∧ permission ∈ permissionOf v := by
  have hget : ((filterSchemaByPermission s.obj.JSONSchema permission).get "properties").maybeMap =
      GoMap.ofList (filteredProperties s.obj.JSONSchema permission) := rfl
  have hmem : ∀ v, (key, v) ∈ filteredProperties s.obj.JSONSchema permission ↔
      s.obj.properties.lookup key = some v ∧ permission ∈ permissionOf v := by
    intro v
    rw [filteredProperties, List.mem_filter, List.contains_iff_mem]
    exact and_congr_left fun _ ↦ GoMap.mem_toList
  rw [hget]
  constructor
  · intro hkey
    obtain ⟨v, hv⟩ := Option.isSome_iff_exists.mp (AList.lookup_isSome.mpr hkey)
    exact ⟨v, (hmem v).mp (GoMap.mem_of_lookup_ofList hv)⟩
  · rintro ⟨v, hv⟩
    exact GoMap.mem_ofList ((hmem v).mpr hv)

/-- **What the caller is told is what the caller can do**: a resource can be created with some
properties exactly when creating is among the actions of the schema, and among those of each of the
properties.  The properties are such as the caller may read; `tenant_name` is not looked at when a
resource is created. -/
theorem created_as_shown {shown : Dict} (h : trimmedResource m s auth = .ok (some shown))
    (hdefined : s.AllDefined)
    (honce : ∀ id v, s.obj.properties.lookup id = some v → (permissionOf v).Nodup) {data : Dict}
    (hdata : ∀ key ∈ data.keys, key ≠ "tenant_name" ∧ m.allows auth s actionRead key = true) :
    Accepted m auth s data ↔
      actionCreate ∈ ((shownSchema shown).get "permission").maybeStringList ∧
        ∀ key ∈ data.keys, actionCreate ∈ shownPermission shown key := by
  have hshown := shown_of_trimmedResource hdefined h
  have hcreate : actionCreate ∈ allActions := List.mem_cons_self
  rw [Accepted, hshown.permission]
  show _ ↔ actionCreate ∈ allActions.filter _ ∧ _
  rw [List.mem_filter, and_iff_right hcreate]
  cases hpolicy : m.policyValidate actionCreate s.URL auth with
  | none =>
    refine iff_of_false (fun hall ↦ ?_) fun hall ↦ ?_
    · obtain ⟨⟨policy, role, heq, -⟩, -⟩ := hall
      cases heq
    · rw [Manager.permits, hpolicy] at hall
      cases hall.1
  | some found =>
    obtain ⟨policy, role⟩ := found
    have hpermits : m.permits auth s actionCreate = true := by rw [Manager.permits, hpolicy]; rfl
    have hallows : ∀ key, m.allows auth s actionCreate key =
        policy.resource.PropertiesFilter.validate key := by
      intro key
      rw [Manager.allows, hpolicy]
      rfl
    have hcheck : (∃ policy' role', some (policy, role) = some (policy', role') ∧
        policy'.checkPropertiesFilter data = .ok ()) ↔
          ∀ key ∈ data.keys, m.allows auth s actionCreate key = true := by
      have hkeys : policy.checkPropertiesFilter data = .ok () ↔
          ∀ key ∈ data.keys, m.allows auth s actionCreate key = true := by
        rw [Policy.checkPropertiesFilter, checkKeys_eq_ok]
        refine forall₂_congr fun key hkey ↦ ?_
        rw [or_iff_right (hdata key hkey).1, hallows]
      constructor
      · rintro ⟨policy', role', heq, hok⟩
        obtain ⟨rfl, rfl⟩ := Prod.mk.inj (Option.some.inj heq)
        exact hkeys.mp hok
      · exact fun hall ↦ ⟨policy, role, rfl, hkeys.mpr hall⟩
    rw [hcheck, and_iff_right hpermits, ← forall₂_and]
    refine forall₂_congr fun key hkey ↦ ?_
    rw [hshown.mem_shownPermission_iff honce hcreate (hdata key hkey).2,
      mem_filterSchemaByPermission_iff]

omit [RegexpEngine] in
/-- Of a member who creates a host with a name and a key. -/
theorem created_as_shown_host : letI := Re2.engine
    ∃ policies, memberPolicies.mapM newPolicy = .ok policies ∧
      ∃ host ∈ (loadedHost policies).orderedSchemas, ∃ shown,
        trimmedResource (loadedHost policies) host hostMember = .ok (some shown) ∧
        (Accepted (loadedHost policies) hostMember host
          (GoMap.ofList [("name", .str "web"), ("key", .str "k")]) ↔
            actionCreate ∈ ((shownSchema shown).get "permission").maybeStringList ∧
              ∀ key ∈ ["key", "name"], actionCreate ∈ shownPermission shown key) := by
  let _ := Re2.engine
  obtain ⟨policies, hnew, hhost⟩ := Go.exists_of_map_decide
    (P := fun policies : List Policy ↦ ∃ host ∈ (loadedHost policies).orderedSchemas,
      host.AllDefined ∧ (host.obj.isAbstract = false ∧
        (loadedHost policies).permits hostMember host actionRead = true) ∧
      (∀ e ∈ GoMap.toList host.obj.properties, (permissionOf e.2).Nodup) ∧
      ∀ key ∈ ["key", "name"], key ≠ "tenant_name" ∧
        (loadedHost policies).allows hostMember host actionRead key = true)
    (show (memberPolicies.mapM newPolicy).map _ = .ok true by decide +kernel)
  obtain ⟨host, hmem, hdefined, ⟨hconcrete, hread⟩, honce, hdata⟩ := hhost
  obtain ⟨shown, hok, -⟩ := trimmedResource_spec hdefined hconcrete hread
  exact ⟨policies, hnew, host, hmem, shown, hok, created_as_shown hok hdefined
    (fun id v hv ↦ honce (id, v) (GoMap.mem_toList.mpr hv)) hdata⟩

/-! ## The two routes -/

/-- The caller may read the resources of the schema. -/
def Manager.isReadable (m : Manager) (auth : Authorization) (s : Registered) : Bool :=
  !s.obj.isAbstract && m.permits auth s actionRead

/-- What the routes serve for a schema. -/
def Served (m : Manager) (auth : Authorization) (s : Registered) (shown : Dict) : Prop :=
  ∃ rawData, trimmedResource m s auth = .ok (some rawData) ∧
    shown = rawData.insert "url" (.str s.URL)

theorem Shown.insert_url {shown : Dict} (h : Shown m auth s shown) :
    Shown m auth s (shown.insert "url" (.str s.URL)) := by
  have hschema : shownSchema (shown.insert "url" (.str s.URL)) = shownSchema shown := by
    rw [shownSchema, shownSchema, GoMap.get, GoMap.get, AList.lookup_insert_ne (by decide)]
  have hproperties : shownProperties (shown.insert "url" (.str s.URL)) = shownProperties shown := by
    rw [shownProperties, shownProperties, hschema]
  constructor
  · intro key hkey
    by_cases hurl : key = "url"
    · rw [hurl, AList.lookup_insert]
      rfl
    · rw [AList.lookup_insert_ne hurl]
      exact h.others key hkey
  · exact hschema ▸ h.schemaOthers
  · exact hschema ▸ h.permission
  · exact hschema ▸ h.propertiesOrder
  · exact hschema ▸ h.required
  · exact hproperties ▸ h.properties

theorem Served.shown {shown : Dict} (h : Served m auth s shown) (hdefined : s.AllDefined) :
    Shown m auth s shown := by
  obtain ⟨rawData, hok, rfl⟩ := h
  exact (shown_of_trimmedResource hdefined hok).insert_url

theorem exists_served (hdefined : s.AllDefined) (h : m.isReadable auth s = true) :
    ∃ rawData, trimmedResource m s auth = .ok (some rawData) := by
  obtain ⟨hconcrete, hread⟩ := Bool.and_eq_true_iff.mp h
  obtain ⟨rawData, hok, -⟩ := trimmedResource_spec hdefined (by simpa using hconcrete) hread
  exact ⟨rawData, hok⟩

theorem trimmedResource_of_not_readable (h : m.isReadable auth s = false) :
    trimmedResource m s auth = .ok none := by
  refine trimmedResource_eq_none ?_
  rcases Bool.and_eq_false_iff.mp h with habstract | hread
  · exact .inl (by simpa using habstract)
  · exact .inr hread

/-- The loop of the list has an entry for each schema that is readable. -/
theorem foldlM_listSchema (hdefined : ∀ s ∈ m.orderedSchemas, s.AllDefined) :
    ∃ listed, m.orderedSchemas.foldlM (listSchema m auth) ([], 0) = .ok listed ∧
      listed.2 = listed.1.length ∧
      List.Forall₂ (Served m auth) (m.orderedSchemas.filter (m.isReadable auth)) listed.1 := by
  refine foldlM_before (P := fun (done : List Registered) (listed : List Dict × ℕ) ↦
    listed.2 = listed.1.length ∧
      List.Forall₂ (Served m auth) (done.filter (m.isReadable auth)) listed.1) ⟨rfl, .nil⟩ ?_
  rintro done s later listed hl ⟨htotal, hlisted⟩
  have hs : s.AllDefined := hdefined s (hl ▸ List.mem_append_right _ List.mem_cons_self)
  rw [List.filter_append]
  cases hreadable : m.isReadable auth s with
  | false =>
    refine ⟨listed, ?_, htotal, ?_⟩
    · rw [listSchema, trimmedResource_of_not_readable hreadable]
      rfl
    · rwa [List.filter_cons_of_neg (by simp [hreadable]), List.filter_nil, List.append_nil]
  | true =>
    obtain ⟨rawData, hok⟩ := exists_served hs hreadable
    refine ⟨(listed.1 ++ [rawData.insert "url" (.str s.URL)], listed.2 + 1), ?_, ?_, ?_⟩
    · rw [listSchema, hok]
      rfl
    · rw [htotal, List.length_append, List.length_singleton]
    · rw [List.filter_cons_of_pos hreadable, List.filter_nil]
      exact List.rel_append hlisted (.cons ⟨rawData, hok, rfl⟩ .nil)

theorem getSingle_eq {metaschema : Registered} (hfull : m.Full) (hs : s ∈ m.orderedSchemas)
    (hone : (m.policyValidate actionRead (singlePath metaschema s.obj.ID) auth).isSome = true) :
    getSingle m metaschema auth s.obj.ID = trimmedResource m s auth >>= answer s := by
  obtain ⟨found, hfound⟩ := Option.isSome_iff_exists.mp hone
  rw [getSingle, Manager.loadPolicy, hfound, hfull.mem_orderedSchemas.mp hs]
  rfl

/-- **The two routes.**  For a caller who may ask for all schemas and for each of them, the list has
the schemas that have resources the caller may read, in the order in which they were registered,
each described as it should be, and whoever asks for one of them gets what is in the list.  Asking
for one that is not in the list is a panic. -/
theorem getPlural_spec {metaschema : Registered} (hfull : m.Full)
    (hdefined : ∀ s ∈ m.orderedSchemas, s.AllDefined)
    (hall : (m.policyValidate actionRead metaschema.URL auth).isSome = true)
    (hone : ∀ s ∈ m.orderedSchemas,
      (m.policyValidate actionRead (singlePath metaschema s.obj.ID) auth).isSome = true) :
    ∃ listed, getPlural m metaschema auth = .ok (listed, listed.length) ∧
      List.Forall₂ (fun s shown ↦ Shown m auth s shown ∧
        getSingle m metaschema auth s.obj.ID = .ok shown)
        (m.orderedSchemas.filter (m.isReadable auth)) listed ∧
      ∀ s ∈ m.orderedSchemas, m.isReadable auth s = false →
        ¬ Go.Returns (getSingle m metaschema auth s.obj.ID) := by
  obtain ⟨⟨listed, total⟩, hok, htotal, hlisted⟩ := foldlM_listSchema (m := m) hdefined
  refine ⟨listed, ?_, ?_, fun s hs hnot ↦ ?_⟩
  · obtain ⟨found, hfound⟩ := Option.isSome_iff_exists.mp hall
    rw [getPlural, Manager.loadPolicy, hfound, ← htotal]
    exact hok
  · have hmem : ∀ s ∈ m.orderedSchemas.filter (m.isReadable auth), s ∈ m.orderedSchemas :=
      fun s hs ↦ List.mem_of_mem_filter hs
    refine List.Forall₂.imp (fun s shown hserved ↦ ?_)
      ((List.forall₂_and_left _ _).mpr ⟨hmem, hlisted⟩)
    obtain ⟨hs, hserved⟩ := hserved
    refine ⟨hserved.shown (hdefined s hs), ?_⟩
    obtain ⟨rawData, hraw, rfl⟩ := hserved
    rw [getSingle_eq hfull hs (hone s hs), hraw]
    rfl
  · rw [getSingle_eq hfull hs (hone s hs), trimmedResource_of_not_readable hnot]
    exact Go.not_returns_panicf _ _

omit [RegexpEngine] in
/-- Of a member, who gets the metaschema and the host in the list, and a panic for the base. -/
theorem getPlural_spec_host : letI := Re2.engine
    ∃ policies, memberPolicies.mapM newPolicy = .ok policies ∧
      ∃ metaschema, (loadedHost policies).schema "schema" = some metaschema ∧
        ∃ listed,
          getPlural (loadedHost policies) metaschema hostMember = .ok (listed, listed.length) ∧
          List.Forall₂ (fun s shown ↦ Shown (loadedHost policies) hostMember s shown ∧
            getSingle (loadedHost policies) metaschema hostMember s.obj.ID = .ok shown)
            ((loadedHost policies).orderedSchemas.filter
              ((loadedHost policies).isReadable hostMember)) listed ∧
          ∀ s ∈ (loadedHost policies).orderedSchemas,
            (loadedHost policies).isReadable hostMember s = false →
              ¬ Go.Returns (getSingle (loadedHost policies) metaschema hostMember s.obj.ID) := by
  let _ := Re2.engine
  obtain ⟨policies, hnew, hdefined, metaschema, hmeta, hall, hone⟩ := Go.exists_of_map_decide
    (P := fun policies : List Policy ↦
      (∀ s ∈ (loadedHost policies).orderedSchemas, s.AllDefined) ∧
      ∃ metaschema ∈ (loadedHost policies).schema "schema",
        ((loadedHost policies).policyValidate actionRead metaschema.URL hostMember).isSome = true ∧
        ∀ s ∈ (loadedHost policies).orderedSchemas, ((loadedHost policies).policyValidate
          actionRead (singlePath metaschema s.obj.ID) hostMember).isSome = true)
    (show (memberPolicies.mapM newPolicy).map _ = .ok true by decide +kernel)
  exact ⟨policies, hnew, metaschema, hmeta,
    getPlural_spec (Manager.Full.empty.final _) hdefined hall hone⟩

end View

end Loading

end Gohan
