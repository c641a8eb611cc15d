import Gohan.Extension.Intact
import Gohan.Schema.Update
import Mathlib.Data.List.Sort

/-!
# Handlers of schema events

Before a resource is updated, the handlers that an extension has registered for its schema are
called in the order of their priorities.  They get a structure that is made of the request once, and
after each of them the request is replaced by a map that is made of the structure.  What the last of
them has left there is merged into the stored row.

A handler that does nothing should not change the request.  `unchanged_iff` says for which requests
this is so: those that come back out of a structure (`Intact`).  A partial update of a schema with
required properties is no such request, since those are plain fields: what is not in the request
comes back empty, and is stored.
-/

set_option autoImplicit false

namespace Gohan.Goplugin

open Sync Iface

/-! ## Once more -/

section Again

theorem eachElem_again {α β : Type} {write write' : List String → α → Go (β × α)}
    (h : ∀ place v b w, write place v = .ok (b, w) → write' place w = .ok (b, w))
    {place : List String} {i : ℕ} {vs ws : List α} {bs : List β}
    (hbs : eachElem write place i vs = .ok (bs, ws)) :
    eachElem write' place i ws = .ok (bs, ws) := by
  induction vs generalizing i ws bs with
  | nil =>
    cases hbs
    rfl
  | cons v vs ih =>
    obtain ⟨⟨b, w⟩, hb, hbs⟩ := Go.bind_eq_ok.mp hbs
    obtain ⟨⟨bs, ws⟩, hrest, hbs⟩ := Go.bind_eq_ok.mp hbs
    obtain ⟨rfl, rfl⟩ := Prod.mk.inj (Except.ok.inj hbs)
    exact Go.bind_eq_ok.mpr ⟨(b, w), h _ v b w hb, Go.bind_eq_ok.mpr ⟨(bs, ws), ih hrest, rfl⟩⟩

variable {newUUID newUUID' : List String → String}

theorem FieldType.slice_again {elem : FieldType} (helem : ∀ kind, elem ≠ .plain kind)
    (h : ∀ place v b w, elem.toMaps newUUID place v = .ok (b, w) →
      elem.toMaps newUUID' place w = .ok (b, w))
    {name : String} {place : List String} {v w : (FieldType.slice elem).Val} {entry : Option Iface}
    (hto : (FieldType.slice elem).toMap newUUID name place v = .ok (entry, w)) :
    (FieldType.slice elem).toMap newUUID' name place w = .ok (entry, w) := by
  cases v with
  | none =>
    cases hto
    rfl
  | some vs =>
    rw [(writes_maps newUUID helem).toMap, Go.bind_eq_ok] at hto
    obtain ⟨⟨bs, ws⟩, hbs, hto⟩ := hto
    obtain ⟨rfl, rfl⟩ := Prod.mk.inj (Except.ok.inj hto)
    rw [(writes_maps newUUID' helem).toMap, eachElem_again h hbs]
    rfl

mutual
theorem FieldType.toMap_again (hid : ∀ place, newUUID place ≠ "") :
    (field : FieldType) → (name : String) → (place : List String) → (v : field.Val) →
      (entry : Option Iface) → (w : field.Val) →
        field.toMap newUUID name place v = .ok (entry, w) →
          field.toMap newUUID' name place w = .ok (entry, w)
  | .plain .string, name, place, v, entry, w, h => by
    obtain ⟨s, hto, -, hs⟩ := FieldType.toMap_string hid name place v
    obtain ⟨rfl, rfl⟩ := Prod.mk.inj (Except.ok.inj (hto.symm.trans h))
    exact if_neg fun hempty ↦ hs hempty.1 hempty.2
  | .plain .int, _, _, _, _, _, h => by
    cases h
    rfl
  | .plain .float, _, _, _, _, _, h => by
    cases h
    rfl
  | .plain .bool, _, _, _, _, _, h => by
    cases h
    rfl
  | .maybe _, _, _, _, _, _, h => by
    cases h
    rfl
  | .ptr _, _, _, none, _, _, h => by
    cases h
    rfl
  | .ptr type, name, place, some v, entry, w, h => by
    obtain ⟨⟨m, w⟩, hm, h⟩ := Go.bind_eq_ok.mp h
    obtain ⟨rfl, rfl⟩ := Prod.mk.inj (Except.ok.inj h)
    exact Go.bind_eq_ok.mpr ⟨(m, w), StructType.toMap_again hid type _ v m w hm, rfl⟩
  | .maybeStruct _, _, _, (.undefined, _), _, _, h => by
    cases h
    rfl
  | .maybeStruct _, _, _, (.null, _), _, _, h => by
    cases h
    rfl
  | .maybeStruct type, name, place, (.value, v), entry, w, h => by
    obtain ⟨⟨m, w⟩, hm, h⟩ := Go.bind_eq_ok.mp h
    obtain ⟨rfl, rfl⟩ := Prod.mk.inj (Except.ok.inj h)
    exact Go.bind_eq_ok.mpr ⟨(m, w), StructType.toMap_again hid type _ v m w hm, rfl⟩
  | .slice (.plain kind), _, _, v, _, _, h => by
    cases v with
    | none | some => cases h; rfl
  | .slice (.maybe kind), _, _, _, _, _, h =>
    FieldType.slice_again (by nofun) ((FieldType.maybe kind).toMaps_again hid) h
  | .slice (.ptr type), _, _, _, _, _, h =>
    FieldType.slice_again (by nofun) ((FieldType.ptr type).toMaps_again hid) h
  | .slice (.maybeStruct type), _, _, _, _, _, h =>
    FieldType.slice_again (by nofun) ((FieldType.maybeStruct type).toMaps_again hid) h
  | .slice (.slice elem), _, _, _, _, _, h =>
    FieldType.slice_again (by nofun) ((FieldType.slice elem).toMaps_again hid) h

theorem FieldType.toMaps_again (hid : ∀ place, newUUID place ≠ "") :
    (elem : FieldType) → (place : List String) → (v : elem.Val) → (m : Option Entries) →
      (w : elem.Val) → elem.toMaps newUUID place v = .ok (m, w) →
        elem.toMaps newUUID' place w = .ok (m, w)
  | .plain _, _, _, _, _, h => by
    cases h
    rfl
  | .maybe _, _, _, _, _, h => by
    cases h
    rfl
  | .ptr _, _, none, _, _, h => by
    cases h
    rfl
  | .ptr type, place, some v, _, _, h => by
    obtain ⟨⟨m, w⟩, hm, h⟩ := Go.bind_eq_ok.mp h
    obtain ⟨rfl, rfl⟩ := Prod.mk.inj (Except.ok.inj h)
    exact Go.bind_eq_ok.mpr ⟨(m, w), StructType.toMap_again hid type _ v m w hm, rfl⟩
  | .maybeStruct type, place, v, _, _, h => by
    obtain ⟨⟨m, w⟩, hm, h⟩ := Go.bind_eq_ok.mp h
    obtain ⟨rfl, rfl⟩ := Prod.mk.inj (Except.ok.inj h)
    exact Go.bind_eq_ok.mpr ⟨(m, w), StructType.toMap_again hid type _ v.2 m w hm, rfl⟩
  | .slice _, _, none, _, _, h => by
    cases h
    rfl
  | .slice _, _, some _, _, _, h => (Go.panicf_ne_ok _ _ _ h).elim

/-- **A structure that was put into a map gives the same map again**: its identifiers are there. -/
theorem StructType.toMap_again (hid : ∀ place, newUUID place ≠ "") :
    (type : StructType) → (place : List String) → (v : type.Val) → (m : Entries) →
      (w : type.Val) → type.toMap newUUID place v = .ok (m, w) →
        type.toMap newUUID' place w = .ok (m, w)
  | .nil, _, _, _, _, h => by
    cases h
    rfl
  | .cons name field rest, place, (v, vs), m, w, h => by
    obtain ⟨entry, w₁, entries, w₂, hentry, hentries, rfl, rfl⟩ :=
      StructType.toMap_cons_eq_ok.mp h
    refine StructType.toMap_cons_eq_ok.mpr ⟨entry, w₁, entries, w₂, ?_,
      StructType.toMap_again hid rest place vs entries w₂ hentries, rfl, rfl⟩
    rw [FieldType.toMapKnown] at hentry ⊢
    by_cases hknown : known name = true
    · rw [if_pos hknown] at hentry ⊢
      exact FieldType.toMap_again hid field name place v entry w₁ hentry
    · rw [if_neg hknown] at hentry ⊢
      obtain ⟨rfl, rfl⟩ := Prod.mk.inj (Except.ok.inj hentry)
      rfl
end

end Again

/-! ## Handlers -/

/-- The part of the context of a request that is used here. -/
structure Context where
  /-- `context["resource"]`. -/
  resource : Option Iface
  /-- There is `go_validation` in the context. -/
  goValidation : Bool

/-- A handler gets the context and the structure, if there is one, and may change both. -/
abbrev SchemaHandler (type : StructType) : Type :=
  Context → Option type.Val → Go (Context × Option type.Val)

/-- `PrioritizedSchemaHandlers`: the handlers of an event and a schema, by their priorities. -/
abbrev PrioritizedSchemaHandlers (type : StructType) : Type :=
  AList fun _ : ℤ ↦ List (SchemaHandler type)

/-- `RegisterSchemaEventHandler`, where nothing may be registered yet. -/
def registerSchemaEventHandler {type : StructType}
    (schemaHandlers : Option (PrioritizedSchemaHandlers type)) (schemaHandler : SchemaHandler type)
    (priority : ℤ) : PrioritizedSchemaHandlers type :=
  let handlers := schemaHandlers.getD ∅
  handlers.insert priority ((handlers.lookup priority).getD [] ++ [schemaHandler])

/-- `sortSchemaHandlers`. -/
def sortSchemaHandlers {type : StructType} (schemaHandlers : PrioritizedSchemaHandlers type) :
    List ℤ := schemaHandlers.keys.mergeSort

/-- The handlers in the order in which they are called. -/
def PrioritizedSchemaHandlers.calls {type : StructType}
    (schemaHandlers : PrioritizedSchemaHandlers type) : List (SchemaHandler type) :=
  (sortSchemaHandlers schemaHandlers).flatMap fun priority ↦
    (schemaHandlers.lookup priority).getD []

section Dispatch

variable {type : StructType} (newUUID : ℕ → List String → String)

/-- The loops of `dispatchSchemaEventForEnv`.  The calls are numbered, since each makes identifiers
of its own. -/
def callHandlers : ℕ → List (SchemaHandler type) → Context → Option type.Val → Go Context
  | _, [], context, _ => .ok context
  | i, schemaEventHandler :: handlers, context, resource => do
    let (context, resource) ← schemaEventHandler { context with goValidation := true } resource
    match resource with
    | none => callHandlers (i + 1) handlers context none
    | some resource => do
      let (m, resource) ← type.toMap (newUUID i) [] resource
      callHandlers (i + 1) handlers { context with resource := some (.map m) } (some resource)

variable [FloatConversion]

/-- `dispatchSchemaEventForEnv`, for a schema with this raw type.  An error of `resourceFromMap` is
given back as a bad request. -/
def dispatchSchemaEventForEnv (prioritizedSchemaHandlers : PrioritizedSchemaHandlers type)
    (context : Context) : Go Context := do
  let resource ← match context.resource with
    | none => .ok none
    | some (.map ctxResource) => (type.fromMap ctxResource).map some
    | some v => typeAssertion v "map[string]interface \x7b\x7d"
  callHandlers newUUID 0 prioritizedSchemaHandlers.calls context resource

/-- The part of `handleEventForEnv` that is about the schema: nothing happens when no handler was
registered for it. -/
def handleEventForEnv (schemaHandlers : Option (PrioritizedSchemaHandlers type))
    (context : Context) : Go Context :=
  match schemaHandlers with
  | none => .ok context
  | some prioritizedSchemaHandlers =>
    dispatchSchemaEventForEnv newUUID prioritizedSchemaHandlers context

end Dispatch

/-! ## Handlers that do nothing -/

section NoOp

/-- A handler that does not touch its resource. -/
def noOp (type : StructType) : SchemaHandler type := fun context resource ↦ .ok (context, resource)

/-- Such handlers registered with these priorities, the last one first. -/
def registered (type : StructType) : List ℤ → Option (PrioritizedSchemaHandlers type)
  | [] => none
  | priority :: priorities =>
    some (registerSchemaEventHandler (registered type priorities) (noOp type) priority)

variable {type : StructType}

/-- There are handlers that do nothing, and no others. -/
structure OnlyNoOps (schemaHandlers : PrioritizedSchemaHandlers type) : Prop where
  exists_key : ∃ priority, priority ∈ schemaHandlers
  ne_nil : ∀ priority handlers, schemaHandlers.lookup priority = some handlers → handlers ≠ []
  eq_noOp : ∀ priority handlers, schemaHandlers.lookup priority = some handlers →
    ∀ handler ∈ handlers, handler = noOp type

theorem OnlyNoOps.register {schemaHandlers : Option (PrioritizedSchemaHandlers type)}
    (h : ∀ handlers, schemaHandlers = some handlers → OnlyNoOps handlers) (priority : ℤ) :
    OnlyNoOps (registerSchemaEventHandler schemaHandlers (noOp type) priority) := by
  have hold (p : ℤ) (handlers : List (SchemaHandler type))
      (hlookup : (schemaHandlers.getD ∅).lookup p = some handlers) :
      handlers ≠ [] ∧ ∀ handler ∈ handlers, handler = noOp type := by
    cases hs : schemaHandlers with
    | none =>
      rw [hs] at hlookup
      cases hlookup
    | some hs' =>
      rw [hs] at hlookup
      exact ⟨(h hs' hs).ne_nil p handlers hlookup, (h hs' hs).eq_noOp p handlers hlookup⟩
  have hnew (p : ℤ) (handlers : List (SchemaHandler type)) (hlookup :
      (registerSchemaEventHandler schemaHandlers (noOp type) priority).lookup p = some handlers) :
      handlers ≠ [] ∧ ∀ handler ∈ handlers, handler = noOp type := by
    by_cases hp : p = priority
    · obtain rfl := hp
      rw [registerSchemaEventHandler, AList.lookup_insert, Option.some.injEq] at hlookup
      obtain rfl := hlookup
      refine ⟨by simp, fun handler hmem ↦ ?_⟩
      rcases List.mem_append.mp hmem with hmem | hmem
      · cases hp : (schemaHandlers.getD ∅).lookup p with
        | none =>
          rw [hp] at hmem
          cases hmem
        | some handlers =>
          rw [hp] at hmem
          exact (hold p handlers hp).2 handler hmem
      · exact List.mem_singleton.mp hmem
    · rw [registerSchemaEventHandler, AList.lookup_insert_ne hp] at hlookup
      exact hold p handlers hlookup
  exact ⟨⟨priority, (AList.mem_insert _).mpr (.inl rfl)⟩,
    fun p handlers hp ↦ (hnew p handlers hp).1, fun p handlers hp ↦ (hnew p handlers hp).2⟩

theorem onlyNoOps_registered (priority : ℤ) (priorities : List ℤ) :
    OnlyNoOps (registerSchemaEventHandler (registered type priorities) (noOp type) priority) := by
  induction priorities generalizing priority with
  | nil => exact OnlyNoOps.register (fun _ hsome ↦ by cases hsome) priority
  | cons p priorities ih =>
    refine OnlyNoOps.register (fun handlers hsome ↦ ?_) priority
    obtain rfl := Option.some.inj hsome
    exact ih p

theorem OnlyNoOps.calls {schemaHandlers : PrioritizedSchemaHandlers type}
    (h : OnlyNoOps schemaHandlers) :
    schemaHandlers.calls ≠ [] ∧ ∀ handler ∈ schemaHandlers.calls, handler = noOp type := by
  have hmem (handler : SchemaHandler type) : handler ∈ schemaHandlers.calls ↔
      ∃ priority handlers, schemaHandlers.lookup priority = some handlers ∧ handler ∈ handlers := by
    rw [PrioritizedSchemaHandlers.calls, sortSchemaHandlers, List.mem_flatMap]
    constructor
    · rintro ⟨priority, -, hin⟩
      cases hlookup : schemaHandlers.lookup priority with
      | none =>
        rw [hlookup] at hin
        cases hin
      | some handlers =>
        rw [hlookup] at hin
        exact ⟨priority, handlers, hlookup, hin⟩
    · rintro ⟨priority, handlers, hlookup, hin⟩
      have hkey : priority ∈ schemaHandlers := by
        rw [← AList.lookup_isSome, hlookup]
        rfl
      refine ⟨priority, List.mem_mergeSort.mpr (AList.mem_keys.mp hkey), ?_⟩
      rw [hlookup]
      exact hin
  constructor
  · obtain ⟨priority, hpriority⟩ := h.exists_key
    obtain ⟨handlers, hlookup⟩ := Option.isSome_iff_exists.mp (AList.lookup_isSome.mpr hpriority)
    obtain ⟨handler, hin⟩ := List.exists_mem_of_ne_nil _ (h.ne_nil priority handlers hlookup)
    exact List.ne_nil_of_mem ((hmem handler).mpr ⟨priority, handlers, hlookup, hin⟩)
  · intro handler hhandler
    obtain ⟨priority, handlers, hlookup, hin⟩ := (hmem handler).mp hhandler
    exact h.eq_noOp priority handlers hlookup handler hin

variable {newUUID : ℕ → List String → String}

/-- **What handlers that do nothing leave in the context**: the map that the first of them
leaves. -/
theorem callHandlers_noOp (hid : ∀ i place, newUUID i place ≠ "")
    {handlers : List (SchemaHandler type)} (hne : handlers ≠ [])
    (h : ∀ handler ∈ handlers, handler = noOp type) (i : ℕ) (context : Context) (r : type.Val) :
    callHandlers newUUID i handlers context (some r) =
      (type.toMap (newUUID i) [] r).map fun w ↦ ⟨some (.map w.1), true⟩ := by
  induction handlers generalizing i context r with
  | nil => exact (hne rfl).elim
  | cons handler handlers ih =>
    rw [List.forall_mem_cons] at h
    obtain ⟨rfl, h⟩ := h
    have hcall : callHandlers newUUID i (noOp type :: handlers) context (some r) =
        type.toMap (newUUID i) [] r >>= fun w ↦
          callHandlers newUUID (i + 1) handlers ⟨some (.map w.1), true⟩ (some w.2) := rfl
    rw [hcall]
    cases hto : type.toMap (newUUID i) [] r with
    | error fault => rfl
    | ok w =>
      cases handlers with
      | nil => rfl
      | cons next handlers =>
        have hagain : type.toMap (newUUID (i + 1)) [] w.2 = .ok (w.1, w.2) :=
          type.toMap_again (hid i) [] r w.1 w.2 hto
        rw [Go.ok_bind, ih (by simp) h, hagain]

variable [FloatConversion]

/-- What becomes of a request, if there are handlers that do nothing. -/
theorem handleEventForEnv_cons (hid : ∀ i place, newUUID i place ≠ "") (priority : ℤ)
    (priorities : List ℤ) (m : Entries) (goValidation : Bool) :
    handleEventForEnv newUUID (registered type (priority :: priorities))
        ⟨some (.map m), goValidation⟩ =
      type.fromMap m >>= fun r ↦
        (type.toMap (newUUID 0) [] r).map fun w ↦ ⟨some (.map w.1), true⟩ := by
  obtain ⟨hne, hcalls⟩ := OnlyNoOps.calls (@onlyNoOps_registered type priority priorities)
  have hdispatch (handlers : PrioritizedSchemaHandlers type) :
      dispatchSchemaEventForEnv newUUID handlers ⟨some (.map m), goValidation⟩ =
        (type.fromMap m).map some >>= fun r ↦
          callHandlers newUUID 0 handlers.calls ⟨some (.map m), goValidation⟩ r := rfl
  rw [registered, handleEventForEnv, hdispatch]
  cases hr : type.fromMap m with
  | error fault => rfl
  | ok r => exact callHandlers_noOp hid hne hcalls 0 _ r

end NoOp

/-! ## Merging -/

mutual
/-- A value, as the rest of the program knows it. -/
def Iface.value : Iface → Value
  | .nil => .nil
  | .bool b => .bool b
  | .int n => .int n
  | .float q => .float q
  | .str s => .str s
  | .list vs => .list (values vs)
  | .maps ms => .list (mapValues ms)
  | .map m => .map (dict m).toList

/-- The values in a list. -/
def values : List Iface → List Value
  | [] => []
  | v :: vs => v.value :: values vs

/-- The maps in a list, as values. -/
def mapValues : List (Option (List (String × Iface))) → List Value
  | [] => []
  | none :: ms => .nil :: mapValues ms
  | some m :: ms => .map (dict m).toList :: mapValues ms

/-- A map, as a resource has it. -/
def dict : List (String × Iface) → Dict
  | [] => ∅
  | (name, v) :: m => (dict m).insert name v.value
end

/-- `copyResourceData`. -/
def copyResourceData (context : Context) (dataMap : Dict) : Dict :=
  match context.resource with
  | some (.map resourceData) => dict resourceData
  | _ => dataMap

/-- `validate`; an error of the check is given back as a validation error. -/
def validate (context : Context) (check : Dict → Go Unit) (dataMap : Dict) : Go Dict :=
  if context.goValidation then do
    check dataMap
    .ok (copyResourceData context dataMap)
  else do
    check (copyResourceData context dataMap)
    .ok (copyResourceData context dataMap)

/-- The part of `UpdateResourceInTransaction` that makes the new data of a resource. -/
def updatedData (context : Context) (validateOnUpdate : Dict → Go Unit) (dataMap resource : Dict) :
    Go Dict := do
  let dataMap ← validate context validateOnUpdate dataMap
  cloneWithUpdate resource dataMap

section Merging

theorem lookup_dict (m : Entries) (name : String) :
    (dict m).lookup name = (m.lookup name).map (·.value) := by
  induction m with
  | nil => rfl
  | cons entry m ih =>
    obtain ⟨key, v⟩ := entry
    rw [dict, List.lookup_cons]
    by_cases hname : name = key
    · obtain rfl := hname
      rw [AList.lookup_insert, beq_self_eq_true]
      rfl
    · rw [AList.lookup_insert_ne hname, ih, beq_false_of_ne hname]

/-- The same JSON sets the same. -/
theorem sets_of_sameJson {path : List String} {v w : Iface} (h : SameJson v w)
    (hsets : Sets path v.value) : Sets path w.value := by
  induction path generalizing v w with
  | nil => trivial
  | cons key path ih =>
    cases h with
    | nil | bool | str => exact hsets
    | number hv hw =>
      cases w with
      | int | float => trivial
      | nil | bool | str | list | maps | map => cases hw
    | slice hv hw =>
      cases w with
      | list | maps => trivial
      | nil | bool | int | float | str | map => cases hw
    | @map m m' h =>
      obtain ⟨⟨key, u⟩, he, rfl, hu⟩ := hsets
      have hlookup := GoMap.mem_toList.mp he
      rw [lookup_dict, Option.map_eq_some_iff] at hlookup
      obtain ⟨v, hv, rfl⟩ := hlookup
      have hrel := h key
      rw [hv] at hrel
      cases hw : m'.lookup key with
      | none =>
        rw [hw] at hrel
        cases hrel
      | some w =>
        rw [hw, Option.rel_some_some] at hrel
        refine ⟨(key, w.value), GoMap.mem_toList.mpr ?_, rfl, ih hrel hu⟩
        rw [lookup_dict, hw]
        rfl

theorem setsIn_of_sameEntries {m m' : Entries} (h : SameEntries m m') {key : String}
    {path : List String} (hsets : SetsIn (dict m) key path) : SetsIn (dict m') key path := by
  obtain ⟨u, hu, hpath⟩ := hsets
  have hmap : Sets (key :: path) (Iface.map m).value :=
    ⟨(key, u), GoMap.mem_toList.mpr hu, rfl, hpath⟩
  obtain ⟨⟨key, u'⟩, he, rfl, hpath'⟩ := sets_of_sameJson (SameJson.map h) hmap
  exact ⟨u', GoMap.mem_toList.mp he, hpath'⟩

/-- **What a request does not set stays**, when the context has the same JSON for the resource. -/
theorem under_updatedData {context : Context} {m m' : Entries}
    (hresource : context.resource = some (.map m')) (hsame : SameEntries m' m)
    {validateOnUpdate : Dict → Go Unit} {dataMap resource data : Dict}
    (h : updatedData context validateOnUpdate dataMap resource = .ok data) {key : String}
    {path : List String} (hsets : ¬ SetsIn (dict m) key path) :
    Value.under path (data.get key) = Value.under path (resource.get key) := by
  have hcopy : copyResourceData context dataMap = dict m' := by rw [copyResourceData, hresource]
  rw [updatedData, Go.bind_eq_ok] at h
  obtain ⟨merged, hmerged, h⟩ := h
  have hvalidate : merged = dict m' := by
    rw [validate, hcopy] at hmerged
    split at hmerged
    · exact (Except.ok.inj (Go.andThen_eq_ok.mp hmerged).2).symm
    · exact (Except.ok.inj (Go.andThen_eq_ok.mp hmerged).2).symm
  rw [hvalidate] at h
  exact under_cloneWithUpdate h fun hin ↦ hsets (setsIn_of_sameEntries hsame hin)

end Merging

/-! ## Requests that stay -/

section Unchanged

/-- After an event, the context has the same JSON for the resource, and what is merged into a row
leaves everything there that is not in the request. -/
structure Stays (m : Entries) (context : Context) : Prop where
  resource : ∃ m', context.resource = some (.map m') ∧ SameEntries m' m
  under : ∀ validateOnUpdate dataMap resource data,
    updatedData context validateOnUpdate dataMap resource = .ok data →
      ∀ key path, ¬ SetsIn (dict m) key path →
        Value.under path (data.get key) = Value.under path (resource.get key)

theorem stays_iff {m : Entries} {context : Context} :
    Stays m context ↔ ∃ m', context.resource = some (.map m') ∧ SameEntries m' m := by
  constructor
  · exact Stays.resource
  · intro h
    refine ⟨h, fun validateOnUpdate dataMap resource data hdata key path ↦ ?_⟩
    obtain ⟨m', hm', hsame⟩ := h
    exact under_updatedData hm' hsame hdata

variable [FloatConversion] {type : StructType}

/-- **The request stays as it is** when the event is handled. -/
def Unchanged (newUUID : ℕ → List String → String)
    (schemaHandlers : Option (PrioritizedSchemaHandlers type)) (m : Entries)
    (goValidation : Bool) : Prop :=
  ∃ context, handleEventForEnv newUUID schemaHandlers ⟨some (.map m), goValidation⟩ = .ok context ∧
    Stays m context

/-- **When handlers that do nothing leave a request as it is**: when there are none, or the request
comes back out of a structure. -/
theorem unchanged_iff {newUUID : ℕ → List String → String} (hid : ∀ i place, newUUID i place ≠ "")
    (type : StructType) (hd : type.Distinct) (priorities : List ℤ) (m : Entries)
    (goValidation : Bool) :
    Unchanged newUUID (registered type priorities) m goValidation ↔
      priorities = [] ∨ type.Intact m := by
  cases priorities with
  | nil =>
    refine iff_of_true ⟨_, rfl, stays_iff.mpr ⟨m, rfl, SameEntries.refl m⟩⟩ (.inl rfl)
  | cons priority priorities =>
    rw [or_iff_right (List.cons_ne_nil _ _), ← type.comesBack_iff (hid 0) hd []]
    unfold Unchanged
    rw [handleEventForEnv_cons hid]
    constructor
    · rintro ⟨context, hcontext, hstays⟩
      obtain ⟨r, hr, hcontext⟩ := Go.bind_eq_ok.mp hcontext
      obtain ⟨⟨m', w⟩, hw, rfl⟩ := Go.map_eq_ok.mp hcontext
      obtain ⟨m'', hm'', hsame⟩ := hstays.resource
      cases hm''
      exact ⟨r, hr, m', w, hw, hsame⟩
    · rintro ⟨r, hr, m', w, hw, hsame⟩
      refine ⟨⟨some (.map m'), true⟩, ?_, stays_iff.mpr ⟨m', rfl, hsame⟩⟩
      exact Go.bind_eq_ok.mpr ⟨r, hr, Go.map_eq_ok.mpr ⟨(m', w), hw, rfl⟩⟩

omit [FloatConversion] in
/-- Two handlers, and a request that leaves the name of a network out, which need not have one. -/
theorem unchanged_network : letI := amd64
    let network : StructType := .cons "id" (.plain .string) (.cons "name" (.maybe .string)
      (.cons "mtu" (.maybe .int) .nil))
    Unchanged (fun _ _ ↦ "new") (registered network [10, 1])
      [("id", .str "n1"), ("mtu", .float 1500)] false := by
  intro network
  have hmtu : @int64OfFloat amd64 (1500 : ℤ) = 1500 := @int64OfFloat_intCast amd64 1500 (by decide)
  refine (@unchanged_iff amd64 _ (fun _ _ ↦ by decide) network ?_ [10, 1] _ false).mpr (.inr ?_)
  · simp [network, StructType.Distinct, FieldType.Distinct, StructType.names]
  · rw [Int.cast_ofNat] at hmtu
    simp [network, StructType.Intact, FieldType.Intact, known, Kind.Fits, List.lookup_cons,
      hmtu]

omit [FloatConversion] in
/-- A network must have a name.  A handler that does nothing takes the name away when the request
leaves it out. -/
theorem not_unchanged_network : letI := amd64
    let network : StructType := .cons "id" (.plain .string) (.cons "name" (.plain .string) .nil)
    let context : Context := ⟨some (.map [("id", .str "n1"), ("name", .str "")]), true⟩
    let row : Dict := GoMap.ofList [("id", .str "n1"), ("name", .str "web")]
    handleEventForEnv (fun _ _ ↦ "new") (registered network [0])
        ⟨some (.map [("id", .str "n1")]), false⟩ = .ok context ∧
      (updatedData context (fun _ ↦ .ok ()) (GoMap.ofList [("id", .str "n1")]) row).map
        (·.get "name") = .ok (.str "") ∧
      ¬ Unchanged (fun _ _ ↦ "new") (registered network [0]) [("id", .str "n1")] false := by
  intro network context row
  have hcontext : @handleEventForEnv network (fun _ _ ↦ "new") amd64 (registered network [0])
      ⟨some (.map [("id", .str "n1")]), false⟩ = .ok context :=
    @handleEventForEnv_cons network _ amd64 (fun _ _ ↦ by decide) 0 [] _ false
  refine ⟨hcontext, by decide +kernel, ?_⟩
  rintro ⟨context', hcontext', hstays⟩
  obtain rfl := Except.ok.inj (hcontext.symm.trans hcontext')
  obtain ⟨m', hm', hsame⟩ := hstays.resource
  cases hm'
  cases hsame "name"

end Unchanged

end Gohan.Goplugin
