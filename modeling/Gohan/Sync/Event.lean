import Gohan.Lang.Text
import Gohan.Server.StateWatcher
import Gohan.Logic.Journal

/-!
# Events and what becomes of them

Every write to a resource leaves a row in the event table, in the transaction of the write itself.
A sync writer reads the rows in the order of their numbers and does to etcd what they say.  The two
meet nowhere else: all that the writer knows of a resource is the row, and it looks up the schema
again, by the path.

* `logEvent` is the first half.  It puts down the path of the resource, its JSON, and what two of
  the metadata say about the form in which it is to be stored.
* `eventOps` is the second half: the operations on etcd that `syncEvent` performs for a row, in
  their order.  It computes the key, `generatePath`, and the content, `eventContent`.

The schema of a path is found by a `range` over a Go map, and every `range` takes an order of its
own.  The functions below take the schemas in the order in which they are visited, twice where the
source looks them up twice.

What is written as a text is represented as in `Gohan.Lang.Text`.
-/

set_option autoImplicit false

namespace Gohan

open Sync

variable [TextEngine]

/-! ## The metadata of a schema -/

namespace Schema

/-- `SkipConfigPrefix`. -/
def skipConfigPrefix (s : Schema) : Go Bool :=
  match s.metadata.lookup "sync_skip_config_prefix" with
  | none => .ok false
  | some (.bool skip) => .ok skip
  | some _ => .panicf "interface conversion: interface {} is not bool"

/-- `GenerateCustomPath`. -/
def generateCustomPath (s : Schema) (data : List (String × Value)) : Go String :=
  match s.syncKeyTemplate with
  | none => .errorf "Failed to read sync_key_template from schema %v" [.str s.url]
  | some syncKeyTemplate =>
    match TextEngine.execute syncKeyTemplate data with
    | some path => .ok path
    | none => .errorf "[Error (where: execution)]"

/-- `syncEventNeeded`. -/
def syncEventNeeded (s : Schema) : Bool := s.metadata.get "nosync" != .bool true

/-- The entry `sync_plain` of the metadata. -/
def syncPlain (s : Schema) : Bool :=
  match s.metadata.lookup "sync_plain" with
  | some (.bool plain) => plain
  | _ => false

/-- `getSyncProperty`. -/
def syncProperty (s : Schema) : String :=
  ((s.metadata.lookup "sync_property").bind Value.string?).getD ""

/-- The test of `GetSchemaByURLPath`. -/
def Matches (s : Schema) (path : String) : Prop :=
  hasPrefix (path ++ "/") (s.url ++ "/") = true

instance (s : Schema) (path : String) : Decidable (s.Matches path) :=
  inferInstanceAs (Decidable (_ = true))

end Schema

namespace Sync

/-- One of the orders in which a `range` can visit the schemas. -/
abbrev Order (schemas : List Schema) := {order : List Schema // order.Perm schemas}

/-- `GetSchemaByURLPath`, over the schemas in the order they are visited. -/
def getSchemaByURLPath (schemas : List Schema) (path : String) : Option Schema :=
  schemas.find? fun schema ↦ decide (schema.Matches path)

omit [TextEngine] in
theorem hasPrefix_append (s p : String) : hasPrefix (p ++ s) p = true := by
  rw [hasPrefix, List.isPrefixOf_iff_prefix]
  exact ⟨s.toList, String.toList_append.symm⟩

omit [TextEngine] in
theorem of_getSchemaByURLPath {schemas : List Schema} {path : String} {c : Schema}
    (h : getSchemaByURLPath schemas path = some c) : c ∈ schemas ∧ c.Matches path := by
  rw [getSchemaByURLPath] at h
  exact ⟨List.mem_of_find?_eq_some h, by simpa using List.find?_some h⟩

omit [TextEngine] in
/-- In one order or another, every schema that matches a path is found by it. -/
theorem exists_order_getSchemaByURLPath {schemas : List Schema} {path : String} {c : Schema}
    (hc : c ∈ schemas) (hmatch : c.Matches path) :
    ∃ order : List Schema, order.Perm schemas ∧ getSchemaByURLPath order path = some c := by
  obtain ⟨before, after, rfl⟩ := List.append_of_mem hc
  exact ⟨c :: (before ++ after), List.perm_middle.symm,
    List.find?_cons_of_pos (decide_eq_true hmatch)⟩

omit [TextEngine] in
/-- If a schema matches, one is found in every order. -/
theorem exists_getSchemaByURLPath {schemas order : List Schema} {path : String} {c : Schema}
    (hc : c ∈ schemas) (hmatch : c.Matches path) (horder : order.Perm schemas) :
    ∃ c' ∈ schemas, c'.Matches path ∧ getSchemaByURLPath order path = some c' := by
  have hsome : (getSchemaByURLPath order path).isSome :=
    List.find?_isSome.mpr ⟨c, horder.mem_iff.mpr hc, decide_eq_true hmatch⟩
  obtain ⟨c', hc'⟩ := Option.isSome_iff_exists.mp hsome
  have hfound := of_getSchemaByURLPath hc'
  exact ⟨c', horder.mem_iff.mp hfound.1, hfound.2, hc'⟩

/-! ## Logging -/

/-- A resource, as the logger sees it. -/
structure Resource where
  schema : Schema
  properties : Dict

namespace Resource

/-- `ID`. -/
def ID (resource : Resource) : String :=
  match resource.properties.get "id" with
  | .str id => id
  | v => TextEngine.sprint v

/-- `Path`. -/
def path (resource : Resource) : String := resource.schema.url ++ "/" ++ resource.ID

/-- `JSONString`: the value whose text it is. -/
def json (resource : Resource) : Value := .map resource.properties.toList

/-- The path of a resource leads to its schema. -/
theorem matches_path (resource : Resource) : resource.schema.Matches resource.path := by
  have happend : resource.path ++ "/" = (resource.schema.url ++ "/") ++ (resource.ID ++ "/") := by
    rw [path, String.append_assoc]
  rw [Schema.Matches, happend]
  exact hasPrefix_append _ _

end Resource

/-- The types of events. -/
inductive EventType where
  | create
  | update
  | delete
  deriving DecidableEq

/-- A row of the event table. -/
structure EventRow where
  id : ℕ
  type : EventType
  path : String
  version : ℤ
  body : Value
  syncPlain : Bool
  syncProperty : String
  deriving DecidableEq

/-- `logEvent`: the row it creates under the number `id`, if it creates one. -/
def logEvent (id : ℕ) (eventType : EventType) (resource : Resource) (version : ℤ) :
    Option EventRow :=
  if resource.schema.syncEventNeeded then
    some
      { id
        type := eventType
        path := resource.path
        version
        body := resource.json
        syncPlain := resource.schema.syncPlain
        syncProperty := resource.schema.syncProperty }
  else none

theorem logEvent_eq_some {id : ℕ} {eventType : EventType} {resource : Resource} {version : ℤ}
    {row : EventRow} (h : logEvent id eventType resource version = some row) :
    row = ⟨id, eventType, resource.path, version, resource.json, resource.schema.syncPlain,
      resource.schema.syncProperty⟩ := by
  rw [logEvent] at h
  split at h <;> cases h
  rfl

theorem needed_of_logEvent_eq_some {id : ℕ} {eventType : EventType} {resource : Resource}
    {version : ℤ} {row : EventRow} (h : logEvent id eventType resource version = some row) :
    resource.schema.syncEventNeeded = true := by
  by_contra hneeded
  rw [logEvent, if_neg hneeded] at h
  cases h

theorem not_needed_of_logEvent_eq_none {id : ℕ} {eventType : EventType} {resource : Resource}
    {version : ℤ} (h : logEvent id eventType resource version = none) :
    ¬ resource.schema.syncEventNeeded = true := by
  intro hneeded
  rw [logEvent, if_pos hneeded] at h
  cases h

/-! ## The key and the content -/

/-- The prefix of the keys that have no template. -/
def configPrefix : String := "/config"

/-- `generatePath`, once the schema is found. -/
def eventPath (curSchema : Schema) (resourcePath : String) (body : Value) : Go String := do
  let path :=
    match curSchema.syncKeyTemplate with
    | none => resourcePath
    | some _ =>
      match body.unmarshalMap >>= curSchema.generateCustomPath with
      | .ok path => path
      | .error _ => resourcePath
  let skip ← curSchema.skipConfigPrefix
  return if skip then path else configPrefix ++ path

/-- `generatePath`. -/
def generatePath (schemas : List Schema) (resourcePath : String) (body : Value) : Go String :=
  match getSchemaByURLPath schemas resourcePath with
  | none => .panicf "runtime error: invalid memory address or nil pointer dereference"
  | some curSchema => eventPath curSchema resourcePath body

/-- The path below which a deletion removes what the backend has reported, once the schema is
found.  A body that is no map is read as none. -/
def deletePath (resourceSchema : Schema) (resourcePath : String) (body : Value) : Go String :=
  match resourceSchema.syncKeyTemplate with
  | none => .ok resourcePath
  | some _ =>
    match resourceSchema.generateCustomPath (body.unmarshalMap.toOption.getD []) with
    | .ok path => .ok path
    | .error _ => .errorf "Delete from sync failed: %s - generating of custom path failed"

/-- What is stored under a key: a JSON text, a string as it is, or the JSON of the text and the
version. -/
inductive Content where
  | json (v : Value)
  | plain (s : String)
  | object (body : Value) (version : ℤ)
  deriving DecidableEq

/-- Is the string to be stored empty?  A JSON text never is. -/
def Content.isEmpty : Content → Bool
  | .plain s => s == ""
  | _ => false

/-- The value whose JSON is the content of a create or update event: the body, or one property. -/
def eventTarget (event : EventRow) : Go Value :=
  if event.syncProperty = "" then .ok event.body
  else do
    let data ← event.body.unmarshalMap
    match data.lookup event.syncProperty with
    | none => .errorf "could not find property `%s`" [.str event.syncProperty]
    | some target => return target

/-- The content of a create or update event. -/
def eventContent (event : EventRow) : Go Content := do
  let content ← eventTarget event
  return if event.syncPlain then
      match content.decode with
      | .str s => .plain s
      | _ => .json content
    else .object content event.version

/-! ## The operations of an event -/

/-- A put, or a deletion when there is no value.  The errors of an operation that is not required
are logged and then ignored. -/
structure EtcdOp where
  key : String
  value : Option Content
  required : Bool
  deriving DecidableEq

/-- The operation as an entry of etcd's journal, under the number of the event. -/
def EtcdOp.entry (o : EtcdOp) (id : ℕ) : Journal.Entry String Content := ⟨id, o.key, o.value⟩

/-- What `syncEvent` does to etcd for an event, in order, before it deletes the row.  The schemas
are visited in the order `first` for the key, and again in the order `second` for a deletion. -/
def eventOps (first second : List Schema) (event : EventRow) : Go (List EtcdOp) := do
  let path ← generatePath first event.path event.body
  match event.type with
  | .delete =>
    match getSchemaByURLPath second event.path with
    | none => .panicf "runtime error: invalid memory address or nil pointer dereference"
    | some resourceSchema => do
      let deletePath ← deletePath resourceSchema event.path event.body
      return [⟨statePrefix ++ deletePath, none, false⟩,
        ⟨monitoringPrefix ++ deletePath, none, false⟩, ⟨path, none, true⟩]
  | _ => do
    let content ← eventContent event
    return if content.isEmpty then [] else [⟨path, some content, true⟩]

/-! ## What an event asks for

An event is for one key: the one at which it stores its content or, for a deletion, nothing.  The
deletions below the two prefixes of the backend's reports come along with it, and nobody waits for
them.  The key depends on the schema that is found, and so, where several schemas match the path, on
the order of the search. -/

/-- A key that is not below the prefixes of what the backend reports. -/
def ConfigKey (key : String) : Prop :=
  hasPrefix key statePrefix = false ∧ hasPrefix key monitoringPrefix = false

instance (key : String) : Decidable (ConfigKey key) :=
  inferInstanceAs (Decidable (_ ∧ _))

/-- What the key of an event is to hold. -/
def EventRow.value (event : EventRow) : Go (Option Content) :=
  match event.type with
  | .delete => .ok none
  | _ => (eventContent event).map some

/-- The key that a schema which matches a path gives to it. -/
def keyOf? (schemas : List Schema) (path : String) (body : Value) : Option String :=
  schemas.findSome? fun c ↦
    if c.Matches path then (eventPath c path body).toOption else none

/-- All schemas that match the path and give it a key give it the same one. -/
def Unambiguous (schemas : List Schema) (path : String) (body : Value) : Prop :=
  ∀ c ∈ schemas, ∀ c' ∈ schemas, c.Matches path → c'.Matches path →
    ∀ key key', eventPath c path body = .ok key → eventPath c' path body = .ok key' → key = key'

/-- The key that an event is written under. -/
def EventRow.key? (schemas : List Schema) (event : EventRow) : Option String :=
  keyOf? schemas event.path event.body

/-- The path of an event leads back to one schema. -/
def EventRow.Unambiguous (schemas : List Schema) (event : EventRow) : Prop :=
  Sync.Unambiguous schemas event.path event.body

/-- The write to its key that an event stands for.  An empty string is not written. -/
def EventRow.write? (schemas : List Schema) (event : EventRow) :
    Option (Journal.Entry String Content) :=
  match event.key? schemas, event.value with
  | some path, .ok value =>
    if value.any Content.isEmpty then none else some ⟨event.id, path, value⟩
  | _, _ => none

section OfLogEvent

variable {schemas : List Schema} {id : ℕ} {eventType : EventType} {resource : Resource}
  {version : ℤ} {row : EventRow}

/-- What is logged has the key that the schemas give to the resource. -/
theorem key?_of_logEvent (h : logEvent id eventType resource version = some row) :
    row.key? schemas = keyOf? schemas resource.path resource.json := by
  cases logEvent_eq_some h
  rfl

theorem unambiguous_of_logEvent (h : logEvent id eventType resource version = some row) :
    row.Unambiguous schemas ↔ Unambiguous schemas resource.path resource.json := by
  cases logEvent_eq_some h
  exact Iff.rfl

theorem EventRow.value_of_ne_delete (htype : row.type ≠ .delete) :
    row.value = (eventContent row).map some := by
  rw [EventRow.value]
  cases h : row.type with
  | delete => exact absurd h htype
  | _ => rfl

theorem value_of_logEvent_delete (h : logEvent id .delete resource version = some row) :
    row.value = .ok none := by
  cases logEvent_eq_some h
  rfl

end OfLogEvent

theorem EventRow.id_eq_of_write? {schemas : List Schema} {event : EventRow}
    {w : Journal.Entry String Content} (h : event.write? schemas = some w) : w.id = event.id := by
  rw [EventRow.write?] at h
  split at h
  · split at h <;> cases h
    rfl
  · cases h

theorem EventRow.key?_eq_of_write? {schemas : List Schema} {event : EventRow}
    {w : Journal.Entry String Content} (h : event.write? schemas = some w) :
    event.key? schemas = some w.key := by
  rw [EventRow.write?] at h
  split at h
  · next hkey _ =>
    split at h <;> cases h
    exact hkey
  · cases h

/-- Where a key is computed, some schema gives one. -/
theorem exists_keyOf?_of_generatePath {schemas order : List Schema} {path key : String}
    {body : Value} (horder : order.Perm schemas) (hkey : generatePath order path body = .ok key) :
    ∃ c ∈ schemas, c.Matches path ∧ eventPath c path body = .ok key ∧
      (keyOf? schemas path body).isSome := by
  rw [generatePath] at hkey
  split at hkey
  · cases hkey
  · next c hfound =>
    obtain ⟨hmem, hmatch⟩ := of_getSchemaByURLPath hfound
    have hc : c ∈ schemas := horder.mem_iff.mp hmem
    refine ⟨c, hc, hmatch, hkey, ?_⟩
    rw [keyOf?, List.findSome?_isSome_iff]
    exact ⟨c, hc, by rw [if_pos hmatch, hkey]; rfl⟩

/-- An unambiguous event has the key that is computed for it, in whichever order. -/
theorem EventRow.Unambiguous.key?_eq {schemas order : List Schema} {event : EventRow}
    {path : String} (h : event.Unambiguous schemas) (horder : order.Perm schemas)
    (hpath : generatePath order event.path event.body = .ok path) :
    event.key? schemas = some path := by
  obtain ⟨c, hc, hmatch, hgives, hsome⟩ := exists_keyOf?_of_generatePath horder hpath
  obtain ⟨key, hkey⟩ := Option.isSome_iff_exists.mp hsome
  obtain ⟨c', hc', hgives'⟩ := List.exists_of_findSome?_eq_some hkey
  split at hgives'
  · next hmatch' =>
    cases hpath' : eventPath c' event.path event.body with
    | ok key' =>
      rw [hpath'] at hgives'
      cases hgives'
      rw [EventRow.key?, hkey, h c' hc' c hc hmatch' hmatch _ _ hpath' hgives]
    | error fault =>
      rw [hpath'] at hgives'
      cases hgives'
  · cases hgives'

/-! ## When they can be computed -/

theorem exists_eventPath {s : Schema} {path : String} {body : Value} :
    (∃ key, eventPath s path body = .ok key) ↔
      ∀ v, s.metadata.lookup "sync_skip_config_prefix" = some v → ∃ skip, v = .bool skip := by
  have hskip : (∃ key, eventPath s path body = .ok key) ↔
      ∃ skip, s.skipConfigPrefix = .ok skip := by
    rw [eventPath]
    cases s.skipConfigPrefix <;> simp [bind, Except.bind, pure, Except.pure]
  rw [hskip, Schema.skipConfigPrefix]
  cases s.metadata.lookup "sync_skip_config_prefix" with
  | none => simp
  | some v => cases v <;> simp

theorem exists_deletePath {s : Schema} {path : String} {body : Value} :
    (∃ key, deletePath s path body = .ok key) ↔
      ∀ t, s.syncKeyTemplate = some t →
        (TextEngine.execute t (body.unmarshalMap.toOption.getD [])).isSome := by
  rw [deletePath, Schema.generateCustomPath]
  cases s.syncKeyTemplate with
  | none => simp
  | some t =>
    cases h : TextEngine.execute t (body.unmarshalMap.toOption.getD []) with
    | none => simp [h, Go.errorf]
    | some path => simp [h]

theorem eventTarget_eq_ok {event : EventRow} {m : List (String × Value)} {v : Value}
    (hbody : event.body = .map m) (hproperty : event.syncProperty ≠ "") :
    eventTarget event = .ok v ↔ ∃ u, m.lookup event.syncProperty = some u ∧ v = u.decode := by
  rw [eventTarget, if_neg hproperty, hbody]
  simp only [Value.unmarshalMap, Go.ok_bind, Value.lookup_decodeMap]
  cases m.lookup event.syncProperty with
  | none => simp
  | some u => simp [pure, Except.pure, eq_comm]

theorem exists_eventContent {event : EventRow} {m : List (String × Value)}
    (hbody : event.body = .map m) :
    (∃ content, eventContent event = .ok content) ↔
      event.syncProperty = "" ∨ (m.lookup event.syncProperty).isSome := by
  have htarget : (∃ content, eventContent event = .ok content) ↔
      ∃ v, eventTarget event = .ok v := by
    rw [eventContent]
    cases eventTarget event <;> simp [bind, Except.bind, pure, Except.pure]
  rw [htarget]
  by_cases hproperty : event.syncProperty = ""
  · simp [eventTarget, hproperty]
  · simp only [eventTarget_eq_ok hbody hproperty, hproperty, false_or, Option.isSome_iff_exists]
    constructor
    · rintro ⟨v, u, hu, rfl⟩
      exact ⟨u, hu⟩
    · rintro ⟨u, hu⟩
      exact ⟨_, u, hu, rfl⟩

/-- The operations of a create or update event, taken apart. -/
theorem eventOps_eq_ok_of_ne_delete {first second : List Schema} {event : EventRow}
    {ops : List EtcdOp} (htype : event.type ≠ .delete) :
    eventOps first second event = .ok ops ↔
      ∃ path content, generatePath first event.path event.body = .ok path ∧
        eventContent event = .ok content ∧
        ops = if content.isEmpty then [] else [⟨path, some content, true⟩] := by
  rw [eventOps]
  cases h : event.type with
  | delete => exact absurd h htype
  | _ =>
    simp only [Go.bind_eq_ok, pure, Except.pure, Except.ok.injEq]
    constructor
    · rintro ⟨path, hpath, content, hcontent, rfl⟩
      exact ⟨path, content, hpath, hcontent, rfl⟩
    · rintro ⟨path, content, hpath, hcontent, rfl⟩
      exact ⟨path, hpath, content, hcontent, rfl⟩

/-- The operations of a delete event, taken apart. -/
theorem eventOps_eq_ok_of_delete {first second : List Schema} {event : EventRow}
    {ops : List EtcdOp} (htype : event.type = .delete) :
    eventOps first second event = .ok ops ↔
      ∃ path s below, generatePath first event.path event.body = .ok path ∧
        getSchemaByURLPath second event.path = some s ∧
        deletePath s event.path event.body = .ok below ∧
        ops = [⟨statePrefix ++ below, none, false⟩, ⟨monitoringPrefix ++ below, none, false⟩,
          ⟨path, none, true⟩] := by
  rw [eventOps, htype, Go.bind_eq_ok]
  cases getSchemaByURLPath second event.path with
  | none => simp
  | some s =>
    simp only [Go.bind_eq_ok, pure, Except.pure, Except.ok.injEq]
    constructor
    · rintro ⟨path, hpath, below, hbelow, rfl⟩
      exact ⟨path, s, below, hpath, rfl, hbelow, rfl⟩
    · rintro ⟨path, s', below, hpath, hs, hbelow, rfl⟩
      cases hs
      exact ⟨path, hpath, below, hbelow, rfl⟩

theorem exists_generatePath_of_eventOps {first second : List Schema} {event : EventRow}
    {ops : List EtcdOp} (h : eventOps first second event = .ok ops) :
    ∃ path, generatePath first event.path event.body = .ok path := by
  rw [eventOps, Go.bind_eq_ok] at h
  obtain ⟨path, hpath, -⟩ := h
  exact ⟨path, hpath⟩

/-! ## The one operation that counts -/

section Required

variable {schemas first second : List Schema} {event : EventRow} {ops : List EtcdOp} {o : EtcdOp}

/-- Once its operations have been computed, it is clear what the event asks for. -/
theorem exists_value_of_eventOps (h : eventOps first second event = .ok ops) :
    ∃ value, event.value = .ok value := by
  rw [EventRow.value]
  cases htype : event.type with
  | delete => exact ⟨none, rfl⟩
  | _ =>
    obtain ⟨path, content, -, hcontent, -⟩ :=
      (eventOps_eq_ok_of_ne_delete (by rw [htype]; nofun)).mp h
    exact ⟨some content, by rw [hcontent]; rfl⟩

/-- The operations that are not required leave the keys of the events alone. -/
theorem not_configKey_of_eventOps (h : eventOps first second event = .ok ops) (ho : o ∈ ops)
    (hrequired : o.required = false) : ¬ ConfigKey o.key := by
  by_cases htype : event.type = .delete
  · obtain ⟨path, s, below, -, -, -, rfl⟩ := (eventOps_eq_ok_of_delete htype).mp h
    simp only [List.mem_cons, List.not_mem_nil, or_false] at ho
    rcases ho with rfl | rfl | rfl
    · simp [ConfigKey, hasPrefix_append]
    · simp [ConfigKey, hasPrefix_append]
    · cases hrequired
  · obtain ⟨path, content, -, -, rfl⟩ := (eventOps_eq_ok_of_ne_delete htype).mp h
    split at ho
    · cases ho
    · cases List.mem_singleton.mp ho
      cases hrequired

/-- **The required operation of an event is its write.** -/
theorem exists_required_iff (hevent : event.Unambiguous schemas) (hfirst : first.Perm schemas)
    (h : eventOps first second event = .ok ops) {w : Journal.Entry String Content} :
    (∃ o ∈ ops, o.required = true ∧ w = o.entry event.id) ↔ event.write? schemas = some w := by
  rw [EventRow.write?]
  by_cases htype : event.type = .delete
  · obtain ⟨path, s, below, hpath, -, -, rfl⟩ := (eventOps_eq_ok_of_delete htype).mp h
    rw [hevent.key?_eq hfirst hpath, EventRow.value, htype]
    constructor
    · rintro ⟨o, ho, hrequired, rfl⟩
      simp only [List.mem_cons, List.not_mem_nil, or_false] at ho
      rcases ho with rfl | rfl | rfl
      · cases hrequired
      · cases hrequired
      · rfl
    · intro hw
      cases hw
      exact ⟨⟨path, none, true⟩, by simp, rfl, rfl⟩
  · obtain ⟨path, content, hpath, hcontent, rfl⟩ := (eventOps_eq_ok_of_ne_delete htype).mp h
    have hvalue : event.value = .ok (some content) := by
      rw [EventRow.value, hcontent]
      cases htype' : event.type <;> first | rfl | exact absurd htype' htype
    rw [hevent.key?_eq hfirst hpath, hvalue]
    have hany : (some content).any Content.isEmpty = content.isEmpty := rfl
    simp only [hany]
    cases content.isEmpty with
    | true => simp
    | false =>
      constructor
      · rintro ⟨o, ho, -, rfl⟩
        cases List.mem_singleton.mp ho
        rfl
      · intro hw
        cases hw
        exact ⟨_, List.mem_singleton_self _, rfl, rfl⟩

/-- Once its operations have been computed, it is clear which key it is for. -/
theorem isSome_key?_of_eventOps (hfirst : first.Perm schemas)
    (h : eventOps first second event = .ok ops) : (event.key? schemas).isSome := by
  obtain ⟨path, hpath⟩ := exists_generatePath_of_eventOps h
  obtain ⟨-, -, -, -, hsome⟩ := exists_keyOf?_of_generatePath hfirst hpath
  exact hsome

/-- **Performing the operations of an event** does to the keys of events what its write does. -/
theorem replay_eventOps (hevent : event.Unambiguous schemas) (hfirst : first.Perm schemas)
    (h : eventOps first second event = .ok ops) (etcd : String → Option Content)
    (es : List (Journal.Entry String Content)) {k : String} (hk : ConfigKey k) :
    Journal.replay (Journal.replay etcd (ops.map (·.entry event.id))) es k =
      Journal.replay etcd ((event.write? schemas).toList ++ es) k := by
  rw [Journal.replay_append]
  refine Journal.replay_congr (Journal.replay_eq_replay ?_ ?_ ?_) es
  · cases event.write? schemas <;> simp
  · rintro e he rfl
    obtain ⟨o, ho, rfl⟩ := List.mem_map.mp he
    have hrequired : o.required = true := by
      by_contra hnot
      exact not_configKey_of_eventOps h ho (by simpa using hnot) hk
    rw [(exists_required_iff hevent hfirst h).mp ⟨o, ho, hrequired, rfl⟩]
    exact List.mem_singleton_self _
  · rintro w hw rfl
    obtain ⟨o, ho, -, rfl⟩ := (exists_required_iff hevent hfirst h).mpr (Option.mem_toList.mp hw)
    cases hlast : Journal.last? (o.entry event.id).key (ops.map (·.entry event.id)) with
    | none =>
      exact absurd rfl (Journal.last?_eq_none_iff.mp hlast _ (List.mem_map.mpr ⟨o, ho, rfl⟩))
    | some d =>
      obtain ⟨o', -, hd⟩ := List.mem_map.mp (Journal.of_last?_eq_some hlast).1
      exact ⟨d, rfl, by rw [← hd]; exact Nat.le_refl _⟩

end Required

end Sync

end Gohan
