import Gohan.Db.State
import Gohan.Lang.Text
import Gohan.Logic.Machine

/-!
# The state watcher

A backend reports about a resource by an event: what state the resource is in, which version of its
configuration the report is about, or something to be monitored.  The watcher finds the resource
from the key of the event and writes the report into the row, if the guards let it through.

For a state report the guards are that the row is not yet up to date, and that the version reported
is not older than the one the row has.  Nothing compares the version reported with the version of
the configuration.  For a monitoring report they are that the row is up to date and that the report
is about just that version.

`stateUpdate_of_accepts` and `stateUpdate_of_not_accepts` say once what a state report can do to the
store, and so do the two for monitoring; the invariant and the laws of the five columns are derived
from them.
-/

set_option autoImplicit false

namespace Gohan

/-! ## Finding the resource of an event -/

/-- Where backends report the state of resources. -/
def statePrefix : String := "/state_watch/state"

/-- Where backends report what they monitor. -/
def monitoringPrefix : String := "/state_watch/monitoring"

/-- `checkIfPathMatchesSyncKeyTemplate`: the parts are the same, but for the variables of the
template. -/
def checkIfPathMatchesSyncKeyTemplate (path syncKeyTemplate : String) : Bool :=
  let syncKeyTemplateSplit := splitPath syncKeyTemplate
  let schemaPathSplit := splitPath path
  schemaPathSplit.length == syncKeyTemplateSplit.length &&
    (syncKeyTemplateSplit.zip schemaPathSplit).all fun e ↦ hasPrefix e.1 "\x7b\x7b" || e.2 == e.1

/-- `GetSchemaByPath`, over the schemas in the order they are visited. -/
def getSchemaByPath (schemas : List Schema) (path : String) : Option Schema :=
  schemas.find? fun schema ↦
    match schema.syncKeyTemplate with
    | some syncKeyTemplate => checkIfPathMatchesSyncKeyTemplate path syncKeyTemplate
    | none => hasPrefix path schema.url

/-- `GetResourceIDFromPath`. -/
def Schema.getResourceIDFromPath (schema : Schema) (schemaPath : String) : String :=
  match schema.syncKeyTemplate with
  | none => trimPrefix schemaPath (schema.url ++ "/")
  | some syncKeyTemplate =>
    let syncKeyTemplateSplit := splitPath syncKeyTemplate
    let schemaPathSplit := splitPath schemaPath
    if schemaPathSplit.length ≥ syncKeyTemplateSplit.length then
      match (syncKeyTemplateSplit.zip schemaPathSplit).find? (·.1 == "{{id}}") with
      | some e => e.2
      | none => ""
    else trimPrefix schemaPath (schema.url ++ "/")

/-! ## Events -/

/-- `Event`: what has happened to a key, and its value. -/
structure Event where
  Action : String
  Key : String
  Data : Dict

/-- What the surroundings of a transaction do: the extension called before the row is written, which
may change the resource's properties or refuse; the encoding of the properties, which may fail; and
the extension called after. -/
structure Hooks where
  pre : Dict → Go Dict
  encode : Dict → Go Dict
  post : Dict → Go Unit

variable [FloatConversion]

/-- The version an event carries, as it is compared and stored. -/
def Event.version? (event : Event) : Option ℤ :=
  ((event.Data.get "version").float64?).map int64OfFloat

/-- The columns of a state report over those of the row. -/
def Event.reported (event : Event) (stateVersion : ℤ) (cur : ResourceState) : ResourceState :=
  { cur with
    stateVersion
    error := (event.Data.get "error").string?.getD cur.error
    state := (event.Data.get "state").string?.getD cur.state }

/-- The transaction of `StateUpdate`. -/
def stateUpdateTx (curSchema : Schema) (resourceID : String) (event : Event) (hooks : Hooks)
    (db : Store) : Go Store := do
  let cur ← db.fetch curSchema resourceID
  if cur.state.stateVersion = cur.state.configVersion then .ok db
  else
    match event.version? with
    | none => .errorf "No version in state information"
    | some stateVersion =>
      if stateVersion < cur.state.stateVersion then .ok db
      else do
        let resource ← hooks.pre cur.data
        let columns ← hooks.encode resource
        let db := db.stateUpdate curSchema resourceID columns
          (event.reported stateVersion cur.state)
        hooks.post resource
        .ok db

/-- The transaction of `MonitoringUpdate`. -/
def monitoringUpdateTx (curSchema : Schema) (resourceID : String) (event : Event) (hooks : Hooks)
    (db : Store) : Go Store := do
  let cur ← db.fetch curSchema resourceID
  if cur.state.configVersion ≠ cur.state.stateVersion then .ok db
  else
    match event.version? with
    | none => .errorf "No version in monitoring information"
    | some monitoringVersion =>
      if cur.state.configVersion ≠ monitoringVersion then .ok db
      else
        match (event.Data.get "monitoring").string? with
        | none => .errorf "No monitoring in monitoring information"
        | some monitoring => do
          let resource ← hooks.pre cur.data
          let columns ← hooks.encode resource
          let db := db.stateUpdate curSchema resourceID columns { cur.state with monitoring }
          hooks.post resource
          .ok db

/-- The schema and the identifier a key is about, if the schema is state-versioned. -/
def target (schemas : List Schema) (keyPrefix : String) (event : Event) :
    Option (Schema × String) :=
  let schemaPath := trimPrefix event.Key keyPrefix
  match getSchemaByPath schemas schemaPath with
  | none => none
  | some curSchema =>
    if !curSchema.stateVersioning then none
    else some (curSchema, curSchema.getResourceIDFromPath schemaPath)

/-- `StateUpdate`. -/
def stateUpdate (schemas : List Schema) (event : Event) (hooks : Hooks) (db : Store) :
    Store × Go Unit :=
  match target schemas statePrefix event with
  | none => (db, .ok ())
  | some (curSchema, resourceID) => db.withinTx (stateUpdateTx curSchema resourceID event hooks)

/-- `MonitoringUpdate`. -/
def monitoringUpdate (schemas : List Schema) (event : Event) (hooks : Hooks) (db : Store) :
    Store × Go Unit :=
  match target schemas monitoringPrefix event with
  | none => (db, .ok ())
  | some (curSchema, resourceID) =>
    db.withinTx (monitoringUpdateTx curSchema resourceID event hooks)

/-! ## What an event does -/

/-- The surroundings let a row with these properties be written, with these columns. -/
def Hooks.Write (hooks : Hooks) (data columns : Dict) : Prop :=
  ∃ resource, hooks.pre data = .ok resource ∧ hooks.encode resource = .ok columns ∧
    hooks.post resource = .ok ()

section Spec

variable {schemas : List Schema} {event : Event} {hooks : Hooks} {db : Store}

/-- The event is a state report that is written: which row it is about, that the row is not up to
date, and that the version reported is not older than the row's. -/
structure AcceptsState (schemas : List Schema) (event : Event) (hooks : Hooks) (db : Store)
    (s : Schema) (resourceID : String) (row : Row) (version : ℤ) (columns : Dict) : Prop where
  about : target schemas statePrefix event = some (s, resourceID)
  found : db s.id resourceID = some row
  outdated : row.state.stateVersion ≠ row.state.configVersion
  carries : event.version? = some version
  notOlder : row.state.stateVersion ≤ version
  written : hooks.Write row.data columns

/-- The event is a monitoring report that is written: which row it is about, and that the row is up
to date with just the version reported about. -/
structure AcceptsMonitoring (schemas : List Schema) (event : Event) (hooks : Hooks) (db : Store)
    (s : Schema) (resourceID : String) (row : Row) (monitoring : String) (columns : Dict) :
    Prop where
  about : target schemas monitoringPrefix event = some (s, resourceID)
  found : db s.id resourceID = some row
  upToDate : row.state.stateVersion = row.state.configVersion
  carries : event.version? = some row.state.configVersion
  reports : (event.Data.get "monitoring").string? = some monitoring
  written : hooks.Write row.data columns

omit [FloatConversion] in
theorem stateVersioning_of_target {keyPrefix : String} {s : Schema} {resourceID : String}
    (h : target schemas keyPrefix event = some (s, resourceID)) : s.stateVersioning = true := by
  rw [target] at h
  split at h
  · simp at h
  · split at h
    · simp at h
    · next hs =>
      cases h
      simpa using hs

variable {s : Schema} {resourceID : String} {row : Row} {version : ℤ} {monitoring : String}
  {columns : Dict}

/-- **A state report that is written** changes one row: its properties to what the extension made of
them, and three columns of its state to what is reported. -/
theorem stateUpdate_of_accepts
    (h : AcceptsState schemas event hooks db s resourceID row version columns) :
    stateUpdate schemas event hooks db =
      (db.set s.id resourceID (some ⟨columns, event.reported version row.state⟩), .ok ()) := by
  obtain ⟨resource, hpre, hencode, hpost⟩ := h.written
  simp only [stateUpdate, h.about]
  refine Store.withinTx_of_ok ?_
  simp only [stateUpdateTx, Store.fetch_eq_ok.mpr h.found, h.carries, bind, Except.bind,
    if_neg h.outdated, if_neg (Int.not_lt.mpr h.notOlder), hpre, hencode, hpost, Store.stateUpdate,
    h.found, stateVersioning_of_target h.about]
  rfl

/-- Any other state report leaves the store as it is. -/
theorem stateUpdate_of_not_accepts (h : ∀ s resourceID row version columns,
    ¬ AcceptsState schemas event hooks db s resourceID row version columns) :
    (stateUpdate schemas event hooks db).1 = db := by
  rw [stateUpdate]
  split
  · rfl
  · next s resourceID htarget =>
    refine Store.withinTx_of_not_ok fun db' hok ↦ ?_
    rw [stateUpdateTx, Go.bind_eq_ok] at hok
    obtain ⟨row, hrow, hok⟩ := hok
    rw [Store.fetch_eq_ok] at hrow
    split at hok
    · exact (Except.ok.inj hok).symm
    · next houtdated =>
      split at hok
      · simp at hok
      · next version hversion =>
        split at hok
        · exact (Except.ok.inj hok).symm
        · next hnewer =>
          simp only [Go.bind_eq_ok] at hok
          obtain ⟨resource, hpre, columns, hencode, _, hpost, _⟩ := hok
          exact absurd ⟨htarget, hrow, houtdated, hversion, Int.not_lt.mp hnewer, resource, hpre,
            hencode, hpost⟩ (h s resourceID row version columns)

/-- **A monitoring report that is written** changes one row: its properties to what the extension
made of them, and what is monitored. -/
theorem monitoringUpdate_of_accepts
    (h : AcceptsMonitoring schemas event hooks db s resourceID row monitoring columns) :
    monitoringUpdate schemas event hooks db =
      (db.set s.id resourceID (some ⟨columns, { row.state with monitoring }⟩), .ok ()) := by
  obtain ⟨resource, hpre, hencode, hpost⟩ := h.written
  simp only [monitoringUpdate, h.about]
  refine Store.withinTx_of_ok ?_
  simp only [monitoringUpdateTx, Store.fetch_eq_ok.mpr h.found, h.carries, bind, Except.bind,
    h.upToDate, ne_eq, not_true_eq_false, if_false, h.reports, hpre, hencode, hpost,
    Store.stateUpdate, h.found, stateVersioning_of_target h.about]
  rfl

/-- Any other monitoring report leaves the store as it is. -/
theorem monitoringUpdate_of_not_accepts (h : ∀ s resourceID row monitoring columns,
    ¬ AcceptsMonitoring schemas event hooks db s resourceID row monitoring columns) :
    (monitoringUpdate schemas event hooks db).1 = db := by
  rw [monitoringUpdate]
  split
  · rfl
  · next s resourceID htarget =>
    refine Store.withinTx_of_not_ok fun db' hok ↦ ?_
    rw [monitoringUpdateTx, Go.bind_eq_ok] at hok
    obtain ⟨row, hrow, hok⟩ := hok
    rw [Store.fetch_eq_ok] at hrow
    split at hok
    · exact (Except.ok.inj hok).symm
    · next hupToDate =>
      split at hok
      · simp at hok
      · next version hversion =>
        split at hok
        · exact (Except.ok.inj hok).symm
        · next hsame =>
          split at hok
          · simp at hok
          · next monitoring hmonitoring =>
            simp only [Go.bind_eq_ok] at hok
            obtain ⟨resource, hpre, columns, hencode, _, hpost, _⟩ := hok
            rw [not_not] at hupToDate hsame
            exact absurd ⟨htarget, hrow, hupToDate.symm, by rw [hversion, hsame], hmonitoring,
              resource, hpre, hencode, hpost⟩ (h s resourceID row monitoring columns)

end Spec

end Gohan
