import Gohan.Server.StateWatcher

/-!
# Runs of a state-versioned resource

Three kinds of writers change the row of a state-versioned resource, in any order: an API update,
a state report and a monitoring report.  A `Write` is one of them, and an `Act` is a write or the
creation or deletion of a resource.  Each is a transaction of its own, so a run is a list of acts.

* `versionsOrdered_iff` is about the invariant `state_version ≤ config_version`.  It holds
  throughout a run from an empty database exactly when no state report that gets written is about
  a version the configuration has not reached: the guards do not see to that.
* `columns_law` is what does hold in every run: how each of the five columns may change, by which
  writer, and under which guard.
-/

set_option autoImplicit false

namespace Gohan

variable [FloatConversion]

/-- A write to an existing resource.  An API update is one that has been committed, with the
property columns it has written. -/
inductive Write where
  | update (schemaID resourceID : String) (data : Dict)
  | stateUpdate (event : Event) (hooks : Hooks)
  | monitoringUpdate (event : Event) (hooks : Hooks)

/-- What can happen to the resources. -/
inductive Act where
  | create (schemaID resourceID : String) (data : Dict)
  | delete (schemaID resourceID : String)
  | write (w : Write)

/-- The store after a write, and what the writer is told. -/
def Write.run (schemas : List Schema) (db : Store) : Write → Store × Go Unit
  | .update schemaID resourceID data =>
    match schemaByID schemas schemaID with
    | none => (db, .errorf "schema not found")
    | some s => (db.update s resourceID data, .ok ())
  | .stateUpdate event hooks => Gohan.stateUpdate schemas event hooks db
  | .monitoringUpdate event hooks => Gohan.monitoringUpdate schemas event hooks db

/-- What a write makes of the store. -/
def Write.step (schemas : List Schema) (db : Store) (w : Write) : Store := (w.run schemas db).1

/-- What an act makes of the store.  One that fails leaves it as it is. -/
def Act.step (schemas : List Schema) (db : Store) : Act → Store
  | .create schemaID resourceID data =>
    match schemaByID schemas schemaID with
    | none => db
    | some s => (db.withinTx fun db ↦ db.create s resourceID data).1
  | .delete schemaID resourceID =>
    match schemaByID schemas schemaID with
    | none => db
    | some s => db.delete s resourceID
  | .write w => w.step schemas db

/-! ## The state version and the configuration version -/

/-- No row is reported about in a version its configuration has not reached. -/
def VersionsOrdered (db : Store) : Prop :=
  ∀ s r row, db s r = some row → row.state.stateVersion ≤ row.state.configVersion

/-- If the act is a state report that gets written, then it is about a version the configuration of
the row has reached. -/
def ReportsKnownVersion (schemas : List Schema) (db : Store) : Act → Prop
  | .write (.stateUpdate event hooks) => ∀ s resourceID row version columns,
      AcceptsState schemas event hooks db s resourceID row version columns →
        version ≤ row.state.configVersion
  | _ => True

variable {schemas : List Schema} {db : Store}

omit [FloatConversion] in
/-- Replacing one row keeps the versions ordered exactly when they are in the new row. -/
theorem versionsOrdered_set (h : VersionsOrdered db) {s r : String} {row : Row} :
    VersionsOrdered (db.set s r (some row)) ↔ row.state.stateVersion ≤ row.state.configVersion := by
  refine ⟨fun hset ↦ hset s r row (Store.set_same _ _ _ _), fun hrow s' r' row' h' ↦ ?_⟩
  by_cases hsame : s' = s ∧ r' = r
  · obtain ⟨rfl, rfl⟩ := hsame
    rw [Store.set_same] at h'
    cases h'
    exact hrow
  · rw [Store.set_other _ _ hsame] at h'
    exact h s' r' row' h'

omit [FloatConversion] in
theorem versionsOrdered_update (h : VersionsOrdered db) (s : Schema) (resourceID : String)
    (data : Dict) : VersionsOrdered (db.update s resourceID data) := by
  rw [Store.update]
  split
  · exact h
  · next row hrow =>
    have hle := h s.id resourceID row hrow
    rw [versionsOrdered_set h]
    split
    · exact Int.le_trans hle (Int.le_add_of_nonneg_right (by decide))
    · exact hle

omit [FloatConversion] in
theorem versionsOrdered_create (h : VersionsOrdered db) (s : Schema) (resourceID : String)
    (data : Dict) : VersionsOrdered (db.withinTx fun db ↦ db.create s resourceID data).1 := by
  rw [Store.withinTx]
  split
  · next db' hok =>
    rw [Store.create] at hok
    split at hok
    · simp at hok
    · cases hok
      rw [versionsOrdered_set h]
      exact (by decide : (0 : ℤ) ≤ 1)
  · exact h

omit [FloatConversion] in
theorem versionsOrdered_delete (h : VersionsOrdered db) (s : Schema) (resourceID : String) :
    VersionsOrdered (db.delete s resourceID) := by
  intro s' r' row' h'
  by_cases hsame : s' = s.id ∧ r' = resourceID
  · obtain ⟨rfl, rfl⟩ := hsame
    simp [Store.delete] at h'
  · rw [Store.delete, Store.set_other _ _ hsame] at h'
    exact h s' r' row' h'

/-- A state report keeps the versions ordered exactly when it is about a known version, if it is
written at all. -/
theorem versionsOrdered_stateUpdate (h : VersionsOrdered db) (event : Event) (hooks : Hooks) :
    VersionsOrdered (stateUpdate schemas event hooks db).1 ↔
      ReportsKnownVersion schemas db (.write (.stateUpdate event hooks)) := by
  constructor
  · intro hafter s resourceID row version columns hacc
    rw [stateUpdate_of_accepts hacc] at hafter
    exact (versionsOrdered_set h).mp hafter
  · intro hknown
    by_cases hacc : ∃ s resourceID row version columns,
        AcceptsState schemas event hooks db s resourceID row version columns
    · obtain ⟨s, resourceID, row, version, columns, hacc⟩ := hacc
      rw [stateUpdate_of_accepts hacc, versionsOrdered_set h]
      exact hknown s resourceID row version columns hacc
    · rw [stateUpdate_of_not_accepts fun s r row v c hv ↦ hacc ⟨s, r, row, v, c, hv⟩]
      exact h

theorem versionsOrdered_monitoringUpdate (h : VersionsOrdered db) (event : Event) (hooks : Hooks) :
    VersionsOrdered (monitoringUpdate schemas event hooks db).1 := by
  by_cases hacc : ∃ s resourceID row monitoring columns,
      AcceptsMonitoring schemas event hooks db s resourceID row monitoring columns
  · obtain ⟨s, resourceID, row, monitoring, columns, hacc⟩ := hacc
    rw [monitoringUpdate_of_accepts hacc, versionsOrdered_set h]
    exact h s.id resourceID row hacc.found
  · rw [monitoringUpdate_of_not_accepts fun s r row m c hm ↦ hacc ⟨s, r, row, m, c, hm⟩]
    exact h

/-- One act. -/
theorem versionsOrdered_step (h : VersionsOrdered db) (act : Act) :
    VersionsOrdered (act.step schemas db) ↔ ReportsKnownVersion schemas db act := by
  cases act with
  | create schemaID resourceID data =>
    simp only [ReportsKnownVersion, iff_true, Act.step]
    split
    · exact h
    · exact versionsOrdered_create h _ _ _
  | delete schemaID resourceID =>
    simp only [ReportsKnownVersion, iff_true, Act.step]
    split
    · exact h
    · exact versionsOrdered_delete h _ _
  | write w =>
    cases w with
    | update schemaID resourceID data =>
      simp only [ReportsKnownVersion, iff_true, Act.step, Write.step, Write.run]
      split
      · exact h
      · exact versionsOrdered_update h _ _ _
    | stateUpdate event hooks => exact versionsOrdered_stateUpdate h event hooks
    | monitoringUpdate event hooks =>
      simp only [ReportsKnownVersion, iff_true]
      exact versionsOrdered_monitoringUpdate h event hooks

/-- **When the state version stays behind the configuration version**, in every state of a run from
an empty database: when every state report that gets written is about a version reached. -/
theorem versionsOrdered_iff (schemas : List Schema) (acts : List Act) :
    (∀ db ∈ Machine.states (Act.step schemas) (fun _ _ ↦ none) acts, VersionsOrdered db) ↔
      Machine.Along (Act.step schemas) (ReportsKnownVersion schemas) (fun _ _ ↦ none) acts :=
  Machine.invariant_iff_along (fun _ act h ↦ versionsOrdered_step h act) (fun _ _ _ h ↦ nomatch h)

omit [FloatConversion] in
/-- A network is created, and the first report about it claims version 5 of a configuration that
has version 1.  It is written. -/
theorem versionsOrdered_fails : letI := amd64
    let schemas : List Schema := [{
      id := "network", singular := "network", plural := "networks", url := "/v2.0/networks"
      metadata := GoMap.ofList [("state_versioning", .bool true)], properties := [] }]
    let report : Event := ⟨"set", "/state_watch/state/v2.0/networks/n1",
      GoMap.ofList [("version", .float 5), ("state", .str "ACTIVE")]⟩
    ¬ ∀ db ∈ Machine.states (Act.step schemas) (fun _ _ ↦ none)
        [.create "network" "n1" ∅, .write (.stateUpdate report ⟨.ok, .ok, fun _ ↦ .ok ()⟩)],
      VersionsOrdered db := by
  intro schemas report h
  have hfinal := h _ (Machine.final_mem_states _ _)
  have hstate : (Machine.final (@Act.step amd64 schemas) (fun _ _ ↦ none)
      [.create "network" "n1" ∅, .write (.stateUpdate report ⟨.ok, .ok, fun _ ↦ .ok ()⟩)]
        "network" "n1").map (·.state) = some { stateVersion := 5, state := "ACTIVE" } := by
    decide +kernel
  obtain ⟨row, hrow, hcols⟩ := Option.map_eq_some_iff.mp hstate
  have hle := hfinal _ _ row hrow
  rw [hcols] at hle
  exact absurd hle (by decide)

/-! ## How the columns change -/

/-- How a write may change the state of one row. -/
structure ColumnsLaw (schemas : List Schema) (db : Store) (w : Write) (schemaID resourceID : String)
    (row row' : Row) : Prop where
  /-- The state version never decreases. -/
  stateVersion : row.state.stateVersion ≤ row'.state.stateVersion
  /-- The configuration version changes in an update only, by one. -/
  configVersion : row'.state.configVersion = row.state.configVersion ∨
    (∃ data, w = .update schemaID resourceID data) ∧
      row'.state.configVersion = row.state.configVersion + 1
  /-- State and error change by a state report only, and one that passes the guards. -/
  reported : row'.state.state ≠ row.state.state ∨ row'.state.error ≠ row.state.error →
    ∃ event hooks s version columns, w = .stateUpdate event hooks ∧ s.id = schemaID ∧
      AcceptsState schemas event hooks db s resourceID row version columns
  /-- What is monitored changes by a monitoring report only, and one that passes the guards. -/
  monitoring : row'.state.monitoring ≠ row.state.monitoring →
    ∃ event hooks s monitoring columns, w = .monitoringUpdate event hooks ∧ s.id = schemaID ∧
      AcceptsMonitoring schemas event hooks db s resourceID row monitoring columns
  /-- A report that fails changes nothing. -/
  failed : (w.run schemas db).2 ≠ .ok () → row'.state = row.state
  /-- A state report that does not pass the guards changes nothing. -/
  ignoredState : ∀ event hooks, w = .stateUpdate event hooks →
    (∀ s version columns, s.id = schemaID →
      ¬ AcceptsState schemas event hooks db s resourceID row version columns) →
    row'.state = row.state
  /-- A monitoring report that does not pass the guards changes nothing. -/
  ignoredMonitoring : ∀ event hooks, w = .monitoringUpdate event hooks →
    (∀ s monitoring columns, s.id = schemaID →
      ¬ AcceptsMonitoring schemas event hooks db s resourceID row monitoring columns) →
    row'.state = row.state

/-- A row whose state a write leaves alone. -/
theorem ColumnsLaw.of_same {w : Write} {schemaID resourceID : String} {row row' : Row}
    (h : row'.state = row.state) : ColumnsLaw schemas db w schemaID resourceID row row' where
  stateVersion := Int.le_of_eq (by rw [h])
  configVersion := .inl (by rw [h])
  reported hne := by simp [h] at hne
  monitoring hne := absurd (by rw [h]) hne
  failed _ := h
  ignoredState _ _ _ _ := h
  ignoredMonitoring _ _ _ _ := h

/-- An API update. -/
theorem columnsLaw_update (schemaID resourceID : String) (data : Dict) {s r : String} {row : Row}
    (hrow : db s r = some row) :
    ∃ row', (Write.update schemaID resourceID data).step schemas db s r = some row' ∧
      ColumnsLaw schemas db (.update schemaID resourceID data) s r row row' := by
  rw [Write.step, Write.run]
  split
  · exact ⟨row, hrow, .of_same rfl⟩
  · next sch hsch =>
    have hid : sch.id = schemaID := by simpa using List.find?_some hsch
    rw [Store.update]
    split
    · exact ⟨row, hrow, .of_same rfl⟩
    · next cur hcur =>
      by_cases hsame : s = sch.id ∧ r = resourceID
      · obtain ⟨rfl, rfl⟩ := hsame
        obtain rfl : cur = row := Option.some.inj (hcur.symm.trans hrow)
        refine ⟨_, Store.set_same _ _ _ _, ?_⟩
        cases hver : sch.stateVersioning with
        | false => exact .of_same rfl
        | true => exact {
            stateVersion := Int.le_refl _
            configVersion := .inr ⟨⟨data, by rw [hid]⟩, rfl⟩
            reported := fun hne ↦ by simp at hne
            monitoring := fun hne ↦ absurd rfl hne
            failed := fun herr ↦ absurd (by rw [Write.run, hsch]) herr
            ignoredState := fun _ _ hw ↦ nomatch hw
            ignoredMonitoring := fun _ _ hw ↦ nomatch hw }
      · exact ⟨row, (Store.set_other _ _ hsame).trans hrow, .of_same rfl⟩

/-- A state report. -/
theorem columnsLaw_stateUpdate (event : Event) (hooks : Hooks) {s r : String} {row : Row}
    (hrow : db s r = some row) :
    ∃ row', (Write.stateUpdate event hooks).step schemas db s r = some row' ∧
      ColumnsLaw schemas db (.stateUpdate event hooks) s r row row' := by
  rw [Write.step, Write.run]
  by_cases hacc : ∃ s r row version columns,
      AcceptsState schemas event hooks db s r row version columns
  · obtain ⟨sch, rid, cur, version, columns, hacc⟩ := hacc
    rw [stateUpdate_of_accepts hacc]
    by_cases hsame : s = sch.id ∧ r = rid
    · obtain ⟨rfl, rfl⟩ := hsame
      obtain rfl : cur = row := Option.some.inj (hacc.found.symm.trans hrow)
      exact ⟨_, Store.set_same _ _ _ _, {
        stateVersion := hacc.notOlder
        configVersion := .inl rfl
        reported := fun _ ↦ ⟨event, hooks, sch, version, columns, rfl, rfl, hacc⟩
        monitoring := fun hne ↦ absurd rfl hne
        failed := fun herr ↦ absurd (by rw [Write.run, stateUpdate_of_accepts hacc]) herr
        ignoredState := fun e hk hw hno ↦ by
          cases hw
          exact absurd hacc (hno sch version columns rfl)
        ignoredMonitoring := fun _ _ hw ↦ nomatch hw }⟩
    · exact ⟨row, (Store.set_other _ _ hsame).trans hrow, .of_same rfl⟩
  · rw [stateUpdate_of_not_accepts fun s r row v c hv ↦ hacc ⟨s, r, row, v, c, hv⟩]
    exact ⟨row, hrow, .of_same rfl⟩

/-- A monitoring report. -/
theorem columnsLaw_monitoringUpdate (event : Event) (hooks : Hooks) {s r : String} {row : Row}
    (hrow : db s r = some row) :
    ∃ row', (Write.monitoringUpdate event hooks).step schemas db s r = some row' ∧
      ColumnsLaw schemas db (.monitoringUpdate event hooks) s r row row' := by
  rw [Write.step, Write.run]
  by_cases hacc : ∃ s r row monitoring columns,
      AcceptsMonitoring schemas event hooks db s r row monitoring columns
  · obtain ⟨sch, rid, cur, monitoring, columns, hacc⟩ := hacc
    rw [monitoringUpdate_of_accepts hacc]
    by_cases hsame : s = sch.id ∧ r = rid
    · obtain ⟨rfl, rfl⟩ := hsame
      obtain rfl : cur = row := Option.some.inj (hacc.found.symm.trans hrow)
      exact ⟨_, Store.set_same _ _ _ _, {
        stateVersion := Int.le_refl _
        configVersion := .inl rfl
        reported := fun hne ↦ by simp at hne
        monitoring := fun _ ↦ ⟨event, hooks, sch, monitoring, columns, rfl, rfl, hacc⟩
        failed := fun herr ↦ absurd (by rw [Write.run, monitoringUpdate_of_accepts hacc]) herr
        ignoredState := fun _ _ hw ↦ nomatch hw
        ignoredMonitoring := fun e hk hw hno ↦ by
          cases hw
          exact absurd hacc (hno sch monitoring columns rfl) }⟩
    · exact ⟨row, (Store.set_other _ _ hsame).trans hrow, .of_same rfl⟩
  · rw [monitoringUpdate_of_not_accepts fun s r row m c hm ↦ hacc ⟨s, r, row, m, c, hm⟩]
    exact ⟨row, hrow, .of_same rfl⟩

/-- One write, of whichever kind. -/
theorem columnsLaw_step (db : Store) (w : Write) {s r : String} {row : Row}
    (hrow : db s r = some row) :
    ∃ row', w.step schemas db s r = some row' ∧ ColumnsLaw schemas db w s r row row' := by
  cases w with
  | update schemaID resourceID data => exact columnsLaw_update schemaID resourceID data hrow
  | stateUpdate event hooks => exact columnsLaw_stateUpdate event hooks hrow
  | monitoringUpdate event hooks => exact columnsLaw_monitoringUpdate event hooks hrow

/-- Every row of the first store is in the second, with a state version that is not smaller. -/
def NotOlder (db db' : Store) : Prop :=
  ∀ s r row, db s r = some row →
    ∃ row', db' s r = some row' ∧ row.state.stateVersion ≤ row'.state.stateVersion

omit [FloatConversion] in
theorem NotOlder.trans {db₁ db₂ db₃ : Store} (h : NotOlder db₁ db₂) (h' : NotOlder db₂ db₃) :
    NotOlder db₁ db₃ := by
  intro s r row hrow
  obtain ⟨row₂, hrow₂, hle⟩ := h s r row hrow
  obtain ⟨row₃, hrow₃, hle'⟩ := h' s r row₂ hrow₂
  exact ⟨row₃, hrow₃, Int.le_trans hle hle'⟩

/-- **How the columns change over a run.**  From any store and after any writes, the next write
changes the state of each row by the law of the columns; and over any number of writes no state
version decreases. -/
theorem columns_law (schemas : List Schema) (db : Store) (ws : List Write) :
    (∀ w s r row, Machine.final (Write.step schemas) db ws s r = some row →
      ∃ row', Machine.final (Write.step schemas) db (ws ++ [w]) s r = some row' ∧
        ColumnsLaw schemas (Machine.final (Write.step schemas) db ws) w s r row row') ∧
    ∀ ws', NotOlder (Machine.final (Write.step schemas) db ws)
      (Machine.final (Write.step schemas) db (ws ++ ws')) := by
  refine ⟨fun w s r row hrow ↦ ?_, fun ws' ↦ ?_⟩
  · rw [Machine.final_append]
    exact columnsLaw_step _ w hrow
  · refine Machine.ordered_of_step (R := NotOlder) (fun _ _ _ row hrow ↦ ⟨row, hrow, Int.le_refl _⟩)
      (fun _ _ _ ↦ NotOlder.trans) (fun db w s r row hrow ↦ ?_) db ws ws'
    obtain ⟨row', hrow', hlaw⟩ := columnsLaw_step db w hrow
    exact ⟨row', hrow', hlaw.stateVersion⟩

end Gohan
