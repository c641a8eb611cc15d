import Gohan.Schema.Basic

/-!
# State-versioned rows

The row of a state-versioned resource carries five columns besides its properties.  The database
itself keeps count of the updates in `config_version`; `state_version`, `state`, `state_error` and
`state_monitoring` are what the backend last reported, and the version of the configuration it
reported about.

A `Store` is the rows of all tables, by schema and by identifier.  The operations on it are those of
a transaction.  `update` and `stateUpdate` write the same property columns and differ in the five
others: an update adds one to `config_version` and leaves the rest, a state update writes the rest
and leaves `config_version`.
-/

set_option autoImplicit false

namespace Gohan

/-- The five columns, with the defaults of the table. -/
structure ResourceState where
  configVersion : ℤ := 1
  stateVersion : ℤ := 0
  error : String := ""
  state : String := ""
  monitoring : String := ""
  deriving DecidableEq

/-- A row.  No property has the name of one of the five columns: the table could not have been
created. -/
structure Row where
  data : Dict
  state : ResourceState := {}

/-- The rows of all tables, by the identifiers of schema and resource. -/
abbrev Store := String → String → Option Row

namespace Store

/-- Replace one row. -/
def set (db : Store) (schemaID resourceID : String) (row : Option Row) : Store :=
  fun s r ↦ if s = schemaID ∧ r = resourceID then row else db s r

@[simp] theorem set_same (db : Store) (s r : String) (row : Option Row) :
    db.set s r row s r = row := if_pos ⟨rfl, rfl⟩

theorem set_other (db : Store) {s r s' r' : String} (row : Option Row) (h : ¬ (s' = s ∧ r' = r)) :
    db.set s r row s' r' = db s' r' := if_neg h

/-- `Create`: the state columns get their defaults. -/
def create (db : Store) (s : Schema) (resourceID : String) (data : Dict) : Go Store :=
  match db s.id resourceID with
  | some _ => .errorf "UNIQUE constraint failed: %s.id" [.str s.id]
  | none => .ok (db.set s.id resourceID (some { data }))

/-- `Fetch` and `StateFetch` with an identifier for the filter. -/
def fetch (db : Store) (s : Schema) (resourceID : String) : Go Row :=
  match db s.id resourceID with
  | some row => .ok row
  | none => .errorf "resource not found"

/-- `Update`.  Without a row there is nothing to update, and that is not an error. -/
def update (db : Store) (s : Schema) (resourceID : String) (data : Dict) : Store :=
  match db s.id resourceID with
  | none => db
  | some row =>
    let state := if s.stateVersioning
      then { row.state with configVersion := row.state.configVersion + 1 } else row.state
    db.set s.id resourceID (some { data, state })

/-- `StateUpdate`: every column of the state but `config_version`. -/
def stateUpdate (db : Store) (s : Schema) (resourceID : String) (data : Dict)
    (state : ResourceState) : Store :=
  match db s.id resourceID with
  | none => db
  | some row =>
    let written := if s.stateVersioning
      then { state with configVersion := row.state.configVersion } else row.state
    db.set s.id resourceID (some { data, state := written })

/-- `Delete`. -/
def delete (db : Store) (s : Schema) (resourceID : String) : Store := db.set s.id resourceID none

/-- `WithinTx`: an error rolls back everything the function has written. -/
def withinTx (db : Store) (fn : Store → Go Store) : Store × Go Unit :=
  match fn db with
  | .ok db' => (db', .ok ())
  | .error e => (db, .error e)

theorem fetch_eq_ok {db : Store} {s : Schema} {resourceID : String} {row : Row} :
    db.fetch s resourceID = .ok row ↔ db s.id resourceID = some row := by
  rw [fetch]
  split <;> simp_all

theorem withinTx_of_ok {db db' : Store} {fn : Store → Go Store} (h : fn db = .ok db') :
    db.withinTx fn = (db', .ok ()) := by rw [withinTx, h]

/-- What a transaction leaves behind when it does not end well. -/
theorem withinTx_of_not_ok {db : Store} {fn : Store → Go Store}
    (h : ∀ db', fn db = .ok db' → db' = db) : (db.withinTx fn).1 = db := by
  rw [withinTx]
  split
  · next db' hok => exact h db' hok
  · rfl

end Store

end Gohan
