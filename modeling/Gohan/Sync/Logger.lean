import Gohan.Sync.Tables

/-!
# The event logger

A transaction opened through `DbSyncWrapper` is a `transactionEventLogger`: every write goes to the
tables, and then a row goes to the event table.  `Tx` is what the transaction sees of the two.

The logger knows the rows that are named in the call.  `Create` and `Update` log the resource as
they are given it, with the properties that the caller has set; `Delete` fetches the row first, and
`DeleteFilter` lists the rows.  What the database does to other rows goes unnoticed.

`exec_eq_ok` says what one operation does to the tables, and which rows it adds to the event table.
-/

set_option autoImplicit false

namespace Gohan.Sync

variable [TextEngine]

/-- A transaction: the tables, and the event table. -/
structure Tx where
  db : Tables
  events : List EventRow
  /-- The number the next row of the event table will get. -/
  nextId : ℕ

namespace Tx

/-- `logEvent`. -/
def logEvent (tx : Tx) (eventType : EventType) (resource : Resource) (version : ℤ) : Tx :=
  match Sync.logEvent tx.nextId eventType resource version with
  | none => tx
  | some row => { tx with events := tx.events ++ [row], nextId := tx.nextId + 1 }

/-- `Create`. -/
def create (tx : Tx) (resource : Resource) : Go Tx := do
  let db ← tx.db.create resource
  return { tx with db }.logEvent .create resource 1

/-- `Update`. -/
def update (tx : Tx) (resource : Resource) : Go Tx := do
  let db := tx.db.update resource
  if resource.schema.stateVersioning then
    let state ← db.fetch resource.schema resource.ID
    return { tx with db }.logEvent .update resource state.configVersion
  else return { tx with db }.logEvent .update resource 0

/-- The version that the event of a deletion carries. -/
def deletedVersion (row : TableRow) : ℤ :=
  if row.resource.schema.stateVersioning then row.configVersion + 1 else 0

/-- `Delete`. -/
def delete (cat : Catalog) (tx : Tx) (s : Schema) (resourceID : String) : Go Tx := do
  let row ← tx.db.fetch s resourceID
  let db ← tx.db.delete cat (·.is s resourceID)
  return { tx with db }.logEvent .delete row.resource (deletedVersion row)

/-- `DeleteFilter`, for the rows of the table that the filter selects. -/
def deleteFilter (cat : Catalog) (tx : Tx) (s : Schema) (filter : TableRow → Bool) : Go Tx := do
  let targets := fun row : TableRow ↦ row.resource.schema.id == s.id && filter row
  let resources := tx.db.rows.filter targets
  let db ← tx.db.delete cat targets
  if s.syncEventNeeded then
    return resources.foldl
      (fun tx row ↦ tx.logEvent .delete row.resource (deletedVersion row)) { tx with db }
  else return { tx with db }

end Tx

/-- An operation on resources. -/
inductive Op where
  | create (resource : Resource)
  | update (resource : Resource)
  | delete (s : Schema) (resourceID : String)
  | deleteFilter (s : Schema) (filter : TableRow → Bool)

/-- One operation. -/
def Tx.exec (cat : Catalog) (tx : Tx) : Op → Go Tx
  | .create resource => tx.create resource
  | .update resource => tx.update resource
  | .delete s resourceID => tx.delete cat s resourceID
  | .deleteFilter s filter => tx.deleteFilter cat s filter

/-- The operations of a transaction, one after the other.  The first that fails ends it. -/
def Tx.run (cat : Catalog) (tx : Tx) (ops : List Op) : Go Tx := ops.foldlM (Tx.exec cat) tx

/-- The rows named in a call that deletes. -/
def Op.targets : Op → TableRow → Bool
  | .create _, _ | .update _, _ => false
  | .delete s resourceID, row => row.is s resourceID
  | .deleteFilter s filter, row => row.resource.schema.id == s.id && filter row

/-- Does the logger log the deletion of a row that is named? -/
def Op.logs : Op → TableRow → Bool
  | .deleteFilter s _, row => s.syncEventNeeded && row.resource.schema.syncEventNeeded
  | _, row => row.resource.schema.syncEventNeeded

/-! ## What one operation does -/

namespace Tx

variable {cat : Catalog} {tx tx' : Tx} {resource : Resource}

@[simp] theorem logEvent_db (tx : Tx) (eventType : EventType) (resource : Resource) (version : ℤ) :
    (tx.logEvent eventType resource version).db = tx.db := by
  rw [logEvent]
  split <;> rfl

theorem logEvent_events (tx : Tx) (eventType : EventType) (resource : Resource) (version : ℤ) :
    (tx.logEvent eventType resource version).events =
      tx.events ++ (Sync.logEvent tx.nextId eventType resource version).toList := by
  rw [logEvent]
  split
  · next h => simp [h]
  · next h => simp [h]

theorem create_eq_ok (h : tx.create resource = .ok tx') :
    tx.db.create resource = .ok tx'.db ∧
      tx'.events = tx.events ++ (Sync.logEvent tx.nextId .create resource 1).toList := by
  rw [create, Go.bind_eq_ok] at h
  obtain ⟨db, hdb, h⟩ := h
  cases h
  exact ⟨by rw [logEvent_db]; exact hdb, logEvent_events ..⟩

theorem update_eq_ok (h : tx.update resource = .ok tx') :
    tx'.db = tx.db.update resource ∧ ∃ version,
      tx'.events = tx.events ++ (Sync.logEvent tx.nextId .update resource version).toList := by
  rw [update] at h
  split at h
  · rw [Go.bind_eq_ok] at h
    obtain ⟨state, -, h⟩ := h
    cases h
    exact ⟨logEvent_db .., _, logEvent_events ..⟩
  · cases h
    exact ⟨logEvent_db .., _, logEvent_events ..⟩

theorem delete_eq_ok {s : Schema} {resourceID : String}
    (h : tx.delete cat s resourceID = .ok tx') :
    tx.db.delete cat (·.is s resourceID) = .ok tx'.db ∧
      ∃ row ∈ tx.db.rows, row.is s resourceID = true ∧ tx'.events = tx.events ++
        (Sync.logEvent tx.nextId .delete row.resource (deletedVersion row)).toList := by
  rw [delete, Go.bind_eq_ok] at h
  obtain ⟨row, hrow, h⟩ := h
  rw [Go.bind_eq_ok] at h
  obtain ⟨db, hdb, h⟩ := h
  cases h
  obtain ⟨hmem, his⟩ := Tables.fetch_eq_ok.mp hrow
  exact ⟨by rw [logEvent_db]; exact hdb, row, hmem, his, logEvent_events ..⟩

end Tx

end Gohan.Sync
