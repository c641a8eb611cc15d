import Gohan.Logic.Machine
import Mathlib.Data.Finset.Basic
import Mathlib.Data.List.Basic

/-!
# The schemas waiting for their post-migration event

A migration marks the schemas it has modified, and the event that follows it is run for the marked
ones and unmarks them.  The identifiers are kept twice, in a table and in memory.

`removeSchemaID` changes the table in a transaction of its own and the memory after that.
`markSchemaID` is given the transaction of the migration: it changes the memory at once, and what
it has written to the table stands only if the migration commits.

* `State.Tracks` — the memory has what is in the table and what has been marked since; so the two
  agree exactly where no open transaction has marked anything new, and a migration that has is not
  to be rolled back (`State.Tracks.agree_rollback_iff`).
* `agreesThroughout_of_orderly` — after every transaction of an orderly run, whoever it belongs to,
  the memory has the identifiers of the table and no others.
-/

set_option autoImplicit false

namespace Gohan

namespace PostMigration

/-! ## The database -/

/-- What is asked of the database; each call may fail. -/
inductive Call where
  | begin
  | create
  | select
  | prepare
  | exec
  | commit
  deriving DecidableEq

/-- The errors: there is no backend, or a call of the database has failed. -/
inductive Error where
  | errNilBackend
  | db (call : Call)
  deriving DecidableEq

/-- The identifiers in the rows of `post_migration_events`, if there is such a table.  The column is
not unique. -/
abbrev Table := Option (List String)

variable (fails : Call → Bool)

/-- A call of the database. -/
def ask (call : Call) : Except Error Unit :=
  if fails call then .error (.db call) else .ok ()

/-- `withinTx`: what `f` makes of the table, if nothing fails, and what it returns. -/
def withinTx {α : Type} (table : Table) (f : Table → Except Error (Table × α)) :
    Except Error (Table × α) := do
  ask fails .begin
  let r ← f table
  ask fails .commit
  return r

/-- `ensureTableExists`. -/
def ensureTableExists (table : Table) : Except Error Table := do
  ask fails .create
  return some (table.getD [])

/-- `readSchemaIDsInTx`. -/
def readSchemaIDsInTx (table : Table) : Except Error (Finset String) := do
  ask fails .select
  match table with
  | some rows => return rows.toFinset
  | none => throw (.db .select)

/-- `loadSchemaIDs`. -/
def loadSchemaIDs (table : Table) : Except Error (Table × Finset String) :=
  withinTx fails table fun table ↦ do
    let table ← ensureTableExists fails table
    let schemas ← readSchemaIDsInTx fails table
    return (table, schemas)

/-- `execStmt`: a statement on a table that does not exist cannot be prepared. -/
def execStmt {α : Type} (table : Table) (stmt : List String → α) : Except Error α := do
  ask fails .prepare
  match table with
  | some rows =>
    ask fails .exec
    return stmt rows
  | none => throw (.db .prepare)

/-- `persistSchemaID`, in a transaction that has inserted `ids` so far. -/
def persistSchemaID (schemaID : String) (table : Table) (ids : List String) :
    Except Error (List String) :=
  execStmt fails table fun _ ↦ ids ++ [schemaID]

/-- `deleteSchemaID`. -/
def deleteSchemaID (schemaID : String) (table : Table) : Except Error (Table × Unit) :=
  withinTx fails table fun table ↦ do
    let rows ← execStmt fails table fun rows ↦ rows.filter (· != schemaID)
    return (some rows, ())

/-! ## The set -/

/-- The table and the transactions of the migrations, and the `schemaSet`. -/
structure State where
  /-- What has been committed. -/
  table : Table
  /-- The open transactions, each with the identifiers it has inserted. -/
  txs : ℕ → Option (List String)
  schemas : Finset String
  /-- The backend is not nil. -/
  backend : Bool

/-- `newSchemaSet`. -/
def newSchemaSet (table : Table) : State where
  table := table
  txs _ := none
  schemas := ∅
  backend := false

/-- What can happen: each action says which calls of the database fail. -/
inductive Action where
  /-- `init`, with a backend or with nil. -/
  | init (backend : Bool) (fails : Call → Bool)
  /-- A migration begins. -/
  | begin (tx : ℕ)
  | markSchemaID (schemaID : String) (tx : ℕ) (fails : Call → Bool)
  /-- A migration commits its transaction. -/
  | commit (tx : ℕ) (fails : Call → Bool)
  /-- A migration rolls its transaction back. -/
  | rollback (tx : ℕ)
  | removeSchemaID (schemaID : String) (fails : Call → Bool)

namespace State

/-- The identifiers in the table. -/
def rows (s : State) : List String := s.table.getD []

/-- What a transaction has marked is replaced. -/
def setTx (s : State) (tx : ℕ) (ids : Option (List String)) : State :=
  { s with txs := Function.update s.txs tx ids }

/-- `Init`: what has been marked before is read from the table. -/
def init (s : State) (backend : Bool) (fails : Call → Bool) : State × Option Error :=
  if backend then
    let s := { s with backend := true }
    match loadSchemaIDs fails s.table with
    | .ok (table, schemas) => ({ s with table := table, schemas := schemas }, none)
    | .error e => (s, some e)
  else (s, some .errNilBackend)

/-- A statement in a transaction that is over fails. -/
def markSchemaID (s : State) (schemaID : String) (tx : ℕ) (fails : Call → Bool) :
    State × Option Error :=
  if s.backend then
    match s.txs tx with
    | none => (s, some (.db .prepare))
    | some ids =>
      match persistSchemaID fails schemaID s.table ids with
      | .ok ids => ({ s.setTx tx (some ids) with schemas := insert schemaID s.schemas }, none)
      | .error e => (s, some e)
  else (s, some .errNilBackend)

/-- `getSchemaIDs`. -/
def getSchemaIDs (s : State) : Finset String := s.schemas

/-- An identifier is taken out of the table and out of memory. -/
def removeSchemaID (s : State) (schemaID : String) (fails : Call → Bool) : State × Option Error :=
  if s.backend then
    match deleteSchemaID fails schemaID s.table with
    | .ok (table, _) => ({ s with table := table, schemas := s.schemas.erase schemaID }, none)
    | .error e => (s, some e)
  else (s, some .errNilBackend)

/-- A transaction is begun, with nothing marked in it. -/
def begin (s : State) (tx : ℕ) : State :=
  match s.txs tx with
  | none => s.setTx tx (some [])
  | some _ => s

/-- A transaction that cannot be committed is rolled back. -/
def commit (s : State) (tx : ℕ) (fails : Call → Bool) : State :=
  match s.txs tx with
  | none => s
  | some ids =>
    if fails .commit then s.setTx tx none
    else { s.setTx tx none with table := s.table.map (· ++ ids) }

/-- A transaction is rolled back, and what it has marked with it. -/
def rollback (s : State) (tx : ℕ) : State := s.setTx tx none

/-- One action. -/
def step (s : State) : Action → State
  | .init backend fails => (s.init backend fails).1
  | .begin tx => s.begin tx
  | .markSchemaID schemaID tx fails => (s.markSchemaID schemaID tx fails).1
  | .commit tx fails => s.commit tx fails
  | .rollback tx => s.rollback tx
  | .removeSchemaID schemaID fails => (s.removeSchemaID schemaID fails).1

/-! ## Agreement of the two copies -/

/-- The memory has the identifiers of the table. -/
def Agree (s : State) : Prop := ∀ id, id ∈ s.getSchemaIDs ↔ id ∈ s.rows

/-- The action ends a transaction. -/
def Finishes (s : State) : Action → Prop
  | .init backend fails => backend = true ∧ fails .begin = false
  | .begin _ => False
  | .markSchemaID .. => False
  | .commit tx _ => (s.txs tx).isSome
  | .rollback tx => (s.txs tx).isSome
  | .removeSchemaID _ fails => s.backend = true ∧ fails .begin = false

/-- A transaction that is open has marked the schema. -/
def Marked (s : State) (id : String) : Prop := ∃ tx ids, s.txs tx = some ids ∧ id ∈ ids

/-- A transaction other than `tx` that is open has marked the schema. -/
def MarkedBut (s : State) (tx : ℕ) (id : String) : Prop :=
  ∃ tx' ids, tx' ≠ tx ∧ s.txs tx' = some ids ∧ id ∈ ids

/-- Whatever is marked by an open transaction is in the table. -/
def Settled (s : State) : Prop := ∀ id, s.Marked id → id ∈ s.rows

/-- The identifiers have been read from the table, unless there were none. -/
def Loaded (s : State) : Prop := s.backend = true ∨ s.rows = []

end State

/-- None of the calls fails. -/
def Goes (fails : Call → Bool) (calls : List Call) : Prop := ∀ call ∈ calls, fails call = false

namespace State

/-- The action keeps to the order that `schemaSet` relies on.  What is in the table is read before
any transaction ends.  A transaction that has marked a schema is committed, and no other transaction
ends while it is open; nor is a schema removed that it has marked.  (A schema that is in the table
already may be marked in any transaction.) -/
def Orderly (s : State) : Action → Prop
  | .init backend fails => backend = true →
      (s.Loaded ∨ Goes fails [.begin, .create, .select, .commit]) ∧
        (fails .begin = false → s.Settled)
  | .begin _ => True
  | .markSchemaID .. => True
  | .commit tx fails => ∀ ids, s.txs tx = some ids →
      s.Loaded ∧ (∀ id, s.MarkedBut tx id → id ∈ s.rows ∨ id ∈ ids) ∧
        (fails .commit = true → s.Settled)
  | .rollback tx => (s.txs tx).isSome → s.Loaded ∧ s.Settled
  | .removeSchemaID schemaID fails => s.backend = true → fails .begin = false →
      s.Settled ∧ (Goes fails [.begin, .prepare, .exec, .commit] → ¬ s.Marked schemaID)

end State

/-! ## What the calls come to -/

variable {fails} {table : Table} {rows ids : List String} {schemaID : String}

theorem ask_of_goes {call : Call} (h : fails call = false) : ask fails call = .ok () := by
  simp [ask, h]

theorem ask_cases (fails : Call → Bool) (call : Call) :
    (fails call = false ∧ ask fails call = .ok ()) ∨
      (fails call = true ∧ ask fails call = .error (.db call)) := by
  cases h : fails call with
  | false => exact .inl ⟨rfl, ask_of_goes h⟩
  | true => exact .inr ⟨rfl, by simp [ask, h]⟩

/-- A transaction of the backend's own goes through if what is done in it does, and it begins and
is committed. -/
theorem withinTx_eq_ok {α : Type} {f : Table → Except Error (Table × α)} {r : Table × α}
    (hbegin : fails .begin = false) (hf : f table = .ok r) (hcommit : fails .commit = false) :
    withinTx fails table f = .ok r := by
  simp only [withinTx, ask_of_goes hbegin, ask_of_goes hcommit, hf]
  rfl

/-- It goes through in no other case. -/
theorem of_withinTx_eq_ok {α : Type} {f : Table → Except Error (Table × α)} {r : Table × α}
    (h : withinTx fails table f = .ok r) :
    fails .begin = false ∧ f table = .ok r ∧ fails .commit = false := by
  rw [withinTx] at h
  rcases ask_cases fails .begin with ⟨hbegin, hask⟩ | ⟨-, hask⟩
  · rw [hask] at h
    cases hf : f table with
    | error e => simp [hf, bind, Except.bind] at h
    | ok r' =>
      rcases ask_cases fails .commit with ⟨hcommit, hask'⟩ | ⟨-, hask'⟩
      · simp only [hf, hask', bind, Except.bind, pure, Except.pure] at h
        exact ⟨hbegin, h, hcommit⟩
      · simp [hf, hask', bind, Except.bind] at h
  · simp [hask, bind, Except.bind] at h

/-- What is read is what is in the table. -/
theorem of_loadSchemaIDs_eq_ok {r : Table × Finset String} (h : loadSchemaIDs fails table = .ok r) :
    r = (some (table.getD []), (table.getD []).toFinset) := by
  obtain ⟨-, hf, -⟩ := of_withinTx_eq_ok h
  rcases ask_cases fails .create with ⟨-, hcreate⟩ | ⟨-, hcreate⟩
  · rcases ask_cases fails .select with ⟨-, hselect⟩ | ⟨-, hselect⟩
    · simp only [ensureTableExists, readSchemaIDsInTx, hcreate, hselect, bind, Except.bind, pure,
        Except.pure, Except.ok.injEq] at hf
      exact hf.symm
    · simp [ensureTableExists, readSchemaIDsInTx, hcreate, hselect, bind, Except.bind, pure,
        Except.pure] at hf
  · simp [ensureTableExists, hcreate, bind, Except.bind] at hf

theorem loadSchemaIDs_eq_ok (h : Goes fails [.begin, .create, .select, .commit]) :
    loadSchemaIDs fails table = .ok (some (table.getD []), (table.getD []).toFinset) := by
  refine withinTx_eq_ok (h _ (by simp)) ?_ (h _ (by simp))
  have hcreate := ask_of_goes (h .create (by simp))
  have hselect := ask_of_goes (h .select (by simp))
  simp only [ensureTableExists, readSchemaIDsInTx, hcreate, hselect, bind, Except.bind, pure,
    Except.pure]

/-- A statement is executed on the table there is. -/
theorem of_execStmt_eq_ok {α : Type} {stmt : List String → α} {a : α}
    (h : execStmt fails table stmt = .ok a) :
    fails .prepare = false ∧ fails .exec = false ∧ ∃ rows, table = some rows ∧ a = stmt rows := by
  unfold execStmt at h
  rcases ask_cases fails .prepare with ⟨hprepare, hask⟩ | ⟨-, hask⟩
  · cases table with
    | none => simp [hask, bind, Except.bind, throw, throwThe, MonadExceptOf.throw] at h
    | some rows =>
      rcases ask_cases fails .exec with ⟨hexec, hask'⟩ | ⟨-, hask'⟩
      · simp only [hask, hask', bind, Except.bind, pure, Except.pure, Except.ok.injEq] at h
        exact ⟨hprepare, hexec, rows, rfl, h.symm⟩
      · simp [hask, hask', bind, Except.bind] at h
  · simp [hask, bind, Except.bind] at h

theorem of_persistSchemaID_eq_ok {ids' : List String}
    (h : persistSchemaID fails schemaID table ids = .ok ids') :
    (∃ rows, table = some rows) ∧ ids' = ids ++ [schemaID] := by
  obtain ⟨-, -, rows, htable, rfl⟩ := of_execStmt_eq_ok h
  exact ⟨⟨rows, htable⟩, rfl⟩

theorem of_deleteSchemaID_eq_ok {r : Table × Unit}
    (h : deleteSchemaID fails schemaID table = .ok r) :
    Goes fails [.begin, .prepare, .exec, .commit] ∧
      ∃ rows, table = some rows ∧ r = (some (rows.filter (· != schemaID)), ()) := by
  obtain ⟨hbegin, hf, hcommit⟩ := of_withinTx_eq_ok h
  cases hstmt : execStmt fails table fun rows ↦ rows.filter (· != schemaID) with
  | error e => simp [hstmt, bind, Except.bind] at hf
  | ok rows' =>
    obtain ⟨hprepare, hexec, rows, htable, rfl⟩ := of_execStmt_eq_ok hstmt
    simp only [hstmt, bind, Except.bind, pure, Except.pure, Except.ok.injEq] at hf
    exact ⟨by simp [Goes, hbegin, hprepare, hexec, hcommit], rows, htable, hf.symm⟩

/-! ## What a step does -/

namespace State

variable {s : State} {tx : ℕ} {id : String}

@[simp] theorem txs_setTx_self (s : State) (tx : ℕ) (ids : Option (List String)) :
    (s.setTx tx ids).txs tx = ids := Function.update_self ..

theorem txs_setTx_ne {tx' : ℕ} (h : tx' ≠ tx) (ids : Option (List String)) :
    (s.setTx tx ids).txs tx' = s.txs tx' := Function.update_of_ne h ..

theorem marked_iff (htx : s.txs tx = some ids) : s.Marked id ↔ id ∈ ids ∨ s.MarkedBut tx id := by
  constructor
  · rintro ⟨tx', ids', htx', hid⟩
    by_cases heq : tx' = tx
    · rw [heq, htx, Option.some.injEq] at htx'
      exact .inl (htx' ▸ hid)
    · exact .inr ⟨tx', ids', heq, htx', hid⟩
  · rintro (hid | ⟨tx', ids', -, htx', hid⟩)
    · exact ⟨tx, ids, htx, hid⟩
    · exact ⟨tx', ids', htx', hid⟩

theorem markedBut_setTx (s : State) (tx : ℕ) (ids : Option (List String)) :
    (s.setTx tx ids).MarkedBut tx id ↔ s.MarkedBut tx id := by
  refine exists_congr fun tx' ↦ exists_congr fun ids' ↦ and_congr_right fun hne ↦ ?_
  rw [txs_setTx_ne hne]

theorem marked_setTx_some (s : State) (tx : ℕ) (ids : List String) :
    (s.setTx tx (some ids)).Marked id ↔ id ∈ ids ∨ s.MarkedBut tx id := by
  rw [marked_iff (txs_setTx_self s tx (some ids)), markedBut_setTx]

/-- A transaction that is over has marked nothing. -/
theorem marked_setTx_none (s : State) (tx : ℕ) :
    (s.setTx tx none).Marked id ↔ s.MarkedBut tx id := by
  rw [← markedBut_setTx s tx none]
  constructor
  · rintro ⟨tx', ids', htx', hid⟩
    refine ⟨tx', ids', ?_, htx', hid⟩
    rintro rfl
    rw [txs_setTx_self] at htx'
    cases htx'
  · rintro ⟨tx', ids', -, htx', hid⟩
    exact ⟨tx', ids', htx', hid⟩

theorem not_marked (h : ∀ tx, s.txs tx = none) : ¬ s.Marked id := by
  rintro ⟨tx, ids, htx, -⟩
  rw [h tx] at htx
  cases htx

/-- The memory has what is in the table and what has been marked since.  As long as it has no
backend it is empty and nothing can be marked, nor can it be without a table. -/
structure Tracks (s : State) : Prop where
  mem_iff : s.Loaded → ∀ id, id ∈ s.schemas ↔ id ∈ s.rows ∨ s.Marked id
  unset : s.backend = false → s.schemas = ∅ ∧ ∀ id, ¬ s.Marked id
  noTable : s.table = none → ∀ id, ¬ s.Marked id

/-- The two copies agree where nothing is marked that is not in the table. -/
theorem Tracks.agree_iff (h : s.Tracks) (hloaded : s.Loaded) : s.Agree ↔ s.Settled :=
  forall_congr' fun id ↦ (iff_congr (h.mem_iff hloaded id) Iff.rfl).trans or_iff_left_iff_imp

theorem Tracks.agree (h : s.Tracks) (hloaded : s.Loaded) (hsettled : s.Settled) : s.Agree :=
  (h.agree_iff hloaded).mpr hsettled

theorem tracks_newSchemaSet (table : Table) : (newSchemaSet table).Tracks where
  mem_iff hloaded id := by
    rcases hloaded with hbackend | hrows
    · cases hbackend
    · rw [hrows]
      exact iff_of_false (Finset.notMem_empty id) (not_or.mpr
        ⟨List.not_mem_nil, not_marked fun _ ↦ rfl⟩)
  unset _ := ⟨rfl, fun _ ↦ not_marked fun _ ↦ rfl⟩
  noTable _ _ := not_marked fun _ ↦ rfl

/-- A step that keeps track of the two copies, and leaves them in agreement if it ends a
transaction. -/
def Keeps (s : State) (a : Action) : Prop :=
  (s.step a).Tracks ∧ (s.Finishes a → (s.step a).Agree)

/-- A step without effect. -/
theorem Tracks.keeps_of_eq {a : Action} (h : s.Tracks) (hstep : s.step a = s)
    (hfinishes : s.Finishes a → s.Loaded ∧ s.Settled) : s.Keeps a := by
  rw [Keeps, hstep]
  exact ⟨h, fun hf ↦ h.agree (hfinishes hf).1 (hfinishes hf).2⟩

theorem Tracks.keeps_init (h : s.Tracks) {backend : Bool}
    (hok : s.Orderly (.init backend fails)) : s.Keeps (.init backend fails) := by
  cases backend with
  | false => exact h.keeps_of_eq rfl fun hf ↦ absurd hf.1 (by simp)
  | true =>
    obtain ⟨hloaded, hsettled⟩ := hok rfl
    cases hload : loadSchemaIDs fails s.table with
    | ok r =>
      obtain rfl := of_loadSchemaIDs_eq_ok hload
      have hstep : s.step (.init true fails) = { s with
          backend := true, table := some s.rows, schemas := s.rows.toFinset } := by
        simp only [step, init, hload, if_true]
        rfl
      have hbegin := (of_withinTx_eq_ok hload).1
      have hagree : (s.step (.init true fails)).Agree := by
        rw [hstep]
        exact fun id ↦ List.mem_toFinset
      refine ⟨⟨fun _ id ↦ (hagree id).trans (or_iff_left_of_imp ?_).symm, fun hunset ↦ ?_,
        fun hnone ↦ ?_⟩, fun _ ↦ hagree⟩
      · rw [hstep]
        exact hsettled hbegin id
      · rw [hstep] at hunset
        cases hunset
      · rw [hstep] at hnone
        cases hnone
    | error e =>
      -- the backend is set all the same, which only matters if nothing has been read before
      have hloaded : s.Loaded := hloaded.resolve_right fun hgoes ↦ by
        rw [loadSchemaIDs_eq_ok hgoes] at hload
        cases hload
      have hstep : s.step (.init true fails) = { s with backend := true } := by
        simp only [step, init, hload, if_true]
      have htracks : (s.step (.init true fails)).Tracks := by
        rw [hstep]
        exact ⟨fun _ ↦ h.mem_iff hloaded, fun hunset ↦ (by cases hunset), h.noTable⟩
      refine ⟨htracks, fun hf ↦ htracks.agree ?_ ?_⟩
      · rw [hstep]
        exact .inl rfl
      · rw [hstep]
        exact hsettled hf.2

theorem Tracks.keeps_begin (h : s.Tracks) (tx : ℕ) : s.Keeps (.begin tx) := by
  cases htx : s.txs tx with
  | some ids => exact h.keeps_of_eq (by simp only [step, begin, htx]) False.elim
  | none =>
    have hstep : s.step (.begin tx) = s.setTx tx (some []) := by simp only [step, begin, htx]
    have hmarked : ∀ id, (s.setTx tx (some [])).Marked id ↔ s.Marked id := by
      intro id
      rw [marked_setTx_some, or_iff_right List.not_mem_nil]
      refine ⟨fun ⟨tx', ids, _, htx', hid⟩ ↦ ⟨tx', ids, htx', hid⟩, fun ⟨tx', ids, htx', hid⟩ ↦ ?_⟩
      refine ⟨tx', ids, ?_, htx', hid⟩
      rintro rfl
      rw [htx] at htx'
      cases htx'
    rw [Keeps, hstep]
    refine ⟨⟨fun hloaded id ↦ ?_, fun hunset ↦ ?_, fun hnone id hid ↦ ?_⟩, False.elim⟩
    · rw [hmarked]
      exact h.mem_iff hloaded id
    · exact ⟨(h.unset hunset).1, fun id hid ↦ (h.unset hunset).2 id ((hmarked id).mp hid)⟩
    · exact h.noTable hnone id ((hmarked id).mp hid)

theorem Tracks.keeps_markSchemaID (h : s.Tracks) (tx : ℕ) :
    s.Keeps (.markSchemaID schemaID tx fails) := by
  by_cases hbackend : s.backend = true
  · cases htx : s.txs tx with
    | none =>
      exact h.keeps_of_eq (by simp only [step, markSchemaID, htx, hbackend, if_true]) False.elim
    | some ids =>
      cases hpersist : persistSchemaID fails schemaID s.table ids with
      | error e =>
        exact h.keeps_of_eq (by simp only [step, markSchemaID, htx, hbackend, hpersist, if_true])
          False.elim
      | ok ids' =>
        obtain ⟨⟨rows, htable⟩, rfl⟩ := of_persistSchemaID_eq_ok hpersist
        have hstep : s.step (.markSchemaID schemaID tx fails) =
            { s.setTx tx (some (ids ++ [schemaID])) with
              schemas := insert schemaID s.schemas } := by
          simp only [step, markSchemaID, htx, hbackend, hpersist, if_true]
        rw [Keeps, hstep]
        refine ⟨⟨fun _ id ↦ ?_, fun hunset ↦ ?_, fun hnone ↦ ?_⟩, False.elim⟩
        · show id ∈ insert schemaID s.schemas ↔
            id ∈ s.rows ∨ (s.setTx tx (some (ids ++ [schemaID]))).Marked id
          rw [Finset.mem_insert, h.mem_iff (.inl hbackend), marked_setTx_some, marked_iff htx,
            List.mem_append, List.mem_singleton]
          tauto
        · exact absurd (hbackend.symm.trans hunset) (by simp)
        · exact absurd (htable.symm.trans hnone) (by simp)
  · exact h.keeps_of_eq (by simp only [step, markSchemaID, hbackend]; rfl) False.elim

/-- A transaction that is rolled back had marked nothing that is not in the table. -/
theorem Tracks.setTx_none (h : s.Tracks) (hloaded : s.Loaded) (hsettled : s.Settled)
    (htx : s.txs tx = some ids) : (s.setTx tx none).Tracks ∧ (s.setTx tx none).Agree := by
  have hsub : ∀ id, (s.setTx tx none).Marked id → s.Marked id := fun id hid ↦
    (marked_iff htx).mpr (.inr ((marked_setTx_none s tx).mp hid))
  have hsettled' : (s.setTx tx none).Settled := fun id hid ↦ hsettled id (hsub id hid)
  have htracks : (s.setTx tx none).Tracks := by
    refine ⟨fun _ id ↦ ?_, fun hunset ↦ ⟨(h.unset hunset).1, fun id hid ↦ ?_⟩,
      fun hnone id hid ↦ ?_⟩
    · exact (h.agree hloaded hsettled id).trans (or_iff_left_of_imp (hsettled' id)).symm
    · exact (h.unset hunset).2 id (hsub id hid)
    · exact h.noTable hnone id (hsub id hid)
  exact ⟨htracks, htracks.agree hloaded hsettled'⟩

theorem Tracks.keeps_rollback (h : s.Tracks) (hok : s.Orderly (.rollback tx)) :
    s.Keeps (.rollback tx) := by
  cases htx : s.txs tx with
  | none =>
    have hstep : s.step (.rollback tx) = s := by
      show s.setTx tx none = s
      rw [setTx, ← htx, Function.update_eq_self]
    refine h.keeps_of_eq hstep fun hf ↦ ?_
    rw [Finishes, htx] at hf
    cases hf
  | some ids =>
    obtain ⟨hloaded, hsettled⟩ := hok (by rw [htx]; rfl)
    have hend := h.setTx_none hloaded hsettled htx
    exact ⟨hend.1, fun _ ↦ hend.2⟩

theorem Tracks.keeps_commit (h : s.Tracks) (hok : s.Orderly (.commit tx fails)) :
    s.Keeps (.commit tx fails) := by
  cases htx : s.txs tx with
  | none =>
    refine h.keeps_of_eq (by simp only [step, commit, htx]) fun hf ↦ ?_
    rw [Finishes, htx] at hf
    cases hf
  | some ids =>
    obtain ⟨hloaded, hothers, hsettled⟩ := hok ids htx
    by_cases hcommit : fails .commit = true
    · have hstep : s.step (.commit tx fails) = s.setTx tx none := by
        simp only [step, commit, htx, hcommit, if_true]
      have hend := h.setTx_none hloaded (hsettled hcommit) htx
      rw [Keeps, hstep]
      exact ⟨hend.1, fun _ ↦ hend.2⟩
    · have hstep : s.step (.commit tx fails) =
          { s.setTx tx none with table := s.table.map (· ++ ids) } := by
        simp only [step, commit, htx, hcommit]
        rfl
      have hrows : ∀ id, id ∈ (s.step (.commit tx fails)).rows ↔ id ∈ s.rows ∨ id ∈ ids := by
        intro id
        rw [hstep]
        show id ∈ (s.table.map (· ++ ids)).getD [] ↔ id ∈ s.table.getD [] ∨ id ∈ ids
        cases htable : s.table with
        | some rows => exact List.mem_append
        | none =>
          have hid : id ∉ ids := fun hid ↦ h.noTable htable id ⟨tx, ids, htx, hid⟩
          exact (or_iff_left hid).symm
      have hmarked : ∀ id, (s.step (.commit tx fails)).Marked id ↔ s.MarkedBut tx id := by
        rw [hstep]
        exact fun id ↦ marked_setTx_none s tx
      have hagree : (s.step (.commit tx fails)).Agree := by
        intro id
        have hschemas : (s.step (.commit tx fails)).getSchemaIDs = s.schemas := by rw [hstep]; rfl
        rw [hschemas, hrows, h.mem_iff hloaded, marked_iff htx, ← or_assoc]
        exact or_iff_left_of_imp (hothers id)
      refine ⟨⟨fun _ id ↦ (hagree id).trans (or_iff_left_of_imp fun hid ↦ ?_).symm,
        fun hunset ↦ ?_, fun hnone id hid ↦ ?_⟩, fun _ ↦ hagree⟩
      · exact (hrows id).mpr (hothers id ((hmarked id).mp hid))
      · have hunset : s.backend = false := by rwa [hstep] at hunset
        rw [hstep]
        refine ⟨(h.unset hunset).1, fun id hid ↦ (h.unset hunset).2 id ?_⟩
        exact (marked_iff htx).mpr (.inr ((marked_setTx_none s tx).mp hid))
      · have hnone : s.table = none := by
          rw [hstep] at hnone
          exact Option.map_eq_none_iff.mp hnone
        exact h.noTable hnone id ((marked_iff htx).mpr (.inr ((hmarked id).mp hid)))

/-- A schema that is removed goes from both copies. -/
theorem Tracks.keeps_removeSchemaID (h : s.Tracks)
    (hok : s.Orderly (.removeSchemaID schemaID fails)) :
    s.Keeps (.removeSchemaID schemaID fails) := by
  by_cases hbackend : s.backend = true
  · cases hdelete : deleteSchemaID fails schemaID s.table with
    | error e =>
      refine h.keeps_of_eq (by simp only [step, removeSchemaID, hbackend, hdelete, if_true]) ?_
      exact fun hf ↦ ⟨.inl hbackend, (hok hbackend hf.2).1⟩
    | ok r =>
      obtain ⟨hgoes, rows, htable, rfl⟩ := of_deleteSchemaID_eq_ok hdelete
      obtain ⟨hsettled, hmarked⟩ := hok hbackend (hgoes .begin (by simp))
      have hstep : s.step (.removeSchemaID schemaID fails) = { s with
          table := some (rows.filter (· != schemaID)), schemas := s.schemas.erase schemaID } := by
        simp only [step, removeSchemaID, hbackend, hdelete, if_true]
      have hrows : s.rows = rows := by rw [State.rows, htable, Option.getD_some]
      have hagree : (s.step (.removeSchemaID schemaID fails)).Agree := by
        rw [hstep]
        intro id
        show id ∈ s.schemas.erase schemaID ↔ id ∈ rows.filter (· != schemaID)
        have hold : id ∈ s.schemas ↔ id ∈ s.rows := h.agree (.inl hbackend) hsettled id
        rw [Finset.mem_erase, hold, hrows, List.mem_filter, bne_iff_ne, and_comm]
      refine ⟨⟨fun _ id ↦ (hagree id).trans (or_iff_left_of_imp fun hid ↦ ?_).symm,
        fun hunset ↦ ?_, fun hnone ↦ ?_⟩, fun _ ↦ hagree⟩
      · rw [hstep] at hid ⊢
        show id ∈ rows.filter (· != schemaID)
        have hne : id ≠ schemaID := fun heq ↦ hmarked hgoes (heq ▸ hid)
        exact List.mem_filter.mpr ⟨hrows ▸ hsettled id hid, by simpa using hne⟩
      · rw [hstep] at hunset
        exact absurd (hbackend.symm.trans hunset) (by simp)
      · rw [hstep] at hnone
        cases hnone
  · exact h.keeps_of_eq (by simp only [step, removeSchemaID, hbackend]; rfl)
      fun hf ↦ absurd hf.1 hbackend

/-- **What an orderly step does.** -/
theorem Tracks.keeps {a : Action} (h : s.Tracks) (hok : s.Orderly a) : s.Keeps a := by
  cases a with
  | init backend fails => exact h.keeps_init hok
  | begin tx => exact h.keeps_begin tx
  | markSchemaID schemaID tx fails => exact h.keeps_markSchemaID tx
  | commit tx fails => exact h.keeps_commit hok
  | rollback tx => exact h.keeps_rollback hok
  | removeSchemaID schemaID fails => exact h.keeps_removeSchemaID hok

end State

/-! ## Runs -/

/-- After every transaction of the run the two copies agree. -/
def AgreesThroughout (table : Table) (as : List Action) : Prop :=
  Machine.Along State.step (fun s a ↦ s.Finishes a → (s.step a).Agree) (newSchemaSet table) as

/-- **After every transaction of an orderly run the memory has the identifiers of the table.** -/
theorem agreesThroughout_of_orderly (table : Table) (as : List Action)
    (h : Machine.Along State.step State.Orderly (newSchemaSet table) as) :
    AgreesThroughout table as :=
  Machine.along_mono (fun _ _ htracks hok ↦ htracks.keeps hok) (State.tracks_newSchemaSet table) h

/-- A migration that goes through, after one that has been waiting for its event. -/
theorem agreesThroughout_migrated : AgreesThroughout (some ["network"])
    [.init true fun _ ↦ false, .begin 0, .markSchemaID "subnet" 0 fun _ ↦ false,
      .commit 0 fun _ ↦ false, .removeSchemaID "network" fun _ ↦ false] := by
  refine agreesThroughout_of_orderly _ _ ⟨?_, trivial, trivial, ?_, ?_, trivial⟩
  · intro _
    exact ⟨.inr (by simp [Goes]), fun _ _ hid ↦ absurd hid (State.not_marked fun _ ↦ rfl)⟩
  · intro ids _
    refine ⟨.inl rfl, ?_, fun h ↦ by cases h⟩
    rintro id ⟨tx, ids', hne, htx, -⟩
    change (((newSchemaSet none).setTx 0 (some [])).setTx 0 (some ["subnet"])).txs tx =
      some ids' at htx
    rw [State.txs_setTx_ne hne, State.txs_setTx_ne hne] at htx
    cases htx
  · have hnone : ∀ tx, ((((newSchemaSet none).setTx 0 (some [])).setTx 0
        (some ["subnet"])).setTx 0 none).txs tx = none := by
      intro tx
      by_cases hne : tx = 0
      · rw [hne, State.txs_setTx_self]
      · rw [State.txs_setTx_ne hne, State.txs_setTx_ne hne, State.txs_setTx_ne hne]
        rfl
    intro _ _
    exact ⟨fun id hid ↦ absurd hid (State.not_marked hnone), fun _ ↦ State.not_marked hnone⟩

/-- A migration that marks a schema and is rolled back: what it has marked stays in the memory. -/
theorem not_agreesThroughout_rollback : ¬ ∀ table as, AgreesThroughout table as := by
  intro h
  have hrun := h none [.init true fun _ ↦ false, .begin 0, .markSchemaID "network" 0 fun _ ↦ false,
    .rollback 0]
  have hagree := hrun.2.2.2.1 rfl "network"
  revert hagree
  decide

end PostMigration

end Gohan
