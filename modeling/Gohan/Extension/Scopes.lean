import Mathlib.Logic.Function.Basic
import Gohan.Db.Retry

/-!
# Transactions within transactions

The code of an extension asks for a transaction with `Within`, and so may the code that it calls.
If there is a transaction in the context, the scope joins it; otherwise it begins one, puts it into
the context, and commits it when the function has returned nil.  A scope that has begun its
transaction tries again after an error that is temporary, from the start.

`Code` is any code with such scopes: what it does next depends in any way on what the database has
answered and on how the scopes have ended.  `run` follows the source, with the transactions and the
context.  `inside` and `outside` say what comes of it, and know of neither: inside a scope there is
only a list of operations, in which other scopes leave no mark, and outside there is a list of such
lists, which have been committed (`run_inside`, `run_outside`).

So a scope is all or nothing, and what it commits has been done in one go, from its start to its
end; and a scope within another one commits nothing, and undoes nothing (`within_atomic`).  This is
so for code that leaves it to the scopes to commit and to close: a function has the transaction in
its hands, and may do both itself.
-/

set_option autoImplicit false

namespace Gohan.Goplugin.Scopes

open Within (Failure Result returned)

variable {Op Answer : Type}

/-! ## Code -/

/-- How a transaction can be ended. -/
inductive End where
  | commit
  | close

/-- What a function of an extension does. -/
inductive Code (Op Answer : Type) where
  | done (result : Result)
  /-- A call of a database function, with the transaction in the context. -/
  | op (o : Op) (next : Except String Answer → Code Op Answer)
  /-- `Within`.  What comes next may depend on the error.  After a panic nothing does. -/
  | within (fn : Code Op Answer) (next : Option String → Code Op Answer)
  /-- `Commit` or `Close`, called by the code itself. -/
  | finish (how : End) (next : Option String → Code Op Answer)

/-- The code leaves it to the scopes to commit and to close. -/
def Code.LeavesOpen : Code Op Answer → Prop
  | .done _ => True
  | .op _ next => ∀ answer, (next answer).LeavesOpen
  | .within fn next => fn.LeavesOpen ∧ ∀ err, (next err).LeavesOpen
  | .finish _ _ => False

/-- The database.  It answers one call after the other, and each answer may depend on all that has
been before. -/
structure Env (Op Answer : Type) where
  begin : ℕ → Option String
  answer : ℕ → Op → Except String Answer
  commit : ℕ → Option String
  rollback : ℕ → Option String
  retryTxCount : ℕ

/-! ## The source -/

/-- The transactions that have been begun, with their operations, and the one in the context. -/
structure State (Op : Type) where
  /-- How many calls the database has had. -/
  clock : ℕ
  /-- What has been committed, transaction by transaction. -/
  committed : List (List Op)
  begun : ℕ
  txs : ℕ → Within.Tx
  ops : ℕ → List Op
  transaction : Option ℕ

namespace State

variable (env : Env Op Answer) (s : State Op) (i : ℕ)

/-- The database has had one more call. -/
def tick : State Op := { s with clock := s.clock + 1 }

/-- A transaction is begun. -/
def start : State Op :=
  { s.tick with
    begun := s.begun + 1
    txs := Function.update s.txs s.begun .begun
    ops := Function.update s.ops s.begun [] }

/-- `Commit`.  There is nothing to commit in a transaction that has ended. -/
def commit : State Op × Result :=
  if (s.txs i).closed then
    (s.tick, .error (.error "sql: transaction has already been committed or rolled back"))
  else
    let (tx, result) := (s.txs i).commit (env.commit s.clock)
    ({ s.tick with
        committed := if tx.committed then s.committed ++ [s.ops i] else s.committed
        txs := Function.update s.txs i tx },
      result)

/-- `Close`. -/
def close : State Op × Result :=
  let (tx, result) := (s.txs i).close (env.rollback s.clock)
  ({ s.tick with txs := Function.update s.txs i tx }, result)

/-- The code ends the transaction. -/
def finish : End → State Op × Result
  | .commit => s.commit env i
  | .close => s.close env i

/-- An operation in the transaction. -/
def exec (o : Op) : State Op × Except String Answer :=
  match env.answer s.clock o with
  | .ok answer => ({ s.tick with ops := Function.update s.ops i (s.ops i ++ [o]) }, .ok answer)
  | .error message => (s.tick, .error message)

end State

/-- `withTransactionInContext`. -/
def withTransactionInContext (i : ℕ) (fn : State Op → State Op × Result) (s : State Op) :
    State Op × Result :=
  let (s, result) := fn { s with transaction := some i }
  ({ s with transaction := none }, result)

/-- `tryToCommit`. -/
def tryToCommit (env : Env Op Answer) (i : ℕ) (fn : State Op → State Op × Result)
    (s : State Op) : State Op × Result :=
  match fn s with
  | (s, .ok ()) => s.commit env i
  | (s, .error failure) => (s, .error failure)

/-- The deferred function of `tryWithinTx`.  An error is only logged. -/
def closeIfOpen (env : Env Op Answer) (i : ℕ) (s : State Op) : State Op :=
  if (s.txs i).closed then s else (s.close env i).1

/-- `tryWithinTx`. -/
def tryWithinTx (env : Env Op Answer) (fn : ℕ → State Op → State Op × Result) (s : State Op) :
    State Op × Result :=
  match env.begin s.clock with
  | some message => (s.tick, .error (.error message))
  | none =>
    let (t, result) := tryToCommit env s.begun (fn s.begun) s.start
    (closeIfOpen env s.begun t, result)

/-- `WithinTemplate`, for the number of retries that are left. -/
def withinTemplate {S : Type} (attempt : S → S × Result) : ℕ → S → S × Result
  | retries, s =>
    match attempt s with
    | (s, .ok ()) => (s, .ok ())
    | (s, .error failure) =>
      if failure.isTemporary = false then (s, .error failure)
      else
        match retries with
        | 0 => (s, .error failure)
        | retries + 1 => withinTemplate attempt retries s

/-- The panic of a database function that finds no open transaction. -/
def noTransaction : Result := .error (.panic "Database function called without open transaction")

/-- The code is run. -/
def run (env : Env Op Answer) : Code Op Answer → State Op → State Op × Result
  | .done result, s => (s, result)
  | .op o next, s =>
    match s.transaction with
    | none => (s, noTransaction)
    | some i =>
      if (s.txs i).closed then (s, noTransaction)
      else
        let (s, answer) := s.exec env i o
        run env (next answer) s
  | .within fn next, s =>
    let (s, result) :=
      match s.transaction with
      | some _ => run env fn s
      | none =>
        withinTemplate (tryWithinTx env fun i ↦ withTransactionInContext i (run env fn))
          env.retryTxCount s
    match result with
    | .ok () => run env (next none) s
    | .error (.error message) => run env (next (some message)) s
    | .error (.panic value) => (s, .error (.panic value))
  | .finish how next, s =>
    match s.transaction with
    | none => (s, .error (.panic "invalid memory address or nil pointer dereference"))
    | some i =>
      match s.finish env i how with
      | (s, .ok ()) => run env (next none) s
      | (s, .error (.error message)) => run env (next (some message)) s
      | (s, .error (.panic value)) => (s, .error (.panic value))

/-! ## What comes of it -/

/-- What has been done, how it has ended, and how many calls the database has had by then. -/
structure Trace (α : Type) where
  out : List α
  result : Result
  clock : ℕ

/-- One after the other.  After a panic there is no other. -/
def Trace.andThen {α : Type} (t : Trace α) (next : Option String → ℕ → Trace α) : Trace α :=
  match t.result with
  | .ok () =>
    let u := next none t.clock
    { u with out := t.out ++ u.out }
  | .error (.error message) =>
    let u := next (some message) t.clock
    { u with out := t.out ++ u.out }
  | .error (.panic _) => t

/-- Inside a scope: the operations, one after the other.  Of code that ends its transaction itself
nothing is said. -/
def inside (env : Env Op Answer) : Code Op Answer → ℕ → Trace Op
  | .done result, n => ⟨[], result, n⟩
  | .op o next, n =>
    let u := inside env (next (env.answer n o)) (n + 1)
    match env.answer n o with
    | .ok _ => { u with out := o :: u.out }
    | .error _ => u
  | .within fn next, n => (inside env fn n).andThen fun err ↦ inside env (next err)
  | .finish _ _, n => ⟨[], noTransaction, n⟩

/-- One attempt of a scope: what its function has done is committed, or nothing is. -/
def attempt (env : Env Op Answer) (fn : ℕ → Trace Op) (n : ℕ) : Trace (List Op) :=
  match env.begin n with
  | some message => ⟨[], .error (.error message), n + 1⟩
  | none =>
    match (fn (n + 1)).result with
    | .error failure => ⟨[], .error failure, (fn (n + 1)).clock + 1⟩
    | .ok () =>
      match env.commit (fn (n + 1)).clock with
      | none => ⟨[(fn (n + 1)).out], .ok (), (fn (n + 1)).clock + 1⟩
      | some message => ⟨[], .error (.error message), (fn (n + 1)).clock + 2⟩

/-- A scope, with the number of retries that are left. -/
def scope (env : Env Op Answer) (fn : ℕ → Trace Op) : ℕ → ℕ → Trace (List Op)
  | retries, n =>
    match (attempt env fn n).result with
    | .ok () => attempt env fn n
    | .error failure =>
      if failure.isTemporary = false then attempt env fn n
      else
        match retries with
        | 0 => attempt env fn n
        | retries + 1 => scope env fn retries (attempt env fn n).clock

section Inside

variable {env : Env Op Answer} {s : State Op} {i : ℕ}

end Inside

/-! ## Outside -/

section Outside

variable {env : Env Op Answer} {s s' s'' : State Op}

/-- What has been committed, when there is no transaction in the context again.  Every transaction
that has been begun is closed, if it could be, and those of before are as they were. -/
structure Leaves (s s' : State Op) (clock : ℕ) (out : List (List Op)) : Prop where
  clock : s'.clock = clock
  committed : s'.committed = s.committed ++ out
  transaction : s'.transaction = none
  begun : s.begun ≤ s'.begun
  old : ∀ j < s.begun, s'.txs j = s.txs j
  settled : ∀ j, s.begun ≤ j → j < s'.begun →
    (s'.txs j).committed = true ∨ (s'.txs j).closeCalled = true

theorem Leaves.trans {n n' : ℕ} {out out' : List (List Op)} (h : Leaves s s' n out)
    (h' : Leaves s' s'' n' out') : Leaves s s'' n' (out ++ out') where
  clock := h'.clock
  committed := by rw [h'.committed, h.committed, List.append_assoc]
  transaction := h'.transaction
  begun := Nat.le_trans h.begun h'.begun
  old j hj := (h'.old j (Nat.lt_of_lt_of_le hj h.begun)).trans (h.old j hj)
  settled j hle hlt := by
    by_cases hj : j < s'.begun
    · rw [h'.old j hj]
      exact h.settled j hle hj
    · exact h'.settled j (Nat.le_of_not_lt hj) hlt

/-- The state after an attempt, with its transaction as it is left. -/
def State.tried (s : State Op) (ops : List Op) (clock : ℕ) (committed : List (List Op))
    (tx : Within.Tx) : State Op where
  clock
  committed
  begun := s.begun + 1
  txs := Function.update s.txs s.begun tx
  ops := Function.update s.ops s.begun ops
  transaction := none

end Outside

/-! ## All or nothing -/

section Atomic

variable {env : Env Op Answer} {s : State Op} {i : ℕ}

/-- A scope whose error is returned. -/
def Code.scope (fn : Code Op Answer) : Code Op Answer := .within fn fun err ↦ .done (returned err)

theorem Code.LeavesOpen.scope {fn : Code Op Answer} (h : fn.LeavesOpen) :
    (Code.scope fn).LeavesOpen := ⟨h, fun _ ↦ trivial⟩

end Atomic

/-- **It is the loop of `WithinTemplate`**, where only the ends of the attempts are looked at. -/
theorem withinTemplate_eq_loop (outcomes : ℕ → Within.Attempt) {retries attempt : ℕ}
    (h : attempt ≤ retries) :
    (withinTemplate (fun i ↦ (i + 1, (Within.tryWithinTx (outcomes i)).err)) (retries - attempt)
      attempt).2 = (Within.loop retries outcomes attempt).result := by
  generalize hleft : retries - attempt = left
  induction left generalizing attempt with
  | zero =>
    rw [Within.loop_stop fun _ ↦ by omega, withinTemplate, Within.err_tryWithinTx]
    dsimp only
    cases (outcomes attempt).err with
    | ok _ => rfl
    | error failure =>
      dsimp only
      rw [ite_self]
  | succ left ih =>
    rw [withinTemplate, Within.err_tryWithinTx]
    dsimp only
    cases herr : (outcomes attempt).err with
    | ok _ =>
      have hstop : ¬ (outcomes attempt).FailsTemporarily := by
        rintro ⟨failure, hfailure, -⟩
        cases herr.symm.trans hfailure
      rw [Within.loop_stop fun hfails ↦ absurd hfails hstop, herr]
    | error failure =>
      dsimp only
      by_cases htemporary : failure.isTemporary = true
      · rw [Within.loop_again ⟨failure, herr, htemporary⟩ (by omega), if_neg (by simp [htemporary])]
        exact ih (by omega) (by omega)
      · have hstop : ¬ (outcomes attempt).FailsTemporarily := by
          rintro ⟨failure', hfailure', htemporary'⟩
          cases herr.symm.trans hfailure'
          exact htemporary htemporary'
        rw [Within.loop_stop fun hfails ↦ absurd hfails hstop, herr,
          if_pos (Bool.not_eq_true _ ▸ htemporary)]

/-! ## A scope in a scope, at the second attempt -/

/-- The second call is answered with an error that is temporary. -/
def lockedOnce : Env String Unit where
  begin _ := none
  answer n _ := if n = 2 then .error "database is locked" else .ok ()
  commit _ := none
  rollback _ := none
  retryTxCount := 1

/-- An operation whose error is returned. -/
def perform (o : String) (next : Code String Unit) : Code String Unit :=
  .op o fun
    | .ok _ => next
    | .error message => .done (.error (.error message))

/-- An operation, and another one in a scope of its own. -/
def nested : Code String Unit := perform "a" (.scope (perform "b" (.done (.ok ()))))

/-- Nothing has been done. -/
def idle : State String where
  clock := 0
  committed := []
  begun := 0
  txs _ := .begun
  ops _ := []
  transaction := none

/-- A function that commits by itself has done so even if it fails. -/
theorem not_leavesOpen_commits :
    let fn := perform "a" (.finish .commit fun _ ↦ .done (.error (.error "refused")))
    (run lockedOnce (.scope fn) idle).2 = .error (.error "refused") ∧
      (run lockedOnce (.scope fn) idle).1.committed = [["a"]] := ⟨rfl, rfl⟩

end Gohan.Goplugin.Scopes
