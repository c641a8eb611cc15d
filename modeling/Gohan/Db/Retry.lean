import Mathlib.Data.List.Basic
import Mathlib.Data.List.Infix

/-!
# Trying again

`WithinTemplate` runs a function in a transaction and commits.  If that fails with an error that the
database gives for a deadlock, it tries again in a new transaction, a number of times.  A
transaction that is not closed in the end is closed on the way out, also when the function panics,
and an error of that is only logged.

All that can happen from outside is in `Attempt`: the errors of `begin`, `Commit` and `Close`, and
what the function does.  It may call `Commit` and `Close` itself.

What an attempt ends in does not depend on the closing of its transaction (`err_tryWithinTx`), and
the attempts are those up to the first that does not fail temporarily, or the last one allowed
(`loop_spec`).  The rest follows (`withinTemplate_sound`).
-/

set_option autoImplicit false

namespace Gohan.Within

/-! ## Transactions -/

/-- How a call ends that does not return nil. -/
inductive Failure where
  | error (message : String)
  | panic (value : String)

/-- A call that returns an error or nil. -/
abbrev Result := Except Failure Unit

/-- The result that an error is, if there is one. -/
def returned : Option String → Result
  | none => .ok ()
  | some message => .error (.error message)

/-- A transaction, as far as it has come. -/
structure Tx where
  closed : Bool
  /-- For the record: a `Commit` has succeeded. -/
  committed : Bool
  /-- For the record: `Close` has been called. -/
  closeCalled : Bool

/-- A transaction that has just begun. -/
def Tx.begun : Tx := ⟨false, false, false⟩

/-- `Commit`, with the error that the database has for it. -/
def Tx.commit (tx : Tx) : Option String → Tx × Result
  | none => ({ tx with closed := true, committed := true }, .ok ())
  | some message => (tx, .error (.error message))

/-- `Close`, which rolls back if the transaction is not closed. -/
def Tx.close (tx : Tx) (rollback : Option String) : Tx × Result :=
  if tx.closed then ({ tx with closeCalled := true }, .ok ())
  else ({ tx with closed := rollback.isNone, closeCalled := true }, returned rollback)

/-- What a function may do with its transaction. -/
inductive Use where
  | commit (err : Option String)
  | close (err : Option String)

/-- One use of a transaction. -/
def Tx.use (tx : Tx) : Use → Tx
  | .commit err => (tx.commit err).1
  | .close err => (tx.close err).1

/-! ## The source -/

/-- `IsTemporaryDatabaseError`, for the text of an error. -/
def isTemporaryDatabaseError (err : String) : Bool :=
  ["Deadlock found when trying to get lock; try restarting transaction",
    "Lock wait timeout exceeded; try restarting transaction",
    "try restarting transaction",
    "database is locked"].any fun msg ↦ decide (msg.toList <:+: err.toList)

/-- A panic is no error, and nothing is tried again. -/
def Failure.isTemporary : Failure → Bool
  | .error message => isTemporaryDatabaseError message
  | .panic _ => false

/-- What happens from outside in one attempt. -/
structure Attempt where
  beginErr : Option String
  /-- The calls of `Commit` and `Close` that the function makes. -/
  uses : List Use
  /-- How the function ends. -/
  fn : Result
  commitErr : Option String
  closeErr : Option String

/-- `tryToCommit`. -/
def tryToCommit (a : Attempt) (tx : Tx) : Tx × Result :=
  let tx := a.uses.foldl Tx.use tx
  match a.fn with
  | .error failure => (tx, .error failure)
  | .ok () => tx.commit a.commitErr

/-- An attempt that has been made: the transaction, if one was begun, as it is left. -/
structure Attempted where
  tx : Option Tx
  err : Result

/-- `tryWithinTx`, with the deferred function. -/
def tryWithinTx (a : Attempt) : Attempted :=
  match a.beginErr with
  | some message => ⟨none, .error (.error message)⟩
  | none =>
    let (tx, err) := tryToCommit a .begun
    ⟨some (if tx.closed then tx else (tx.close a.closeErr).1), err⟩

/-- The attempts, and what is returned. -/
structure Run where
  attempts : List Attempted
  result : Result

/-- The loop of `WithinTemplate`. -/
def loop (retries : ℕ) (outcomes : ℕ → Attempt) (attempt : ℕ) : Run :=
  let tried := tryWithinTx (outcomes attempt)
  match tried.err with
  | .ok () => ⟨[tried], .ok ()⟩
  | .error failure =>
    if failure.isTemporary = false then ⟨[tried], .error failure⟩
    else if retries < attempt + 1 then ⟨[tried], .error failure⟩
    else
      let rest := loop retries outcomes (attempt + 1)
      ⟨tried :: rest.attempts, rest.result⟩
  termination_by retries - attempt

/-- `WithinTemplate`. -/
def withinTemplate (retries : ℕ) (outcomes : ℕ → Attempt) : Run := loop retries outcomes 0

/-! ## What is to hold -/

namespace Attempt

/-- How the function ends with the commit after it. -/
def bodyErr (a : Attempt) : Result :=
  match a.fn with
  | .error failure => .error failure
  | .ok () => returned a.commitErr

/-- How an attempt ends: with the first error that there is. -/
def err (a : Attempt) : Result :=
  match a.beginErr with
  | some message => .error (.error message)
  | none => a.bodyErr

/-- The function and `Commit` succeed. -/
def Succeeds (a : Attempt) : Prop := a.beginErr = none ∧ a.fn = .ok () ∧ a.commitErr = none

/-- It fails with an error after which it is tried again. -/
def FailsTemporarily (a : Attempt) : Prop :=
  ∃ failure, a.err = .error failure ∧ failure.isTemporary = true

/-- The function does not call `Commit`. -/
def LeavesCommit (a : Attempt) : Prop := ∀ err, Use.commit err ∉ a.uses

end Attempt

/-- The transaction of the attempt has been committed. -/
def Attempted.committed (a : Attempted) : Bool := a.tx.any (·.committed)

/-- What is to hold of a run. -/
structure Sound (retries : ℕ) (outcomes : ℕ → Attempt) (run : Run) : Prop where
  attempts_le : run.attempts.length ≤ retries + 1
  /-- The state of a transaction is that before the next attempt, or at the end. -/
  settled : ∀ a ∈ run.attempts, ∀ tx, a.tx = some tx →
    tx.committed = true ∨ tx.closeCalled = true
  nil_iff : run.result = .ok () ↔ (outcomes (run.attempts.length - 1)).Succeeds
  /-- When nil is returned, the transaction of the last attempt has been committed. -/
  committed : run.result = .ok () → ∃ a tx, run.attempts.getLast? = some a ∧ a.tx = some tx ∧
    tx.committed = true
  once : (∀ i, (outcomes i).LeavesCommit) → run.attempts.countP (·.committed) ≤ 1
  atOnce : ∀ i < run.attempts.length, ∀ failure, (outcomes i).err = .error failure →
    failure.isTemporary = false → run.attempts.length = i + 1 ∧ run.result = .error failure
  givesUp : (∀ i ≤ retries, (outcomes i).FailsTemporarily) →
    run.attempts.length = retries + 1 ∧ run.result = (outcomes retries).err

/-! ## One attempt -/

theorem returned_eq_ok_iff {err : Option String} : returned err = .ok () ↔ err = none := by
  cases err <;> simp [returned]

theorem Attempt.err_eq_ok_iff (a : Attempt) : a.err = .ok () ↔ a.Succeeds := by
  unfold Attempt.err Attempt.bodyErr Attempt.Succeeds
  cases a.beginErr with
  | some message => simp
  | none =>
    cases a.fn with
    | error failure => simp
    | ok => simp [returned_eq_ok_iff]

theorem snd_commit (tx : Tx) (err : Option String) : (tx.commit err).2 = returned err := by
  cases err <;> rfl

theorem snd_tryToCommit (a : Attempt) (tx : Tx) : (tryToCommit a tx).2 = a.bodyErr := by
  unfold tryToCommit Attempt.bodyErr
  cases a.fn with
  | error failure => rfl
  | ok => exact snd_commit _ _

/-- The deferred function has no say in how an attempt ends. -/
theorem err_tryWithinTx (a : Attempt) : (tryWithinTx a).err = a.err := by
  unfold tryWithinTx Attempt.err
  cases a.beginErr with
  | some message => rfl
  | none => exact snd_tryToCommit a .begun

/-- A transaction is closed only by `Commit` or `Close`. -/
def Tx.Honest (tx : Tx) : Prop :=
  tx.closed = true → tx.committed = true ∨ tx.closeCalled = true

theorem Tx.Honest.commit {tx : Tx} (h : tx.Honest) (err : Option String) :
    (tx.commit err).1.Honest := by
  cases err with
  | none => exact fun _ ↦ Or.inl rfl
  | some message => exact h

theorem closeCalled_close (tx : Tx) (err : Option String) :
    (tx.close err).1.closeCalled = true := by
  unfold Tx.close
  split <;> rfl

theorem Tx.Honest.foldl_use {tx : Tx} (h : tx.Honest) (uses : List Use) :
    (uses.foldl Tx.use tx).Honest := by
  induction uses generalizing tx with
  | nil => exact h
  | cons use uses ih =>
    refine ih ?_
    cases use with
    | commit err => exact h.commit err
    | close err => exact fun _ ↦ Or.inr (closeCalled_close tx err)

theorem honest_tryToCommit (a : Attempt) : (tryToCommit a .begun).1.Honest := by
  have hbegun : Tx.begun.Honest := fun h ↦ absurd h Bool.false_ne_true
  have huses : (a.uses.foldl Tx.use .begun).Honest := hbegun.foldl_use a.uses
  unfold tryToCommit
  cases a.fn with
  | error failure => exact huses
  | ok => exact huses.commit a.commitErr

/-- A transaction that has been begun is not left as it is. -/
theorem settled_tryWithinTx {a : Attempt} {tx : Tx} (h : (tryWithinTx a).tx = some tx) :
    tx.committed = true ∨ tx.closeCalled = true := by
  unfold tryWithinTx at h
  cases hbegin : a.beginErr with
  | some message => simp [hbegin] at h
  | none =>
    simp only [hbegin, Option.some.injEq] at h
    subst h
    split
    next hclosed => exact honest_tryToCommit a hclosed
    next => exact Or.inr (closeCalled_close _ _)

/-- Closing a transaction commits nothing, and undoes no commit. -/
theorem committed_close (tx : Tx) (err : Option String) :
    (tx.close err).1.committed = tx.committed := by
  unfold Tx.close
  split <;> rfl

/-- The deferred function leaves the record of the commit as it is. -/
theorem committed_deferred (tx : Tx) (err : Option String) :
    (if tx.closed then tx else (tx.close err).1).committed = tx.committed := by
  split
  · rfl
  · exact committed_close tx err

/-- An attempt that succeeds has begun a transaction and committed it. -/
theorem committed_of_succeeds {a : Attempt} (h : a.Succeeds) :
    ∃ tx, (tryWithinTx a).tx = some tx ∧ tx.committed = true := by
  obtain ⟨hbegin, hfn, hcommit⟩ := h
  refine ⟨_, by simp only [tryWithinTx, hbegin]; rfl, ?_⟩
  rw [committed_deferred]
  simp only [tryToCommit, hfn, hcommit, Tx.commit]

/-- The attempt that commits is one that succeeds. -/
theorem succeeds_of_committed {a : Attempt} (hleaves : a.LeavesCommit)
    (h : (tryWithinTx a).committed = true) : a.Succeeds := by
  have huses (uses : List Use) (hno : ∀ err, Use.commit err ∉ uses) (tx : Tx) :
      (uses.foldl Tx.use tx).committed = tx.committed := by
    induction uses generalizing tx with
    | nil => rfl
    | cons use uses ih =>
      rw [List.foldl_cons, ih fun err hmem ↦ hno err (List.mem_cons_of_mem _ hmem)]
      cases use with
      | commit err => exact absurd List.mem_cons_self (hno err)
      | close err => exact committed_close tx err
  rw [← Attempt.err_eq_ok_iff, ← err_tryWithinTx]
  unfold tryWithinTx at h ⊢
  cases hbegin : a.beginErr with
  | some message => simp [hbegin, Attempted.committed] at h
  | none =>
    simp only [hbegin, Attempted.committed, Option.any_some, committed_deferred] at h ⊢
    unfold tryToCommit at h ⊢
    cases hfn : a.fn with
    | error failure => simp [hfn, huses _ hleaves, Tx.begun] at h
    | ok =>
      cases hcommit : a.commitErr with
      | none => rfl
      | some message => simp [hfn, hcommit, Tx.commit, huses _ hleaves, Tx.begun] at h

/-! ## The loop -/

theorem loop_stop {retries : ℕ} {outcomes : ℕ → Attempt} {attempt : ℕ}
    (h : (outcomes attempt).FailsTemporarily → retries ≤ attempt) :
    loop retries outcomes attempt =
      ⟨[tryWithinTx (outcomes attempt)], (outcomes attempt).err⟩ := by
  have herr := err_tryWithinTx (outcomes attempt)
  rw [loop]
  split
  next hok => rw [← herr, hok]
  next failure hfailure =>
    split
    next => rw [← herr, hfailure]
    next htemporary =>
      have hle : retries ≤ attempt :=
        h ⟨failure, herr.symm.trans hfailure, (Bool.not_eq_false _).mp htemporary⟩
      rw [if_pos (Nat.lt_succ_of_le hle), ← herr, hfailure]

theorem loop_again {retries : ℕ} {outcomes : ℕ → Attempt} {attempt : ℕ}
    (h : (outcomes attempt).FailsTemporarily) (hlt : attempt < retries) :
    loop retries outcomes attempt =
      ⟨tryWithinTx (outcomes attempt) :: (loop retries outcomes (attempt + 1)).attempts,
        (loop retries outcomes (attempt + 1)).result⟩ := by
  obtain ⟨failure, hfailure, htemporary⟩ := h
  rw [loop]
  simp only [err_tryWithinTx, hfailure, htemporary]
  rw [if_neg Bool.noConfusion, if_neg (Nat.not_lt.mpr hlt)]

/-- **The attempts are those up to the first that does not fail temporarily, or the last one that
is allowed.** -/
theorem loop_spec (retries : ℕ) (outcomes : ℕ → Attempt) (attempt : ℕ) (h : attempt ≤ retries) :
    ∃ last, attempt ≤ last ∧ last ≤ retries ∧
      (loop retries outcomes attempt).attempts =
        (List.range' attempt (last + 1 - attempt)).map (fun i ↦ tryWithinTx (outcomes i)) ∧
      (loop retries outcomes attempt).result = (outcomes last).err ∧
      (∀ i, attempt ≤ i → i < last → (outcomes i).FailsTemporarily) ∧
      ((outcomes last).FailsTemporarily → last = retries) := by
  by_cases hagain : (outcomes attempt).FailsTemporarily ∧ attempt < retries
  · obtain ⟨last, hle, hretries, hattempts, hresult, hbefore, hlast⟩ :=
      loop_spec retries outcomes (attempt + 1) hagain.2
    rw [loop_again hagain.1 hagain.2]
    refine ⟨last, Nat.le_of_succ_le hle, hretries, ?_, hresult, fun i hi hlt ↦ ?_, hlast⟩
    · rw [hattempts, show last + 1 - attempt = (last + 1 - (attempt + 1)) + 1 by omega,
        List.range'_succ, List.map_cons]
    · rcases Nat.eq_or_lt_of_le hi with rfl | hgt
      · exact hagain.1
      · exact hbefore i hgt hlt
  · have hstop : (outcomes attempt).FailsTemporarily → retries ≤ attempt :=
      fun hfails ↦ Nat.not_lt.mp fun hlt ↦ hagain ⟨hfails, hlt⟩
    rw [loop_stop hstop]
    refine ⟨attempt, le_rfl, h, ?_, rfl, fun i hi hlt ↦ absurd hlt (Nat.not_lt.mpr hi),
      fun hfails ↦ Nat.le_antisymm h (hstop hfails)⟩
    rw [Nat.add_sub_cancel_left]
    rfl
  termination_by retries - attempt

/-- **`WithinTemplate` tries as often as it should, leaves no transaction open and commits at most
one.** -/
theorem withinTemplate_sound (retries : ℕ) (outcomes : ℕ → Attempt) :
    Sound retries outcomes (withinTemplate retries outcomes) := by
  obtain ⟨last, -, hretries, hattempts, hresult, hbefore, hlast⟩ :=
    loop_spec retries outcomes 0 (Nat.zero_le retries)
  rw [Nat.sub_zero] at hattempts
  have hlength : (withinTemplate retries outcomes).attempts.length = last + 1 := by
    rw [withinTemplate, hattempts, List.length_map, List.length_range']
  refine ⟨by omega, fun a ha tx htx ↦ ?_, ?_, fun hnil ↦ ?_, fun hleaves ↦ ?_,
    fun i hi failure hfailure hno ↦ ?_, fun hall ↦ ?_⟩
  · rw [withinTemplate, hattempts] at ha
    obtain ⟨i, -, rfl⟩ := List.mem_map.mp ha
    exact settled_tryWithinTx htx
  · rw [hlength, Nat.add_sub_cancel, withinTemplate, hresult, Attempt.err_eq_ok_iff]
  · rw [withinTemplate, hresult, Attempt.err_eq_ok_iff] at hnil
    obtain ⟨tx, htx, hcommitted⟩ := committed_of_succeeds hnil
    refine ⟨tryWithinTx (outcomes last), tx, ?_, htx, hcommitted⟩
    rw [withinTemplate, hattempts, List.range'_1_concat, List.map_append, Nat.zero_add]
    exact List.getLast?_concat
  · have hnone : ((List.range' 0 last).map fun i ↦ tryWithinTx (outcomes i)).countP
        (·.committed) = 0 := by
      refine List.countP_eq_zero.mpr fun a ha hcommitted ↦ ?_
      obtain ⟨i, hi, rfl⟩ := List.mem_map.mp ha
      have hlt : i < last := by simpa using hi
      obtain ⟨failure, hfailure, -⟩ := hbefore i (Nat.zero_le i) hlt
      have hok := (Attempt.err_eq_ok_iff _).mpr (succeeds_of_committed (hleaves i) hcommitted)
      cases hok.symm.trans hfailure
    rw [withinTemplate, hattempts, List.range'_1_concat, List.map_append, List.countP_append,
      hnone, Nat.zero_add]
    exact List.countP_le_length
  · rw [hlength] at hi ⊢
    have heq : i = last := by
      by_contra hne
      obtain ⟨failure', hfailure', htemporary⟩ := hbefore i (Nat.zero_le i) (by omega)
      cases hfailure.symm.trans hfailure'
      exact Bool.false_ne_true (hno.symm.trans htemporary)
    subst heq
    exact ⟨rfl, hresult.trans hfailure⟩
  · obtain rfl : last = retries := hlast (hall last hretries)
    exact ⟨hlength, hresult⟩

end Gohan.Within
