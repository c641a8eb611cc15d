import Mathlib.Logic.Function.Basic
import Gohan.Logic.Machine
import Gohan.Db.CacheKey
import Gohan.Db.State
import Gohan.Db.Custom

/-!
# The query cache of a transaction

A cached transaction stands between its caller and another transaction.  It hands every operation
on, and forgets all it knows before one that might write.  What a `List` or a `LockList` returns it
keeps, under a key (`createKey`), and returns it again to a call with the same key; a `LockList`
only trusts what another `LockList` has returned, since otherwise nothing need be locked.

What is kept is always what the other transaction would return for the query that it was kept for
(`Coherent`).  But the key need not be the key of that query alone.  So the caller is told what the
other transaction would tell it exactly as long as two queries with one key are answered alike
(`transparent_iff`), and there are queries with one key that are not (`not_transparent`).  Where
nothing has a space in its name the cache is not noticed (`transparent_of_plain`).
-/

set_option autoImplicit false

namespace Gohan.Cache

/-! ## The wrapped transaction -/

/-- A resource, as it is returned. -/
structure Resource where
  schema : Schema
  data : Dict

/-- The operations that may write.  `Query` is one of them, since its text may be any. -/
inductive Write where
  | create (s : Schema) (data : Dict)
  | update (s : Schema) (data : Dict)
  | stateUpdate (s : Schema) (data : Dict) (state : Option ResourceState)
  | delete (s : Schema) (resourceID : Value)
  | deleteFilter (s : Schema) (filter : GoMap FilterVal)
  | exec (query : String) (args : List Value)
  | query (s : Schema) (query : String) (arguments : List Value)

/-- A transaction whose data nobody else changes.  It finds out what to return to a `List` or a
`LockList` from the `selectContext` that these make. -/
structure TxInterface (σ : Type) where
  select : σ → Schema → SelectContext → Go (List Resource × ℕ)
  /-- The data that is left, and what is returned. -/
  write : σ → Write → σ × Go (List Resource)

/-- `lockListContextHelper`. -/
def lockListContextHelper (s : Schema) (filter : GoMap FilterVal) (options : Option ViewOptions)
    (pg : Option Paginator) (lockPolicy : LockPolicy) : Go SelectContext := do
  let policyJoin ← DB.shouldJoin lockPolicy
  match options with
  | none => .ok { filter, join := policyJoin, paginator := pg }
  | some options =>
    .ok { filter, fields := options.Fields.map (·.map (normField · s.id)),
          join := policyJoin && options.Details, paginator := pg }

/-- `fetchContextHelper`. -/
def fetchContextHelper : Go (List Resource × ℕ) → Go Resource
  | .ok (resource :: _, _) => .ok resource
  | .ok ([], _) => .errorf "resource not found"
  | .error (.error format args) => .errorf "Failed to fetch %s: %s" (.str format :: args)
  | .error (.panic format args) => .panicf format args

/-- `lockFetchContextHelper`. -/
def lockFetchContextHelper : Go (List Resource × ℕ) → Go Resource
  | .ok (resource :: _, _) => .ok resource
  | .ok ([], _) => .errorf "resource not found"
  | .error (.error format args) =>
    .errorf "Failed to fetch and lock %s: %s" (.str format :: args)
  | .error (.panic format args) => .panicf format args

/-- A call of the cached transaction. -/
inductive Op where
  | write (w : Write)
  | list (s : Schema) (filter : GoMap FilterVal) (options : Option ViewOptions)
      (pg : Option Paginator)
  | fetch (s : Schema) (filter : GoMap FilterVal) (options : Option ViewOptions)
  | lockList (s : Schema) (filter : GoMap FilterVal) (options : Option ViewOptions)
      (pg : Option Paginator) (lockPolicy : LockPolicy)
  | lockFetch (s : Schema) (filter : GoMap FilterVal) (lockPolicy : LockPolicy)
      (options : Option ViewOptions)

/-- What a call returns. -/
inductive Answer where
  | wrote (result : Go (List Resource))
  | listed (result : Go (List Resource × ℕ))
  | fetched (result : Go Resource)

namespace TxInterface

variable {σ : Type} (W : TxInterface σ)

/-- `List`. -/
def list (data : σ) (s : Schema) (filter : GoMap FilterVal) (options : Option ViewOptions)
    (pg : Option Paginator) : Go (List Resource × ℕ) :=
  W.select data s (listContextHelper s filter options pg)

/-- `LockList`. -/
def lockList (data : σ) (s : Schema) (filter : GoMap FilterVal) (options : Option ViewOptions)
    (pg : Option Paginator) (lockPolicy : LockPolicy) : Go (List Resource × ℕ) := do
  let sc ← lockListContextHelper s filter options pg lockPolicy
  W.select data s sc

/-- What the transaction answers. -/
def answer (data : σ) : Op → Answer
  | .write w => .wrote (W.write data w).2
  | .list s filter options pg => .listed (W.list data s filter options pg)
  | .fetch s filter options => .fetched (fetchContextHelper (W.list data s filter options none))
  | .lockList s filter options pg lockPolicy =>
    .listed (W.lockList data s filter options pg lockPolicy)
  | .lockFetch s filter lockPolicy _ =>
    .fetched (lockFetchContextHelper (W.lockList data s filter none none lockPolicy))

/-- Reading leaves the data as they are. -/
def step (data : σ) : Op → σ
  | .write w => (W.write data w).1
  | .list .. | .fetch .. | .lockList .. | .lockFetch .. => data

end TxInterface

/-- The SQL transaction, with some way of writing. -/
def transaction (D : DB) (write : Database → Write → Database × Go (List Resource)) :
    TxInterface Database where
  select db s sc := do
    let q ← D.buildSelect s sc
    let (list, total) ← D.executeCountingSelect db s sc q
    .ok (list.map fun data ↦ ⟨s, data⟩, total)
  write

/-! ## The cached transaction -/

/-- What is kept. -/
structure CachedState where
  list : List Resource
  total : ℕ
  isLocked : Bool
  /-- For the record: the query that it was returned for. -/
  asked : Schema × SelectContext

/-- The wrapped transaction, and what is kept of its answers. -/
structure State (σ : Type) where
  data : σ
  queryCache : List Char → Option CachedState
  /-- For the record: the rows that locking calls of the wrapped transaction have returned. -/
  locked : List Resource

namespace State

variable {σ : Type}

/-- `MakeCachedTransaction`. -/
def make (data : σ) : State σ where
  data
  queryCache _ := none
  locked := []

/-- `ClearCache`. -/
def clearCache (st : State σ) : State σ := { st with queryCache := fun _ ↦ none }

variable (hash : GoMap FilterVal → ℕ)

/-- `getCached`. -/
def getCached (st : State σ) (s : Schema) (sc : SelectContext) : Option CachedState :=
  st.queryCache (createKey hash s.id sc)

/-- `saveCache`: an error is not kept. -/
def saveCache (st : State σ) (s : Schema) (sc : SelectContext) (wasLocked : Bool) :
    Go (List Resource × ℕ) → State σ
  | .ok (list, total) =>
    let cached : CachedState := ⟨list, total, wasLocked, (s, sc)⟩
    { st with queryCache := Function.update st.queryCache (createKey hash s.id sc) (some cached) }
  | .error _ => st

/-- A locking call of the wrapped transaction has returned. -/
def lock (st : State σ) : Go (List Resource × ℕ) → State σ
  | .ok (list, _) => { st with locked := list ++ st.locked }
  | .error _ => st

variable (W : TxInterface σ)

/-- `List`. -/
def list (st : State σ) (s : Schema) (filter : GoMap FilterVal) (options : Option ViewOptions)
    (pg : Option Paginator) : Go (List Resource × ℕ) × State σ :=
  let sc := listContextHelper s filter options pg
  match st.getCached hash s sc with
  | some cached => (.ok (cached.list, cached.total), st)
  | none =>
    let result := W.list st.data s filter options pg
    (result, st.saveCache hash s sc false result)

/-- `LockList`. -/
def lockList (st : State σ) (s : Schema) (filter : GoMap FilterVal) (options : Option ViewOptions)
    (pg : Option Paginator) (lockPolicy : LockPolicy) : Go (List Resource × ℕ) × State σ :=
  match lockListContextHelper s filter options pg lockPolicy with
  | .error fault => (.error fault, st)
  | .ok sc =>
    match (st.getCached hash s sc).filter (·.isLocked) with
    | some cached => (.ok (cached.list, cached.total), st)
    | none =>
      let result := W.lockList st.data s filter options pg lockPolicy
      (result, (st.lock result).saveCache hash s sc true result)

/-- What a call returns, and what is known after it. -/
def perform (st : State σ) : Op → Answer × State σ
  | .write w =>
    let (data, result) := W.write st.data w
    (.wrote result, { st.clearCache with data })
  | .list s filter options pg =>
    let (result, st) := st.list hash W s filter options pg
    (.listed result, st)
  | .fetch s filter options =>
    let (result, st) := st.list hash W s filter options none
    (.fetched (fetchContextHelper result), st)
  | .lockList s filter options pg lockPolicy =>
    let (result, st) := st.lockList hash W s filter options pg lockPolicy
    (.listed result, st)
  | .lockFetch s filter lockPolicy _ =>
    let (result, st) := st.lockList hash W s filter none none lockPolicy
    (.fetched (lockFetchContextHelper result), st)

/-- What a call returns in a state. -/
def answer (st : State σ) (op : Op) : Answer := (st.perform hash W op).1

/-- The state after a call. -/
def step (st : State σ) (op : Op) : State σ := (st.perform hash W op).2

end State

/-! ## What a call asks for -/

/-- The query of a call, and whether its rows are to be locked.  A write has none, and neither has a
locking call with no policy, which does not get so far. -/
def Op.asks : Op → Option (Schema × SelectContext × Bool)
  | .write _ => none
  | .list s filter options pg => some (s, listContextHelper s filter options pg, false)
  | .fetch s filter options => some (s, listContextHelper s filter options none, false)
  | .lockList s filter options pg lockPolicy =>
    (lockListContextHelper s filter options pg lockPolicy).toOption.map fun sc ↦ (s, sc, true)
  | .lockFetch s filter lockPolicy _ =>
    (lockListContextHelper s filter none none lockPolicy).toOption.map fun sc ↦ (s, sc, true)

/-- What a call makes of the result of its query. -/
def Op.shape : Op → Go (List Resource × ℕ) → Answer
  | .write _, result => .wrote (result.map (·.1))
  | .list .., result | .lockList .., result => .listed result
  | .fetch .., result => .fetched (fetchContextHelper result)
  | .lockFetch .., result => .fetched (lockFetchContextHelper result)

/-- Is it a locking call? -/
def Op.isLocking : Op → Bool
  | .lockList .. | .lockFetch .. => true
  | .write _ | .list .. | .fetch .. => false

/-- The rows that are returned. -/
def Answer.rows : Answer → List Resource
  | .wrote result => result.toOption.getD []
  | .listed result => (result.toOption.map (·.1)).getD []
  | .fetched result => result.toOption.toList

/-- Every row that a locking call returns has been locked. -/
def LocksRows {σ : Type} (hash : GoMap FilterVal → ℕ) (W : TxInterface σ) (st : State σ)
    (op : Op) : Prop :=
  op.isLocking = true → ∀ row ∈ (st.answer hash W op).rows, row ∈ (st.step hash W op).locked

/-- When what is kept under the key of a query was returned for some other query, then the wrapped
transaction answers the call the same to both. -/
def Tells {σ : Type} (hash : GoMap FilterVal → ℕ) (W : TxInterface σ) (st : State σ)
    (op : Op) : Prop :=
  ∀ s sc locking, op.asks = some (s, sc, locking) → ∀ cached, st.getCached hash s sc = some cached →
    (locking = true → cached.isLocked = true) →
      op.shape (W.select st.data cached.asked.1 cached.asked.2) = op.shape (W.select st.data s sc)

variable {σ : Type} {hash : GoMap FilterVal → ℕ} {W : TxInterface σ}

theorem map_toOption_eq_some {α β : Type} {x : Go α} {f : α → β} {b : β} :
    x.toOption.map f = some b ↔ ∃ a, x = .ok a ∧ f a = b := by
  cases x <;> simp [Except.toOption]

theorem map_toOption_eq_none {α β : Type} {x : Go α} {f : α → β} :
    x.toOption.map f = none ↔ ∃ fault, x = .error fault := by
  cases x <;> simp [Except.toOption]

/-! ## One call -/

variable {op : Op} {s : Schema} {sc : SelectContext} {locking : Bool}

theorem answer_of_asks (h : op.asks = some (s, sc, locking)) (data : σ) :
    W.answer data op = op.shape (W.select data s sc) := by
  cases op with
  | write w => cases h
  | list => cases h; rfl
  | fetch => cases h; rfl
  | lockList =>
    obtain ⟨sc', hsc, ⟨⟩⟩ := map_toOption_eq_some.mp h
    rw [TxInterface.answer, TxInterface.lockList, hsc]
    rfl
  | lockFetch =>
    obtain ⟨sc', hsc, ⟨⟩⟩ := map_toOption_eq_some.mp h
    rw [TxInterface.answer, TxInterface.lockList, hsc]
    rfl

/-- What is kept is returned, if it will do. -/
theorem perform_hit (h : op.asks = some (s, sc, locking)) {st : State σ} {cached : CachedState}
    (hcached : st.getCached hash s sc = some cached)
    (hlocked : locking = true → cached.isLocked = true) :
    st.perform hash W op = (op.shape (.ok (cached.list, cached.total)), st) := by
  cases op with
  | write w => cases h
  | list => cases h; simp only [State.perform, State.list, hcached]; rfl
  | fetch => cases h; simp only [State.perform, State.list, hcached]; rfl
  | lockList =>
    obtain ⟨sc', hsc, ⟨⟩⟩ := map_toOption_eq_some.mp h
    simp only [State.perform, State.lockList, hsc, hcached,
      Option.filter_some_pos (hlocked rfl)]
    rfl
  | lockFetch =>
    obtain ⟨sc', hsc, ⟨⟩⟩ := map_toOption_eq_some.mp h
    simp only [State.perform, State.lockList, hsc, hcached,
      Option.filter_some_pos (hlocked rfl)]
    rfl

/-- The state after a query has been handed on. -/
def State.asked (st : State σ) (hash : GoMap FilterVal → ℕ) (s : Schema) (sc : SelectContext)
    (locking : Bool) (result : Go (List Resource × ℕ)) : State σ :=
  (if locking then st.lock result else st).saveCache hash s sc locking result

theorem perform_miss (h : op.asks = some (s, sc, locking)) {st : State σ}
    (hmiss : ∀ cached, st.getCached hash s sc = some cached →
      locking = true ∧ cached.isLocked = false) :
    st.perform hash W op = (op.shape (W.select st.data s sc),
      st.asked hash s sc locking (W.select st.data s sc)) := by
  have hnone (hplain : locking = false) : st.getCached hash s sc = none := by
    cases hcached : st.getCached hash s sc with
    | none => rfl
    | some cached => exact absurd (hmiss cached hcached).1 (by simp [hplain])
  have hfilter : (st.getCached hash s sc).filter (·.isLocked) = none := by
    rw [Option.filter_eq_none_iff]
    exact fun cached hcached ↦ Bool.eq_false_iff.mp (hmiss cached hcached).2
  cases op with
  | write w => cases h
  | list => cases h; simp only [State.perform, State.list, hnone rfl]; rfl
  | fetch => cases h; simp only [State.perform, State.list, hnone rfl]; rfl
  | lockList =>
    obtain ⟨sc', hsc, ⟨⟩⟩ := map_toOption_eq_some.mp h
    simp only [State.perform, State.lockList, hsc, hfilter, TxInterface.lockList]
    rfl
  | lockFetch =>
    obtain ⟨sc', hsc, ⟨⟩⟩ := map_toOption_eq_some.mp h
    simp only [State.perform, State.lockList, hsc, hfilter, TxInterface.lockList]
    rfl

theorem step_make (h : op.asks = some (s, sc, locking)) (data : σ) :
    (State.make data).step hash W op =
      (State.make data).asked hash s sc locking (W.select data s sc) := by
  have hmiss (cached : CachedState)
      (hcached : (State.make data).getCached hash s sc = some cached) :
      locking = true ∧ cached.isLocked = false := by cases hcached
  exact congrArg Prod.snd (perform_miss h hmiss)

/-- A call that asks for nothing: a write, or a locking call that fails before it asks. -/
theorem perform_of_not_asks (hash : GoMap FilterVal → ℕ) (W : TxInterface σ)
    (h : op.asks = none) (st : State σ) :
    (st.perform hash W op = (W.answer st.data op, st) ∧ W.step st.data op = st.data) ∨
      st.perform hash W op =
        (W.answer st.data op, { st.clearCache with data := W.step st.data op }) := by
  cases op with
  | write w => exact Or.inr rfl
  | list => cases h
  | fetch => cases h
  | lockList =>
    obtain ⟨fault, hsc⟩ := map_toOption_eq_none.mp h
    refine Or.inl ⟨?_, rfl⟩
    simp only [State.perform, State.lockList, TxInterface.answer, TxInterface.lockList, hsc]
    rfl
  | lockFetch =>
    obtain ⟨fault, hsc⟩ := map_toOption_eq_none.mp h
    refine Or.inl ⟨?_, rfl⟩
    simp only [State.perform, State.lockList, TxInterface.answer, TxInterface.lockList, hsc]
    rfl

theorem step_of_asks (h : op.asks = some (s, sc, locking)) (data : σ) : W.step data op = data := by
  cases op with
  | write w => cases h
  | list | fetch | lockList | lockFetch => rfl

@[simp] theorem State.data_asked (st : State σ) (s : Schema) (sc : SelectContext) (locking : Bool)
    (result : Go (List Resource × ℕ)) : (st.asked hash s sc locking result).data = st.data := by
  cases result <;> cases locking <;> rfl

/-- Either what is kept will do, or the query is handed on. -/
theorem hit_or_miss (hash : GoMap FilterVal → ℕ) (st : State σ) (s : Schema) (sc : SelectContext)
    (locking : Bool) :
    (∃ cached, st.getCached hash s sc = some cached ∧
      (locking = true → cached.isLocked = true)) ∨
      ∀ cached, st.getCached hash s sc = some cached →
        locking = true ∧ cached.isLocked = false := by
  cases hcached : st.getCached hash s sc with
  | none => exact Or.inr nofun
  | some cached =>
    cases hlocking : locking with
    | false => exact Or.inl ⟨cached, rfl, nofun⟩
    | true =>
      cases hlocked : cached.isLocked with
      | true => exact Or.inl ⟨cached, rfl, fun _ ↦ hlocked⟩
      | false =>
        refine Or.inr fun other hother ↦ ⟨rfl, ?_⟩
        exact Option.some.inj hother ▸ hlocked

/-- What a call can do. -/
inductive Performs (hash : GoMap FilterVal → ℕ) (W : TxInterface σ) (st : State σ) (op : Op) :
    Answer × State σ → Prop where
  | refused (hasks : op.asks = none) (hdata : W.step st.data op = st.data) :
    Performs hash W st op (W.answer st.data op, st)
  | wrote (hasks : op.asks = none) :
    Performs hash W st op (W.answer st.data op, { st.clearCache with data := W.step st.data op })
  | hit {s : Schema} {sc : SelectContext} {locking : Bool} {cached : CachedState}
      (hasks : op.asks = some (s, sc, locking)) (hcached : st.getCached hash s sc = some cached)
      (hlocked : locking = true → cached.isLocked = true) :
    Performs hash W st op (op.shape (.ok (cached.list, cached.total)), st)
  | miss {s : Schema} {sc : SelectContext} {locking : Bool}
      (hasks : op.asks = some (s, sc, locking))
      (hmiss : ∀ cached, st.getCached hash s sc = some cached →
        locking = true ∧ cached.isLocked = false) :
    Performs hash W st op (op.shape (W.select st.data s sc),
      st.asked hash s sc locking (W.select st.data s sc))

theorem performs (hash : GoMap FilterVal → ℕ) (W : TxInterface σ) (st : State σ) (op : Op) :
    Performs hash W st op (st.perform hash W op) := by
  match hasks : op.asks with
  | none =>
    rcases perform_of_not_asks hash W hasks st with ⟨hperform, hdata⟩ | hperform
    · rw [hperform]
      exact .refused hasks hdata
    · rw [hperform]
      exact .wrote hasks
  | some (s, sc, locking) =>
    rcases hit_or_miss hash st s sc locking with ⟨cached, hcached, hlocked⟩ | hmiss
    · rw [perform_hit hasks hcached hlocked]
      exact .hit hasks hcached hlocked
    · rw [perform_miss hasks hmiss]
      exact .miss hasks hmiss

/-- The data are those of the wrapped transaction. -/
theorem data_step (st : State σ) (op : Op) : (st.step hash W op).data = W.step st.data op := by
  unfold State.step
  have hperform := performs hash W st op
  generalize st.perform hash W op = performed at hperform ⊢
  cases hperform with
  | refused _ hdata => exact hdata.symm
  | wrote => rfl
  | hit hasks => exact (step_of_asks hasks st.data).symm
  | miss hasks => rw [State.data_asked, step_of_asks hasks]

/-! ## What is kept is current -/

/-- What is kept is what the wrapped transaction would answer now. -/
structure Coherent (hash : GoMap FilterVal → ℕ) (W : TxInterface σ) (st : State σ) : Prop where
  keyed : ∀ key cached, st.queryCache key = some cached →
    createKey hash cached.asked.1.id cached.asked.2 = key
  current : ∀ key cached, st.queryCache key = some cached →
    W.select st.data cached.asked.1 cached.asked.2 = .ok (cached.list, cached.total)
  locked : ∀ key cached, st.queryCache key = some cached → cached.isLocked = true →
    ∀ row ∈ cached.list, row ∈ st.locked

theorem coherent_make (data : σ) : Coherent hash W (State.make data) := ⟨nofun, nofun, nofun⟩

/-- What is kept after a query has been handed on: its result, and what was kept before. -/
theorem queryCache_asked {st : State σ} {result : Go (List Resource × ℕ)} {key : List Char}
    {cached : CachedState}
    (h : (st.asked hash s sc locking result).queryCache key = some cached) :
    (key = createKey hash s.id sc ∧ cached.asked = (s, sc) ∧ cached.isLocked = locking ∧
      result = .ok (cached.list, cached.total)) ∨ st.queryCache key = some cached := by
  match result with
  | .error fault =>
    cases locking with
    | false => exact Or.inr h
    | true => exact Or.inr h
  | .ok (list, total) =>
    have h : Function.update st.queryCache (createKey hash s.id sc)
        (some ⟨list, total, locking, (s, sc)⟩) key = some cached := by
      cases locking <;> exact h
    by_cases hkey : key = createKey hash s.id sc
    · rw [hkey, Function.update_self] at h
      obtain rfl := Option.some.inj h
      exact Or.inl ⟨hkey, rfl, rfl, rfl⟩
    · rw [Function.update_of_ne hkey] at h
      exact Or.inr h

/-- The rows that were locked still are, and those of the result too. -/
theorem mem_locked_asked {st : State σ} {result : Go (List Resource × ℕ)} {row : Resource}
    (h : row ∈ st.locked ∨ locking = true ∧ ∃ list total, result = .ok (list, total) ∧ row ∈ list) :
    row ∈ (st.asked hash s sc locking result).locked := by
  match result, locking with
  | .error fault, locking =>
    have hrow : row ∈ st.locked := h.resolve_right fun ⟨_, _, _, heq, _⟩ ↦ nomatch heq
    cases locking <;> exact hrow
  | .ok (list, total), false => exact h.resolve_right fun ⟨heq, _⟩ ↦ nomatch heq
  | .ok (list, total), true =>
    rcases h with hrow | ⟨-, _, _, ⟨⟩, hrow⟩
    · exact List.mem_append_right _ hrow
    · exact List.mem_append_left _ hrow

/-- What is returned for a query is kept for it. -/
theorem Coherent.asked {st : State σ} (h : Coherent hash W st) (s : Schema) (sc : SelectContext)
    (locking : Bool) :
    Coherent hash W (st.asked hash s sc locking (W.select st.data s sc)) where
  keyed key cached hcached := by
    rcases queryCache_asked hcached with ⟨hkey, hasked, -, -⟩ | hold
    · rw [hkey, hasked]
    · exact h.keyed key cached hold
  current key cached hcached := by
    rw [State.data_asked]
    rcases queryCache_asked hcached with ⟨-, hasked, -, hresult⟩ | hold
    · rw [hasked, hresult]
    · exact h.current key cached hold
  locked key cached hcached hlocked row hrow := by
    refine mem_locked_asked ?_
    rcases queryCache_asked hcached with ⟨-, -, hlocking, hresult⟩ | hold
    · exact Or.inr ⟨hlocking.symm.trans hlocked, _, _, hresult, hrow⟩
    · exact Or.inl (h.locked key cached hold hlocked row hrow)

/-- What is kept was asked for, by this call or before it. -/
theorem queryCache_step {st : State σ} {key : List Char} {cached : CachedState}
    (h : (st.step hash W op).queryCache key = some cached) :
    (∃ locking, op.asks = some (cached.asked.1, cached.asked.2, locking)) ∨
      st.queryCache key = some cached := by
  unfold State.step at h
  have hperform := performs hash W st op
  generalize st.perform hash W op = performed at hperform h
  cases hperform with
  | refused | hit => exact Or.inr h
  | wrote => cases h
  | @miss s sc locking hasks =>
    refine (queryCache_asked h).imp_left fun hnew ↦ ⟨locking, ?_⟩
    rw [hasks, hnew.2.1]

theorem coherent_step (st : State σ) (op : Op) (h : Coherent hash W st) :
    Coherent hash W (st.step hash W op) := by
  unfold State.step
  have hperform := performs hash W st op
  generalize st.perform hash W op = performed at hperform ⊢
  cases hperform with
  | refused | hit => exact h
  | wrote => exact ⟨nofun, nofun, nofun⟩
  | @miss s sc locking => exact h.asked s sc locking

/-- **A call is answered as it should be exactly when the query whose result is kept under its key
is answered like it.** -/
theorem answer_eq_iff {st : State σ} (h : Coherent hash W st) (op : Op) :
    st.answer hash W op = W.answer st.data op ↔ Tells hash W st op := by
  unfold State.answer
  have hperform := performs hash W st op
  generalize st.perform hash W op = performed at hperform ⊢
  cases hperform with
  | refused hasks | wrote hasks =>
    exact iff_of_true rfl fun s sc locking hsome ↦ absurd (hasks.symm.trans hsome) nofun
  | @hit s sc locking cached hasks hcached hlocked =>
    rw [answer_of_asks hasks, ← h.current _ cached hcached]
    constructor
    · intro heq s' sc' locking' hasks' cached' hcached' _
      obtain ⟨rfl, rfl, rfl⟩ : s = s' ∧ sc = sc' ∧ locking = locking' := by
        simpa [hasks] using hasks'
      obtain rfl : cached = cached' := Option.some.inj (hcached.symm.trans hcached')
      exact heq
    · exact fun htells ↦ htells s sc locking hasks cached hcached hlocked
  | @miss s sc locking hasks hmiss =>
    rw [answer_of_asks hasks]
    refine iff_of_true rfl fun s' sc' locking' hasks' cached' hcached' hlocked' ↦ ?_
    obtain ⟨rfl, rfl, rfl⟩ : s = s' ∧ sc = sc' ∧ locking = locking' := by
      simpa [hasks] using hasks'
    obtain ⟨hlocking, hunlocked⟩ := hmiss cached' hcached'
    exact absurd (hunlocked.symm.trans (hlocked' hlocking)) nofun

/-! ## What is locked -/

/-- A call returns rows of its query. -/
theorem mem_of_mem_rows_shape (hlocking : op.isLocking = true) {result : Go (List Resource × ℕ)}
    {row : Resource} (hrow : row ∈ (op.shape result).rows) :
    ∃ list total, result = .ok (list, total) ∧ row ∈ list := by
  cases op with
  | write | list | fetch => cases hlocking
  | lockList =>
    match result with
    | .ok (list, total) => exact ⟨list, total, rfl, hrow⟩
    | .error _ => cases hrow
  | lockFetch =>
    match result with
    | .ok (first :: rest, total) =>
      have hfirst : row = first := List.mem_singleton.mp hrow
      exact ⟨_, total, rfl, hfirst ▸ List.mem_cons_self⟩
    | .ok ([], _) | .error (.error ..) | .error (.panic ..) => cases hrow

theorem rows_of_not_asks (hlocking : op.isLocking = true) (h : op.asks = none) (data : σ) :
    (W.answer data op).rows = [] := by
  cases op with
  | write | list | fetch => cases hlocking
  | lockList =>
    obtain ⟨fault, hsc⟩ := map_toOption_eq_none.mp h
    simp only [TxInterface.answer, TxInterface.lockList, hsc]
    rfl
  | lockFetch =>
    obtain ⟨fault, hsc⟩ := map_toOption_eq_none.mp h
    simp only [TxInterface.answer, TxInterface.lockList, hsc]
    cases fault <;> rfl

theorem locking_of_asks (h : op.asks = some (s, sc, locking)) : op.isLocking = locking := by
  cases op with
  | write => cases h
  | list | fetch => cases h; rfl
  | lockList | lockFetch =>
    obtain ⟨sc', -, ⟨⟩⟩ := map_toOption_eq_some.mp h
    rfl

/-- **Whatever a locking call returns has been locked.** -/
theorem locksRows {st : State σ} (h : Coherent hash W st) (op : Op) : LocksRows hash W st op := by
  intro hlocking row hrow
  unfold State.answer at hrow
  unfold State.step
  have hperform := performs hash W st op
  generalize st.perform hash W op = performed at hperform hrow ⊢
  cases hperform with
  | refused hasks | wrote hasks =>
    rw [rows_of_not_asks hlocking hasks st.data] at hrow
    cases hrow
  | @hit s sc locking cached hasks hcached hlocked =>
    obtain rfl : locking = true := (locking_of_asks hasks).symm.trans hlocking
    obtain ⟨list, total, ⟨⟩, hmem⟩ := mem_of_mem_rows_shape hlocking hrow
    exact h.locked _ cached hcached (hlocked rfl) row hmem
  | @miss s sc locking hasks hmiss =>
    obtain rfl : locking = true := (locking_of_asks hasks).symm.trans hlocking
    obtain ⟨list, total, hresult, hmem⟩ := mem_of_mem_rows_shape hlocking hrow
    exact mem_locked_asked (Or.inr ⟨rfl, list, total, hresult, hmem⟩)

/-! ## Whole transactions -/

/-- The caller of a cached transaction is told what the wrapped one would tell it, and rows that it
is to have locked are. -/
structure Transparent (hash : GoMap FilterVal → ℕ) (W : TxInterface σ) (data : σ)
    (ops : List Op) : Prop where
  same : Machine.outputs (State.step hash W) (State.answer hash W) (.make data) ops =
    Machine.outputs W.step W.answer data ops
  locks : Machine.Along (State.step hash W) (LocksRows hash W) (.make data) ops

/-- **A cached transaction is like the one that it wraps exactly when queries under one key are
answered alike.** -/
theorem transparent_iff (hash : GoMap FilterVal → ℕ) (W : TxInterface σ) (data : σ)
    (ops : List Op) : Transparent hash W data ops ↔
      Machine.Along (State.step hash W) (Tells hash W) (.make data) ops := by
  have hsame : Machine.outputs (State.step hash W) (State.answer hash W) (.make data) ops =
      Machine.outputs W.step W.answer data ops ↔
        Machine.Along (State.step hash W) (Tells hash W) (.make data) ops :=
    (Machine.outputs_eq_iff_along (f := State.data) data_step).trans
      (Machine.along_congr coherent_step (fun _ op h ↦ answer_eq_iff h op) (coherent_make data))
  refine ⟨fun h ↦ hsame.mp h.same, fun h ↦ ⟨hsame.mpr h, ?_⟩⟩
  exact Machine.along_of_invariant (fun st op _ ↦ coherent_step st op)
    (fun _ op _ h ↦ locksRows h op) (coherent_make data)

/-! ## Plain queries -/

/-- The schemas are told apart by their identifiers, and the wrapped transaction answers alike to
filters with one hash. -/
structure TellsApart (hash : GoMap FilterVal → ℕ) (W : TxInterface σ) (ops : List Op) : Prop where
  schemas : ∀ op ∈ ops, ∀ op' ∈ ops, ∀ s sc locking s' sc' locking',
    op.asks = some (s, sc, locking) → op'.asks = some (s', sc', locking') → s.id = s'.id → s = s'
  filters : ∀ data s sc filter, hash sc.filter = hash filter →
    W.select data s { sc with filter } = W.select data s sc

/-- **Among plain queries the cache is not noticed.** -/
theorem transparent_of_plain {data : σ} {ops : List Op} (h : TellsApart hash W ops)
    (hplain : ∀ op ∈ ops, ∀ s sc locking, op.asks = some (s, sc, locking) → Plain s.id sc) :
    Transparent hash W data ops := by
  refine (transparent_iff hash W data ops).mpr ?_
  -- what is kept was asked for by one of the calls
  let Inv (st : State σ) : Prop := Coherent hash W st ∧ ∀ key cached,
    st.queryCache key = some cached →
      ∃ op ∈ ops, ∃ locking, op.asks = some (cached.asked.1, cached.asked.2, locking)
  have hstep (st : State σ) (op : Op) (hop : op ∈ ops) (hinv : Inv st) :
      Inv (st.step hash W op) := by
    refine ⟨coherent_step st op hinv.1, fun key cached hcached ↦ ?_⟩
    rcases queryCache_step hcached with ⟨locking, hasks⟩ | hold
    · exact ⟨op, hop, locking, hasks⟩
    · exact hinv.2 key cached hold
  have htells (st : State σ) (op : Op) (hop : op ∈ ops) (hinv : Inv st) : Tells hash W st op := by
    intro s sc locking hasks cached hcached _
    obtain ⟨op', hop', locking', hasks'⟩ := hinv.2 _ cached hcached
    obtain ⟨hid, hhash, hsc⟩ := createKey_inj (hplain op' hop' _ _ _ hasks')
      (hplain op hop _ _ _ hasks) (hinv.1.keyed _ cached hcached)
    rw [h.schemas op' hop' op hop _ _ _ _ _ _ hasks' hasks hid, hsc,
      h.filters st.data s sc _ hhash.symm]
  exact Machine.along_of_invariant hstep htells ⟨coherent_make data, nofun⟩

/-- **The `List` of the SQL transaction** is that of the database. -/
theorem list_transaction (D : DB) (write : Database → Write → Database × Go (List Resource))
    (db : Database) (s : Schema) (filter : GoMap FilterVal) (options : Option ViewOptions)
    (pg : Option Paginator) : (transaction D write).list db s filter options pg =
      (D.list db s filter options pg).map fun result ↦
        (result.1.map fun data ↦ ⟨s, data⟩, result.2) := by
  simp only [TxInterface.list, transaction, DB.list]
  cases D.buildSelect s (listContextHelper s filter options pg) with
  | error fault => rfl
  | ok q =>
    simp only [Go.ok_bind]
    cases D.executeCountingSelect db s (listContextHelper s filter options pg) q <;> rfl

/-! ## Two queries with one key -/

/-- One server, which is up. -/
def oneServer : Database := fun _ ↦
  { rows := [GoMap.ofList [("id", .str "a"), (tenantIDKey, .str "acme"), ("state", .str "UP")]]
    id_ne_nil := by decide }

/-- A server that compares texts as they are. -/
def exactServer : SqlServer :=
  { exactEngine with
    le := fun _ _ ↦ true
    le_total := fun _ _ ↦ .inl rfl
    le_trans := fun _ _ _ _ _ ↦ rfl }

/-- A transaction that writes nothing. -/
def serverTransaction : TxInterface Database :=
  transaction ⟨[serverSchema], true, exactServer⟩ fun db _ ↦ (db, .ok [])

/-- The query for the servers with these fields and the identifier. -/
def serverFields (fields : List String) : SelectContext :=
  listContextHelper serverSchema ∅ (some ⟨false, some ("server.id" :: fields)⟩) none

/-- A call for the servers, with these fields. -/
def listServers (fields : List String) : Op :=
  .list serverSchema ∅ (some ⟨false, some ("server.id" :: fields)⟩) none

theorem createKey_serverFields (hash : GoMap FilterVal → ℕ) :
    createKey hash serverSchema.id (serverFields ["server.state", "server.tenant_id"]) =
      createKey hash serverSchema.id (serverFields ["server.state server.tenant_id"]) := by
  have hprint : printFields (serverFields ["server.state", "server.tenant_id"]).fields =
      printFields (serverFields ["server.state server.tenant_id"]).fields := by decide
  simp only [createKey, hprint]
  rfl

/-- Two fields, and one with a space in it, are printed alike.  So the second list is answered with
what the first has returned, which has no states. -/
theorem not_transparent : ¬∃ hash, Transparent hash serverTransaction oneServer
    [listServers ["server.state server.tenant_id"],
      listServers ["server.state", "server.tenant_id"]] := by
  rintro ⟨hash, h⟩
  have hsame := h.same
  simp only [Machine.outputs, List.cons.injEq] at hsame
  have htells := (answer_eq_iff (coherent_step _ _ (coherent_make _)) _).mp hsame.2.1
  have hresult : ∃ result, serverTransaction.select oneServer serverSchema
      (serverFields ["server.state server.tenant_id"]) = .ok result := ⟨_, rfl⟩
  obtain ⟨result, hresult⟩ := hresult
  have hfirst : (listServers ["server.state server.tenant_id"]).asks =
    some (serverSchema, serverFields ["server.state server.tenant_id"], false) := rfl
  have hsecond : (listServers ["server.state", "server.tenant_id"]).asks =
    some (serverSchema, serverFields ["server.state", "server.tenant_id"], false) := rfl
  rw [step_make hfirst, hresult] at htells
  have hkept : State.getCached hash ((State.make oneServer).asked hash serverSchema
      (serverFields ["server.state server.tenant_id"]) false (.ok result)) serverSchema
      (serverFields ["server.state", "server.tenant_id"]) = some ⟨result.1, result.2, false,
        (serverSchema, serverFields ["server.state server.tenant_id"])⟩ := by
    rw [State.getCached, createKey_serverFields]
    exact Function.update_self _ _ _
  have halike := htells _ _ _ hsecond _ hkept fun h ↦ by cases h
  let states (answer : Answer) : List Value := answer.rows.map fun row ↦ row.data.get "state"
  have hstates : [Value.nil] = [Value.str "UP"] := congrArg states halike
  cases hstates

end Gohan.Cache
