import Mathlib.Data.Finset.Basic
import Mathlib.Data.Finset.Dedup
import Gohan.Lang.Value
import Gohan.Logic.Buckets

/-!
# Events and their handlers

An extension registers handlers for events, for one schema or for all, each with a priority.
`HandleEvent` calls those of the schema in the context, and then the general ones, in the order of
the priorities and, where these are equal, of the registration (`handleEventForEnv_registered`).

What a handler does is a `Code`.  It reads and changes the context, which it shares with the others,
and it may handle other events: in the same environment, on its own context or on a copy, as
creating a resource does, or in the environments of another schema with `TriggerEvent`.  Events may
nest to any depth, and `handleEvent` is given so much fuel; a run that does not end has no result.

On the way, `HandleEvent` marks the context of the event that is not inside another one, takes over
the trace identifier and sets a deadline; and `TriggerEvent` puts the schema and the transaction
into the context in the form in which the other languages expect them.  All of this is undone, also
when a handler panics (`restored_of_handleEvent`, `restored_of_triggerEvent`).

An environment is cloned before it is used, and the clone has no time limits.
-/

set_option autoImplicit false

namespace Gohan.Goplugin.Events

/-! ## Contexts -/

/-- What is stored in a context. -/
inductive Entry where
  | value (v : Value)
  /-- A context of the language, with the timeouts that were set on it. -/
  | ctx (timeouts : List ℕ)
  /-- A transaction, as `goext.ITransaction` or as the raw one. -/
  | tx (raw : Bool) (id : ℕ)
  /-- `*schema.Schema`. -/
  | rawSchema (id : String)

/-- What is handed from handler to handler, by key. -/
abbrev Context := GoMap Entry

/-- The text that an entry is, if it is one. -/
def Entry.string? : Entry → Option String
  | .value v => v.string?
  | .ctx _ | .tx _ _ | .rawSchema _ => none

/-- `goext.KeyTopLevelHandler`. -/
def keyTopLevelHandler : String := "top_level_handler"

/-- An error of an extension: a code and a message. -/
structure Err where
  code : ℤ
  message : String

/-- How a call can fail: by an error, or by a panic. -/
inductive Failure where
  | error (err : Err)
  | panic (message : String)

/-- How a call ends. -/
abbrev Result := Except Failure Unit

/-- A call that returns an error. -/
def fail (code : ℤ) (message : String) : Result := .error (.error ⟨code, message⟩)

/-- A call that panics. -/
def crash (message : String) : Result := .error (.panic message)

/-! ## Handlers -/

/-- What a handler does.  `R` is the type of the structure that a handler of a schema gets. -/
inductive Code (R : Type) where
  | ret (result : Result)
  | get (key : String) (next : Option Entry → Code R)
  | put (key : String) (entry : Entry) (next : Code R)
  | delete (key : String) (next : Code R)
  | load (next : Option R → Code R)
  | store (resource : R) (next : Code R)
  /-- `HandleEvent` on its own context. -/
  | handle (event : String) (next : Result → Code R)
  /-- `HandleEvent` on another context that is made of its own. -/
  | handleCopy (copy : Context → Context) (event : String) (next : Context → Result → Code R)
  | trigger (event : String) (next : Result → Code R)

/-- `PrioritizedHandlers` and `PrioritizedSchemaHandlers`. -/
abbrev Prioritized (R : Type) := Buckets.Store ℤ (Code R)

/-- The part of the environment of a Go extension that is fixed. -/
structure Environment (R : Type) where
  /-- By event. -/
  handlers : GoMap (Prioritized R)
  /-- By event and schema. -/
  schemaHandlers : GoMap (GoMap (Prioritized R))
  timeLimit : ℕ
  timeLimits : List ((String → Bool) × ℕ)

namespace Environment

variable {R : Type}

/-- `Clone`, which leaves the time limits out. -/
def clone (env : Environment R) : Environment R := { env with timeLimit := 0, timeLimits := [] }

/-- `getTimeout`. -/
def getTimeout (env : Environment R) (event : String) : ℕ :=
  match env.timeLimits.find? (·.1 event) with
  | some timeLimit => timeLimit.2
  | none => env.timeLimit

/-- `RegisterEventHandler`. -/
def registerEventHandler (env : Environment R) (event : String) (handler : Code R)
    (priority : ℤ) : Environment R :=
  { env with
    handlers := env.handlers.insert event
      (Buckets.push ((env.handlers.lookup event).getD ∅) priority handler) }

/-- `RegisterSchemaEventHandler`. -/
def registerSchemaEventHandler (env : Environment R) (schemaID event : String)
    (schemaHandler : Code R) (priority : ℤ) : Environment R :=
  let bySchema := (env.schemaHandlers.lookup event).getD ∅
  { env with
    schemaHandlers := env.schemaHandlers.insert event
      (bySchema.insert schemaID
        (Buckets.push ((bySchema.lookup schemaID).getD ∅) priority schemaHandler)) }

end Environment

/-- The environment of an extension in one of the languages. -/
inductive BaseEnvironment (R : Type) where
  | go (env : Environment R)
  /-- In Javascript, with what it does to the context. -/
  | js (isEventHandled : String → Context → Bool)
    (handleEvent : String → Context → Result × Context)

/-- What the environments share. -/
structure World (R : Type) where
  /-- The schema is known. -/
  find : String → Bool
  /-- The environments that are registered for a schema. -/
  environment : String → Option (List (BaseEnvironment R))
  /-- The order in which a map with these keys is visited. -/
  range : Finset String → List String
  /-- The trace identifier of a clone. -/
  cloneTraceID : String
  /-- `ResourceFromMap` of a schema. -/
  resourceFromMap : String → List (String × Value) → Except String (Option R)
  /-- `ResourceToMap`. -/
  resourceToMap : R → Value

/-- The context of an event, and the trace identifier of the environment. -/
structure St where
  context : Context
  traceID : String

/-- The context with an entry under a key. -/
def St.put (s : St) (key : String) (entry : Entry) : St :=
  { s with context := s.context.insert key entry }

/-- The context without the key. -/
def St.delete (s : St) (key : String) : St := { s with context := s.context.erase key }

/-- The events inside an event: in the same environment, and in those of another schema. -/
structure Nested where
  handleEvent : String → St → Option (Result × St)
  triggerEvent : String → Context → Option (Result × Context)

section Dispatch

variable {R : Type} (w : World R) (nested : Nested)

/-- Run a handler. -/
def exec : Code R → St → Option R → Option (Result × St × Option R)
  | .ret result, s, resource => some (result, s, resource)
  | .get key next, s, resource => exec (next (s.context.lookup key)) s resource
  | .put key entry next, s, resource => exec next (s.put key entry) resource
  | .delete key next, s, resource => exec next (s.delete key) resource
  | .load next, s, resource => exec (next resource) s resource
  | .store value next, s, some _ => exec next s (some value)
  | .store _ _, s, none => some (crash "invalid memory address or nil pointer dereference", s, none)
  | .handle event next, s, resource => do
    let (result, s) ← nested.handleEvent event s
    exec (next result) s resource
  | .handleCopy copy event next, s, resource => do
    let (result, inner) ← nested.handleEvent event { s with context := copy s.context }
    exec (next inner.context result) { s with traceID := inner.traceID } resource
  | .trigger event next, s, resource => do
    let (result, context) ← nested.triggerEvent event s.context
    exec (next result) { s with context } resource

/-- The loops over the general handlers. -/
def callHandlers : List (Code R) → St → Option (Result × St)
  | [], s => some (.ok (), s)
  | eventHandler :: handlers, s => do
    let (result, s, _) ← exec nested eventHandler s none
    match result with
    | .error failure => some (.error failure, s)
    | .ok () => callHandlers handlers s

/-- The loops over the handlers of a schema. -/
def callSchemaHandlers : List (Code R) → St → Option R → Option (Result × St)
  | [], s, _ => some (.ok (), s)
  | schemaEventHandler :: handlers, s, resource => do
    let (result, s, resource) ←
      exec nested schemaEventHandler (s.put "go_validation" (.value (.bool true))) resource
    match result with
    | .error failure => some (.error failure, s)
    | .ok () =>
      match resource with
      | none => callSchemaHandlers handlers s none
      | some value =>
        callSchemaHandlers handlers (s.put "resource" (.value (w.resourceToMap value))) resource

/-- `dispatchSchemaEventForEnv`, with the handlers in the order of their priorities. -/
def dispatchSchemaEventForEnv (sch : String) (handlers : List (Code R)) (s : St) :
    Option (Result × St) :=
  match s.context.lookup "resource" with
  | none => callSchemaHandlers w nested handlers s none
  | some (.value (.map ctxResource)) =>
    match w.resourceFromMap sch ctxResource with
    | .error err => some (fail 400 err, s)
    | .ok resource => callSchemaHandlers w nested handlers s resource
  | some _ => some (crash "interface conversion: interface \x7b\x7d is not map", s)

/-- The loop over the schemas, when there is none in the context. -/
def dispatchAll (handlers : String → List (Code R)) : List String → St → Option (Result × St)
  | [], s => some (.ok (), s)
  | schemaID :: rest, s =>
    if w.find schemaID then do
      let (result, s) ← dispatchSchemaEventForEnv w nested schemaID (handlers schemaID) s
      match result with
      | .error failure => some (.error failure, s)
      | .ok () => dispatchAll handlers rest s
    else some (fail 500 s!"could not find schema: {schemaID}", s)

/-- The handlers of the schemas, for the schemas that have any and the handlers of each. -/
def dispatchSchemas (schemas : Finset String) (handlers : String → List (Code R)) (s : St) :
    Option (Result × St) :=
  if schemas = ∅ then some (.ok (), s)
  else
    match s.context.lookup "schema_id" with
    | none => dispatchAll w nested handlers (w.range schemas) s
    | some iSchemaID =>
      match iSchemaID.string? with
      | none => some (crash "interface conversion: interface \x7b\x7d is not string", s)
      | some schemaID =>
        let s := s.put "schema_id" (.value (.str schemaID))
        if schemaID ∈ schemas ∧ w.find schemaID = true then
          dispatchSchemaEventForEnv w nested schemaID (handlers schemaID) s
        else some (.ok (), s)

/-- `handleEventForEnv` without the timeout, for the handlers of the event. -/
def dispatch (event : String) (schemas : Finset String) (schemaHandlers : String → List (Code R))
    (handlers : List (Code R)) (s : St) : Option (Result × St) := do
  let (result, s) ← dispatchSchemas w nested schemas schemaHandlers
    (s.put "event_type" (.value (.str event)))
  match result with
  | .error failure => some (.error failure, s)
  | .ok () => callHandlers nested handlers s

/-- `addTimeout`, and the deferred function that undoes it. -/
def withTimeout (timeout : ℕ) (body : St → Option (Result × St)) (s : St) :
    Option (Result × St) :=
  if timeout = 0 then body s
  else
    match s.context.lookup "context" with
    | some (.ctx timeouts) => do
      let (result, s) ← body (s.put "context" (.ctx (timeout :: timeouts)))
      some (result, s.put "context" (.ctx timeouts))
    | _ => some (crash "interface conversion: interface \x7b\x7d is not context.Context", s)

/-- The handlers of an event in the order of their priorities. -/
def Environment.calls (env : Environment R) (event : String) : List (Code R) :=
  match env.handlers.lookup event with
  | none => []
  | some prioritizedEventHandlers => Buckets.read prioritizedEventHandlers

/-- The schemas for which there are handlers. -/
def Environment.schemas (env : Environment R) (event : String) : Finset String :=
  match env.schemaHandlers.lookup event with
  | none => ∅
  | some bySchema => bySchema.keys.toFinset

/-- The handlers of an event of one schema, in order. -/
def Environment.schemaCalls (env : Environment R) (event schemaID : String) : List (Code R) :=
  match env.schemaHandlers.lookup event with
  | none => []
  | some bySchema =>
    match bySchema.lookup schemaID with
    | none => []
    | some prioritizedSchemaHandlers => Buckets.read prioritizedSchemaHandlers

/-- `handleEventForEnv`. -/
def handleEventForEnv (env : Environment R) (event : String) (s : St) : Option (Result × St) :=
  withTimeout (env.getTimeout event)
    (dispatch w nested event (env.schemas event) (env.schemaCalls event) (env.calls event)) s

/-- The key is in the context while the body runs, and deleted if it was not there before. -/
def markingTopLevel (body : St → Option (Result × St)) (s : St) : Option (Result × St) :=
  match s.context.lookup keyTopLevelHandler with
  | some _ => body s
  | none => do
    let (result, s) ← body (s.put keyTopLevelHandler (.value (.bool true)))
    some (result, s.delete keyTopLevelHandler)

/-- The trace identifier of the context is that of the environment while the body runs. -/
def tracing (body : St → Option (Result × St)) (s : St) : Option (Result × St) :=
  match s.context.lookup "trace_id" with
  | none => body s
  | some traceId =>
    match traceId.string? with
    | none => some (crash "interface conversion: interface \x7b\x7d is not string", s)
    | some traceID => do
      let (result, inner) ← body { s with traceID }
      some (result, { inner with traceID := s.traceID })

/-- `HandleEvent` of the environment of a Go extension. -/
def handleEventWith (env : Environment R) (event : String) : St → Option (Result × St) :=
  markingTopLevel (tracing (handleEventForEnv w nested env event))

end Dispatch

section Trigger

variable {R : Type} (w : World R) (handleEvent : Environment R → String → St → Option (Result × St))

/-- `handleEventInChild`, where the environment is cloned. -/
def handleEventInChild (event : String) (context : Context) :
    BaseEnvironment R → Option (Result × Context)
  | .go env => do
    let (result, s) ← handleEvent env.clone event ⟨context, w.cloneTraceID⟩
    some (result, s.context)
  | .js isEventHandled run =>
    some (if isEventHandled event context then run event context else (.ok (), context))

/-- `HandleEvent` of the environments that are registered for a schema. -/
def handleInAll (event : String) :
    List (BaseEnvironment R) → Context → Option (Result × Context)
  | [], context => some (.ok (), context)
  | env :: envs, context => do
    let (result, context) ← handleEventInChild w handleEvent event context env
    match result with
    | .error failure => some (.error failure, context)
    | .ok () => handleInAll event envs context

/-- `restoreContextByKey`, with what was there before. -/
def restore (key : String) (before : Context) (context : Context) : Context :=
  match before.lookup key with
  | some original => context.insert key original
  | none => context.erase key

/-- `parseJSException`. -/
def parseJSException (context : Context) : Result :=
  match context.lookup "exception" with
  | none => .ok ()
  | some (.value (.map exception)) =>
    match (exception.lookup "code").getD (.int 500), context.lookup "exception_message" with
    | .int code, some (.value (.str message)) => fail code message
    | _, _ => crash "interface conversion"
  | some _ => crash "interface conversion: interface \x7b\x7d is not map"

/-- `parseHandleEventResult`, which does not come to it when the handler has panicked. -/
def parseHandleEventResult (result : Result) (context : Context) : Result × Context :=
  let cleaned := (context.erase "exception").erase "exception_message"
  match result with
  | .error (.panic message) => (crash message, context)
  | .error (.error err) => (.error (.error err), cleaned)
  | .ok () => (parseJSException context, cleaned)

/-- `ensureRawTxInContext`. -/
def ensureRawTxInContext (context : Context) : Except Failure Context :=
  match context.lookup "transaction" with
  | none | some (.value .nil) => .ok context
  | some (.tx _ id) => .ok (context.insert "transaction" (.tx true id))
  | some _ => .error (.panic "Unknown transaction type in context")

/-- `TriggerEvent`. -/
def triggerEventWith (event : String) (context : Context) : Option (Result × Context) :=
  match (context.lookup "schema_id").bind Entry.string? with
  | none => some (crash "TriggerEvent: schema_id missing in context", context)
  | some schemaID =>
    if w.find schemaID = false then
      some (crash "invalid memory address or nil pointer dereference",
        restore "schema" context context)
    else
      let withSchema := context.insert "schema" (.rawSchema schemaID)
      let undo (after : Context) : Context :=
        restore "schema" context (restore "transaction" withSchema after)
      match ensureRawTxInContext withSchema with
      | .error failure => some (.error failure, undo withSchema)
      | .ok ready =>
        match w.environment schemaID with
        | none => some (.ok (), undo ready)
        | some envs => do
          let (result, after) ← handleInAll w handleEvent event envs ready
          let (result, after) := parseHandleEventResult result after
          some (result, undo after)

end Trigger

/-- `HandleEvent`, where events are nested no deeper than the fuel allows. -/
def handleEvent {R : Type} (w : World R) :
    ℕ → Environment R → String → St → Option (Result × St)
  | 0, _, _, _ => none
  | fuel + 1, env, event, s =>
    handleEventWith w ⟨handleEvent w fuel env, triggerEventWith w (handleEvent w fuel)⟩ env event s

/-- `TriggerEvent`. -/
def triggerEvent {R : Type} (w : World R) (fuel : ℕ) (event : String) (context : Context) :
    Option (Result × Context) := triggerEventWith w (handleEvent w fuel) event context

/-! ## The order of the handlers -/

section Order

variable {R : Type}

/-- A call of `RegisterEventHandler`, or of `RegisterSchemaEventHandler` for a schema. -/
structure Registration (R : Type) where
  schemaID : Option String
  event : String
  handler : Code R
  priority : ℤ

/-- One registration. -/
def Environment.register (env : Environment R) (r : Registration R) : Environment R :=
  match r.schemaID with
  | none => env.registerEventHandler r.event r.handler r.priority
  | some schemaID => env.registerSchemaEventHandler schemaID r.event r.handler r.priority

/-- An environment without handlers. -/
def Environment.empty (timeLimit : ℕ) (timeLimits : List ((String → Bool) × ℕ)) :
    Environment R := ⟨∅, ∅, timeLimit, timeLimits⟩

/-- The environment after these registrations. -/
def Environment.registered (timeLimit : ℕ) (timeLimits : List ((String → Bool) × ℕ))
    (log : List (Registration R)) : Environment R :=
  log.foldl Environment.register (.empty timeLimit timeLimits)

/-- What was registered for the event, for the schema or for all, with the priorities. -/
def entriesFor (log : List (Registration R)) (event : String) (schemaID : Option String) :
    List (ℤ × Code R) :=
  (log.filter fun r ↦ r.event = event ∧ r.schemaID = schemaID).map fun r ↦ (r.priority, r.handler)

/-- What was registered, by priority and then in the order of the registration. -/
def inOrder (log : List (Registration R)) (event : String) (schemaID : Option String) :
    List (Code R) := (Buckets.sort (entriesFor log event schemaID)).map (·.2)

/-- The schemas for which something was registered. -/
def schemasFor (log : List (Registration R)) (event : String) : Finset String :=
  ((log.filter fun r ↦ r.event = event).filterMap (·.schemaID)).toFinset

/-- The buckets of an event, empty when there are none. -/
def Environment.store (env : Environment R) (event : String) : Option String → Prioritized R
  | none => (env.handlers.lookup event).getD ∅
  | some schemaID => (((env.schemaHandlers.lookup event).getD ∅).lookup schemaID).getD ∅

theorem Environment.store_register (env : Environment R) (r : Registration R) (event : String)
    (schemaID : Option String) :
    (env.register r).store event schemaID =
      if r.event = event ∧ r.schemaID = schemaID then
        Buckets.push (env.store event schemaID) r.priority r.handler
      else env.store event schemaID := by
  obtain ⟨rid, revent, handler, priority⟩ := r
  cases rid with
  | none =>
    cases schemaID with
    | none =>
      by_cases h : revent = event
      · subst h
        simp [register, registerEventHandler, store]
      · simp [register, registerEventHandler, store, h, AList.lookup_insert_ne (Ne.symm h)]
    | some schemaID => simp [register, registerEventHandler, store]
  | some rid =>
    cases schemaID with
    | none => simp [register, registerSchemaEventHandler, store]
    | some schemaID =>
      by_cases h : revent = event
      · subst h
        by_cases hid : rid = schemaID
        · subst hid
          simp [register, registerSchemaEventHandler, store]
        · simp [register, registerSchemaEventHandler, store, hid,
            AList.lookup_insert_ne (Ne.symm hid)]
      · simp [register, registerSchemaEventHandler, store, h, AList.lookup_insert_ne (Ne.symm h)]

theorem Environment.store_foldl_register (log : List (Registration R)) (env : Environment R)
    (event : String) (schemaID : Option String) :
    (log.foldl register env).store event schemaID =
      (entriesFor log event schemaID).foldl
        (fun store entry ↦ Buckets.push store entry.1 entry.2) (env.store event schemaID) := by
  induction log generalizing env with
  | nil => rfl
  | cons r log ih =>
    rw [List.foldl_cons, ih, store_register, entriesFor, entriesFor]
    by_cases h : r.event = event ∧ r.schemaID = schemaID
    · rw [if_pos h, List.filter_cons_of_pos (by simpa using h), List.map_cons, List.foldl_cons]
    · rw [if_neg h, List.filter_cons_of_neg (by simpa using h)]

theorem Environment.calls_eq (env : Environment R) (event : String) :
    env.calls event = Buckets.read (env.store event none) := by
  rw [calls, store]
  split
  · next h => rw [h]; rfl
  · next h => rw [h]; rfl

theorem Environment.schemaCalls_eq (env : Environment R) (event schemaID : String) :
    env.schemaCalls event schemaID = Buckets.read (env.store event (some schemaID)) := by
  rw [schemaCalls, store]
  split
  · next h => rw [h]; rfl
  · next bySchema h =>
    rw [h, Option.getD_some]
    split
    · next h => rw [h]; rfl
    · next h => rw [h]; rfl

theorem Environment.calls_registered (timeLimit : ℕ) (timeLimits : List ((String → Bool) × ℕ))
    (log : List (Registration R)) (event : String) :
    (registered timeLimit timeLimits log).calls event = inOrder log event none := by
  rw [calls_eq, registered, store_foldl_register, inOrder, ← Buckets.read_foldl_push]
  rfl

theorem Environment.schemaCalls_registered (timeLimit : ℕ)
    (timeLimits : List ((String → Bool) × ℕ)) (log : List (Registration R))
    (event schemaID : String) :
    (registered timeLimit timeLimits log).schemaCalls event schemaID =
      inOrder log event (some schemaID) := by
  rw [schemaCalls_eq, registered, store_foldl_register, inOrder, ← Buckets.read_foldl_push]
  rfl

theorem Environment.mem_schemas_register (env : Environment R) (r : Registration R)
    (event schemaID : String) :
    schemaID ∈ (env.register r).schemas event ↔
      schemaID ∈ env.schemas event ∨ (r.event = event ∧ r.schemaID = some schemaID) := by
  have hmem (env : Environment R) : schemaID ∈ env.schemas event ↔
      schemaID ∈ (env.schemaHandlers.lookup event).getD ∅ := by
    rw [schemas]
    split
    · next h => simp [h]
    · next bySchema h => rw [h, List.mem_toFinset, Option.getD_some, AList.mem_keys]
  obtain ⟨rid, revent, handler, priority⟩ := r
  rw [hmem, hmem]
  cases rid with
  | none => simp [register, registerEventHandler]
  | some rid =>
    by_cases h : revent = event
    · subst h
      simp [register, registerSchemaEventHandler, AList.mem_insert, or_comm, eq_comm]
    · simp [register, registerSchemaEventHandler, h, AList.lookup_insert_ne (Ne.symm h)]

theorem Environment.schemas_registered (timeLimit : ℕ) (timeLimits : List ((String → Bool) × ℕ))
    (log : List (Registration R)) (event : String) :
    (registered timeLimit timeLimits log).schemas event = schemasFor log event := by
  have hfoldl (env : Environment R) (schemaID : String) :
      schemaID ∈ (log.foldl register env).schemas event ↔
        schemaID ∈ env.schemas event ∨ ∃ r ∈ log, r.event = event ∧ r.schemaID = some schemaID := by
    induction log generalizing env with
    | nil => simp
    | cons r log ih =>
      rw [List.foldl_cons, ih, mem_schemas_register, List.exists_mem_cons_iff, or_assoc]
  refine Finset.ext fun schemaID ↦ ?_
  have hnone : schemaID ∉ (empty timeLimit timeLimits : Environment R).schemas event :=
    Finset.notMem_empty _
  rw [registered, hfoldl, or_iff_right hnone, schemasFor, List.mem_toFinset, List.mem_filterMap]
  simp only [List.mem_filter, decide_eq_true_eq, and_assoc]

/-- `HandleEvent` by what was registered: the handlers of the schema, or of all schemas, and then
the general ones, each in the order of the priorities. -/
def handleInOrder (w : World R) (nested : Nested) (log : List (Registration R)) (event : String) :
    St → Option (Result × St) :=
  dispatch w nested event (schemasFor log event) (fun schemaID ↦ inOrder log event (some schemaID))
    (inOrder log event none)

/-- **Handlers are called in the order of their priorities, and where these are equal in that of
their registration**, first those of the schema and then the general ones, up to the first that
fails. -/
theorem handleEventForEnv_registered (w : World R) (nested : Nested) (timeLimit : ℕ)
    (timeLimits : List ((String → Bool) × ℕ)) (log : List (Registration R)) (event : String)
    (s : St) :
    let env := Environment.registered timeLimit timeLimits log
    handleEventForEnv w nested env event s =
      withTimeout (env.getTimeout event) (handleInOrder w nested log event) s := by
  intro env
  have hcalls : env.schemaCalls event = fun schemaID ↦ inOrder log event (some schemaID) :=
    funext fun schemaID ↦ Environment.schemaCalls_registered _ _ _ _ _
  rw [handleEventForEnv, hcalls, Environment.calls_registered, Environment.schemas_registered]
  rfl

end Order

/-! ## What is left as it was -/

/-- The keys of the context that are changed only for the time of an event. -/
def reserved : List String := [keyTopLevelHandler, "context"]

/-- What an event leaves as it was. -/
structure Kept (s s' : St) : Prop where
  traceID : s'.traceID = s.traceID
  context : ∀ key ∈ reserved, s'.context.lookup key = s.context.lookup key

/-- The handler itself leaves these keys alone. -/
def Code.Respects {R : Type} : Code R → Prop
  | .ret _ => True
  | .get _ next => ∀ entry, (next entry).Respects
  | .put key _ next | .delete key next => key ∉ reserved ∧ next.Respects
  | .load next => ∀ resource, (next resource).Respects
  | .store _ next => next.Respects
  | .handle _ next | .trigger _ next => ∀ result, (next result).Respects
  | .handleCopy _ _ next => ∀ context result, (next context result).Respects

/-- Every handler of the environment keeps to the reserved keys. -/
structure Environment.Respects {R : Type} (env : Environment R) : Prop where
  calls : ∀ event, ∀ handler ∈ env.calls event, handler.Respects
  schemaCalls : ∀ event schemaID, ∀ handler ∈ env.schemaCalls event schemaID, handler.Respects

/-- The environment keeps to the reserved keys, whatever its language is. -/
def BaseEnvironment.Respects {R : Type} : BaseEnvironment R → Prop
  | .go env => env.Respects
  | .js _ run => ∀ event context, ∀ key ∈ reserved,
      (run event context).2.lookup key = context.lookup key

/-- All environments keep to the reserved keys. -/
def World.Respects {R : Type} (w : World R) : Prop :=
  ∀ schemaID envs, w.environment schemaID = some envs → ∀ env ∈ envs, env.Respects

/-- Whatever the code comes to, the reserved keys and the trace identifier are kept. -/
def Keeps (body : St → Option (Result × St)) : Prop :=
  ∀ s result s', body s = some (result, s') → Kept s s'

/-- What handlers do in between keeps the reserved keys. -/
structure Nested.Keeps (nested : Nested) : Prop where
  handleEvent : ∀ event, Events.Keeps (nested.handleEvent event)
  triggerEvent : ∀ event context result context',
    nested.triggerEvent event context = some (result, context') →
      ∀ key ∈ reserved, context'.lookup key = context.lookup key

namespace Kept

variable {s s' s'' : St}

theorem refl (s : St) : Kept s s := ⟨rfl, fun _ _ ↦ rfl⟩

theorem trans (h : Kept s s') (h' : Kept s' s'') : Kept s s'' :=
  ⟨h'.traceID.trans h.traceID, fun key hkey ↦ (h'.context key hkey).trans (h.context key hkey)⟩

theorem put (s : St) {key : String} (entry : Entry) (hkey : key ∉ reserved) :
    Kept s (s.put key entry) where
  traceID := rfl
  context _ hother := AList.lookup_insert_ne fun heq ↦ hkey (heq ▸ hother)

theorem delete (s : St) {key : String} (hkey : key ∉ reserved) : Kept s (s.delete key) where
  traceID := rfl
  context _ hother := AList.lookup_erase_ne fun heq ↦ hkey (heq ▸ hother)

end Kept

section Keeps

variable {R : Type} {w : World R} {nested : Nested}

theorem kept_exec (hnested : nested.Keeps) {code : Code R} (hcode : code.Respects) {s s' : St}
    {resource resource' : Option R} {result : Result}
    (h : exec nested code s resource = some (result, s', resource')) : Kept s s' := by
  induction code generalizing s resource with
  | ret result =>
    cases h
    exact Kept.refl _
  | get key next ih => exact ih _ (hcode _) h
  | put key entry next ih => exact (Kept.put s entry hcode.1).trans (ih hcode.2 h)
  | delete key next ih => exact (Kept.delete s hcode.1).trans (ih hcode.2 h)
  | load next ih => exact ih _ (hcode _) h
  | store value next ih =>
    cases resource with
    | some old => exact ih hcode h
    | none =>
      cases h
      exact Kept.refl _
  | handle event next ih =>
    obtain ⟨⟨res, t⟩, ht, hrest⟩ := Option.bind_eq_some_iff.mp h
    exact (hnested.handleEvent event s res t ht).trans (ih _ (hcode _) hrest)
  | handleCopy copy event next ih =>
    obtain ⟨⟨res, inner⟩, hinner, hrest⟩ := Option.bind_eq_some_iff.mp h
    have htrace : inner.traceID = s.traceID :=
      (hnested.handleEvent event _ res inner hinner).traceID
    have hkept : Kept s { s with traceID := inner.traceID } := ⟨htrace, fun _ _ ↦ rfl⟩
    exact hkept.trans (ih _ _ (hcode _ _) hrest)
  | trigger event next ih =>
    obtain ⟨⟨res, context⟩, hcontext, hrest⟩ := Option.bind_eq_some_iff.mp h
    have hkept : Kept s { s with context } :=
      ⟨rfl, hnested.triggerEvent event _ res context hcontext⟩
    exact hkept.trans (ih _ (hcode _) hrest)

theorem keeps_callHandlers (hnested : nested.Keeps) {handlers : List (Code R)}
    (hhandlers : ∀ handler ∈ handlers, handler.Respects) :
    Keeps (callHandlers nested handlers) := by
  intro s result s' h
  induction handlers generalizing s with
  | nil =>
    cases h
    exact Kept.refl _
  | cons handler handlers ih =>
    obtain ⟨⟨res, t, resource⟩, ht, hrest⟩ := Option.bind_eq_some_iff.mp h
    have hkept := kept_exec hnested (hhandlers handler List.mem_cons_self) ht
    cases res with
    | error failure =>
      cases hrest
      exact hkept
    | ok =>
      exact hkept.trans
        (ih (fun other hother ↦ hhandlers other (List.mem_cons_of_mem _ hother)) t hrest)

theorem kept_callSchemaHandlers (hnested : nested.Keeps) {handlers : List (Code R)}
    (hhandlers : ∀ handler ∈ handlers, handler.Respects) {s s' : St} {resource : Option R}
    {result : Result} (h : callSchemaHandlers w nested handlers s resource = some (result, s')) :
    Kept s s' := by
  induction handlers generalizing s resource with
  | nil =>
    cases h
    exact Kept.refl _
  | cons handler handlers ih =>
    obtain ⟨⟨res, t, resource'⟩, ht, hrest⟩ := Option.bind_eq_some_iff.mp h
    have hkept : Kept s t := (Kept.put s _ (by decide)).trans
      (kept_exec hnested (hhandlers handler List.mem_cons_self) ht)
    have hrespects (other : Code R) (hother : other ∈ handlers) : other.Respects :=
      hhandlers other (List.mem_cons_of_mem _ hother)
    cases res with
    | error failure =>
      cases hrest
      exact hkept
    | ok =>
      cases resource' with
      | none => exact hkept.trans (ih hrespects hrest)
      | some value => exact hkept.trans ((Kept.put t _ (by decide)).trans (ih hrespects hrest))

theorem keeps_dispatchSchemaEventForEnv (hnested : nested.Keeps) {handlers : List (Code R)}
    (hhandlers : ∀ handler ∈ handlers, handler.Respects) (sch : String) :
    Keeps (dispatchSchemaEventForEnv w nested sch handlers) := by
  intro s result s' h
  rw [dispatchSchemaEventForEnv] at h
  split at h
  · exact kept_callSchemaHandlers hnested hhandlers h
  · split at h
    · cases h
      exact Kept.refl _
    · exact kept_callSchemaHandlers hnested hhandlers h
  · cases h
    exact Kept.refl _

theorem keeps_dispatchAll (hnested : nested.Keeps) {handlers : String → List (Code R)}
    (hhandlers : ∀ schemaID, ∀ handler ∈ handlers schemaID, handler.Respects)
    (schemaIDs : List String) : Keeps (dispatchAll w nested handlers schemaIDs) := by
  intro s result s' h
  induction schemaIDs generalizing s with
  | nil =>
    cases h
    exact Kept.refl _
  | cons schemaID rest ih =>
    rw [dispatchAll] at h
    split at h
    · obtain ⟨⟨res, t⟩, ht, hrest⟩ := Option.bind_eq_some_iff.mp h
      have hkept := keeps_dispatchSchemaEventForEnv hnested (hhandlers schemaID) schemaID s res t ht
      cases res with
      | error failure =>
        cases hrest
        exact hkept
      | ok => exact hkept.trans (ih t hrest)
    · cases h
      exact Kept.refl _

theorem keeps_dispatchSchemas (hnested : nested.Keeps) {handlers : String → List (Code R)}
    (hhandlers : ∀ schemaID, ∀ handler ∈ handlers schemaID, handler.Respects)
    (schemas : Finset String) : Keeps (dispatchSchemas w nested schemas handlers) := by
  intro s result s' h
  rw [dispatchSchemas] at h
  split at h
  · cases h
    exact Kept.refl _
  · split at h
    · exact keeps_dispatchAll hnested hhandlers _ s result s' h
    · split at h
      · cases h
        exact Kept.refl _
      · have hput (schemaID : String) : Kept s (s.put "schema_id" (.value (.str schemaID))) :=
          Kept.put s _ (by decide)
        simp only at h
        split at h
        · exact (hput _).trans (keeps_dispatchSchemaEventForEnv hnested (hhandlers _) _ _ _ _ h)
        · cases h
          exact hput _

theorem keeps_dispatch (hnested : nested.Keeps) {event : String} {schemas : Finset String}
    {schemaHandlers : String → List (Code R)} {handlers : List (Code R)}
    (hschemas : ∀ schemaID, ∀ handler ∈ schemaHandlers schemaID, handler.Respects)
    (hhandlers : ∀ handler ∈ handlers, handler.Respects) :
    Keeps (dispatch w nested event schemas schemaHandlers handlers) := by
  intro s result s' h
  obtain ⟨⟨res, t⟩, ht, hrest⟩ := Option.bind_eq_some_iff.mp h
  have hkept : Kept s t := (Kept.put s _ (by decide)).trans
    (keeps_dispatchSchemas hnested hschemas schemas _ res t ht)
  cases res with
  | error failure =>
    cases hrest
    exact hkept
  | ok => exact hkept.trans (keeps_callHandlers hnested hhandlers t result s' hrest)

theorem keeps_withTimeout {body : St → Option (Result × St)} (hbody : Keeps body) (timeout : ℕ) :
    Keeps (withTimeout timeout body) := by
  intro s result s' h
  rw [withTimeout] at h
  split at h
  · exact hbody s result s' h
  · split at h
    · next timeouts hctx =>
      obtain ⟨⟨res, t⟩, ht, hrest⟩ := Option.bind_eq_some_iff.mp h
      cases hrest
      obtain ⟨htrace, hcontext⟩ := hbody _ _ t ht
      refine ⟨htrace, fun key hkey ↦ ?_⟩
      by_cases heq : key = "context"
      · subst heq
        exact (AList.lookup_insert _).trans hctx.symm
      · exact (AList.lookup_insert_ne heq).trans
          ((hcontext key hkey).trans (AList.lookup_insert_ne heq))
    · cases h
      exact Kept.refl _

theorem keeps_tracing {body : St → Option (Result × St)} (hbody : Keeps body) :
    Keeps (tracing body) := by
  intro s result s' h
  rw [tracing] at h
  split at h
  · exact hbody s result s' h
  · split at h
    · cases h
      exact Kept.refl _
    · obtain ⟨⟨res, t⟩, ht, hrest⟩ := Option.bind_eq_some_iff.mp h
      cases hrest
      exact ⟨rfl, (hbody _ _ t ht).context⟩

theorem keeps_markingTopLevel {body : St → Option (Result × St)} (hbody : Keeps body) :
    Keeps (markingTopLevel body) := by
  intro s result s' h
  rw [markingTopLevel] at h
  split at h
  · exact hbody s result s' h
  · next hnone =>
    obtain ⟨⟨res, t⟩, ht, hrest⟩ := Option.bind_eq_some_iff.mp h
    cases hrest
    obtain ⟨htrace, hcontext⟩ := hbody _ _ t ht
    refine ⟨htrace, fun key hkey ↦ ?_⟩
    by_cases heq : key = keyTopLevelHandler
    · subst heq
      exact (AList.lookup_erase _ _).trans hnone.symm
    · exact (AList.lookup_erase_ne heq).trans
        ((hcontext key hkey).trans (AList.lookup_insert_ne heq))

theorem keeps_handleEventWith (hnested : nested.Keeps) {env : Environment R} (henv : env.Respects)
    (event : String) : Keeps (handleEventWith w nested env event) :=
  keeps_markingTopLevel (keeps_tracing (keeps_withTimeout
    (keeps_dispatch hnested (henv.schemaCalls event) (henv.calls event)) _))

end Keeps

/-! ### The events of another schema -/

theorem lookup_restore_self (key : String) (before context : Context) :
    (restore key before context).lookup key = before.lookup key := by
  rw [restore]
  split
  · next original h => rw [AList.lookup_insert, h]
  · next h => rw [AList.lookup_erase, h]

theorem lookup_restore_ne {key other : String} (h : other ≠ key) (before context : Context) :
    (restore key before context).lookup other = context.lookup other := by
  rw [restore]
  split
  · exact AList.lookup_insert_ne h
  · exact AList.lookup_erase_ne h

/-- The context is left as it was in the reserved keys. -/
def KeepsContext (context context' : Context) : Prop :=
  ∀ key ∈ reserved, context'.lookup key = context.lookup key

theorem KeepsContext.trans {context context' context'' : Context}
    (h : KeepsContext context context') (h' : KeepsContext context' context'') :
    KeepsContext context context'' :=
  fun key hkey ↦ (h' key hkey).trans (h key hkey)

theorem keepsContext_insert (context : Context) {key : String} (entry : Entry)
    (hkey : key ∉ reserved) : KeepsContext context (context.insert key entry) :=
  fun _ hother ↦ AList.lookup_insert_ne fun heq ↦ hkey (heq ▸ hother)

theorem keepsContext_erase (context : Context) {key : String} (hkey : key ∉ reserved) :
    KeepsContext context (context.erase key) :=
  fun _ hother ↦ AList.lookup_erase_ne fun heq ↦ hkey (heq ▸ hother)

theorem keepsContext_restore (before context : Context) {key : String} (hkey : key ∉ reserved) :
    KeepsContext context (restore key before context) :=
  fun other hother ↦ lookup_restore_ne (fun heq : other = key ↦ hkey (heq ▸ hother)) before context

theorem keepsContext_ensureRawTxInContext {context ready : Context}
    (h : ensureRawTxInContext context = .ok ready) : KeepsContext context ready := by
  rw [ensureRawTxInContext] at h
  split at h
  · cases h
    exact fun _ _ ↦ rfl
  · cases h
    exact fun _ _ ↦ rfl
  · cases h
    exact keepsContext_insert _ _ (by decide)
  · cases h

theorem keepsContext_parseHandleEventResult (result : Result) (context : Context) :
    KeepsContext context (parseHandleEventResult result context).2 := by
  have hclean : KeepsContext context ((context.erase "exception").erase "exception_message") :=
    (keepsContext_erase context (by decide)).trans (keepsContext_erase _ (by decide))
  match result with
  | .error (.panic _) => exact fun _ _ ↦ rfl
  | .error (.error _) => exact hclean
  | .ok () => exact hclean

section Trigger

variable {R : Type} {w : World R}
  {handleEvent : Environment R → String → St → Option (Result × St)}

theorem keepsContext_handleInAll
    (hhandle : ∀ env : Environment R, env.Respects → ∀ event, Keeps (handleEvent env event))
    {event : String} {envs : List (BaseEnvironment R)} (henvs : ∀ env ∈ envs, env.Respects)
    {context context' : Context} {result : Result}
    (h : handleInAll w handleEvent event envs context = some (result, context')) :
    KeepsContext context context' := by
  induction envs generalizing context with
  | nil =>
    cases h
    exact fun _ _ ↦ rfl
  | cons env envs ih =>
    obtain ⟨⟨res, after⟩, hafter, hrest⟩ := Option.bind_eq_some_iff.mp h
    have henv := henvs env List.mem_cons_self
    have hkept : KeepsContext context after := by
      cases env with
      | go env =>
        obtain ⟨⟨_, t⟩, ht, hsome⟩ := Option.bind_eq_some_iff.mp hafter
        cases hsome
        exact (hhandle env.clone ⟨henv.calls, henv.schemaCalls⟩ event _ _ t ht).context
      | js isEventHandled run =>
        obtain rfl : after =
            (if isEventHandled event context then run event context else (.ok (), context)).2 :=
          (congrArg Prod.snd (Option.some.inj hafter)).symm
        split
        · exact henv event context
        · exact fun _ _ ↦ rfl
    cases res with
    | error failure =>
      cases hrest
      exact hkept
    | ok =>
      exact hkept.trans
        (ih (fun other hother ↦ henvs other (List.mem_cons_of_mem _ hother)) hrest)

theorem keepsContext_triggerEventWith (hw : w.Respects)
    (hhandle : ∀ env : Environment R, env.Respects → ∀ event, Keeps (handleEvent env event))
    {event : String} {context context' : Context} {result : Result}
    (h : triggerEventWith w handleEvent event context = some (result, context')) :
    KeepsContext context context' := by
  have hundo (withSchema after : Context) (hafter : KeepsContext context after) :
      KeepsContext context (restore "schema" context (restore "transaction" withSchema after)) :=
    hafter.trans ((keepsContext_restore _ _ (by decide)).trans
      (keepsContext_restore _ _ (by decide)))
  rw [triggerEventWith] at h
  split at h
  · cases h
    exact fun _ _ ↦ rfl
  · next schemaID _ =>
    split at h
    · cases h
      exact keepsContext_restore _ _ (by decide)
    · have hschema : KeepsContext context (context.insert "schema" (.rawSchema schemaID)) :=
        keepsContext_insert _ _ (by decide)
      simp only at h
      split at h
      · cases h
        exact hundo _ _ hschema
      · next ready hready =>
        have hready := hschema.trans (keepsContext_ensureRawTxInContext hready)
        split at h
        · cases h
          exact hundo _ _ hready
        · next envs henvs =>
          obtain ⟨⟨res, after⟩, hafter, hrest⟩ := Option.bind_eq_some_iff.mp h
          cases hrest
          exact hundo _ _ (hready.trans ((keepsContext_handleInAll hhandle
            (hw schemaID envs henvs) hafter).trans (keepsContext_parseHandleEventResult _ _)))

/-- Whatever the handlers do with them. -/
theorem lookup_triggerEventWith {event : String} {context context' : Context} {result : Result}
    (h : triggerEventWith w handleEvent event context = some (result, context')) :
    context'.lookup "schema" = context.lookup "schema" ∧
      context'.lookup "transaction" = context.lookup "transaction" := by
  have hundo (schemaID : String) (after : Context) :
      let undone := restore "schema" context
        (restore "transaction" (context.insert "schema" (.rawSchema schemaID)) after)
      undone.lookup "schema" = context.lookup "schema" ∧
        undone.lookup "transaction" = context.lookup "transaction" := by
    refine ⟨lookup_restore_self _ _ _, ?_⟩
    rw [lookup_restore_ne (by decide), lookup_restore_self, AList.lookup_insert_ne (by decide)]
  rw [triggerEventWith] at h
  split at h
  · cases h
    exact ⟨rfl, rfl⟩
  · next schemaID _ =>
    split at h
    · cases h
      exact ⟨lookup_restore_self _ _ _, lookup_restore_ne (by decide) _ _⟩
    · simp only at h
      split at h
      · cases h
        exact hundo schemaID _
      · split at h
        · cases h
          exact hundo schemaID _
        · obtain ⟨⟨res, after⟩, -, hrest⟩ := Option.bind_eq_some_iff.mp h
          cases hrest
          exact hundo schemaID _

/-- Unless a handler has panicked. -/
theorem lookup_exception_triggerEventWith {event : String} {context context' : Context}
    {result : Result} (h : triggerEventWith w handleEvent event context = some (result, context'))
    (hresult : ∀ message, result ≠ crash message) {key : String}
    (hkey : key = "exception" ∨ key = "exception_message") (hnone : context.lookup key = none) :
    context'.lookup key = none := by
  have hschema : key ≠ "schema" := by rintro rfl; revert hkey; decide
  have htransaction : key ≠ "transaction" := by rintro rfl; revert hkey; decide
  have hundo (withSchema after : Context) (hafter : after.lookup key = none) :
      (restore "schema" context (restore "transaction" withSchema after)).lookup key = none := by
    rw [lookup_restore_ne hschema, lookup_restore_ne htransaction, hafter]
  rw [triggerEventWith] at h
  split at h
  · cases h
    exact hnone
  · next schemaID _ =>
    split at h
    · cases h
      rwa [lookup_restore_ne hschema]
    · have hinsert : (context.insert "schema" (.rawSchema schemaID)).lookup key = none := by
        rwa [AList.lookup_insert_ne hschema]
      simp only at h
      split at h
      · cases h
        exact hundo _ _ hinsert
      · next ready hready =>
        split at h
        · cases h
          refine hundo _ _ ?_
          rw [ensureRawTxInContext] at hready
          split at hready <;> cases hready
          · exact hinsert
          · exact hinsert
          · rwa [AList.lookup_insert_ne htransaction]
        · obtain ⟨⟨res, after⟩, -, hrest⟩ := Option.bind_eq_some_iff.mp h
          cases hrest
          refine hundo _ _ ?_
          match res with
          | .error (.panic message) => exact absurd rfl (hresult message)
          | .error (.error _) | .ok () =>
            change AList.lookup key ((after.erase "exception").erase "exception_message") = none
            obtain rfl | rfl := hkey
            · rw [AList.lookup_erase_ne (by decide), AList.lookup_erase]
            · rw [AList.lookup_erase]

end Trigger

theorem keeps_handleEvent {R : Type} {w : World R} (hw : w.Respects) (fuel : ℕ)
    {env : Environment R} (henv : env.Respects) (event : String) :
    Keeps (handleEvent w fuel env event) := by
  induction fuel generalizing env event with
  | zero => exact fun _ _ _ h ↦ nomatch h
  | succ fuel ih =>
    have htrigger (event : String) (context : Context) (result : Result) (context' : Context)
        (h : triggerEventWith w (handleEvent w fuel) event context = some (result, context')) :
        KeepsContext context context' :=
      keepsContext_triggerEventWith hw (fun _ hother event ↦ ih hother event) h
    exact keeps_handleEventWith ⟨fun event ↦ ih henv event, htrigger⟩ henv event

theorem Environment.respects_registered {R : Type} {timeLimit : ℕ}
    {timeLimits : List ((String → Bool) × ℕ)} {log : List (Registration R)}
    (h : ∀ r ∈ log, r.handler.Respects) : (registered timeLimit timeLimits log).Respects := by
  have hmem {event : String} {schemaID : Option String} {handler : Code R}
      (hhandler : handler ∈ inOrder log event schemaID) : handler.Respects := by
    obtain ⟨entry, hentry, rfl⟩ := List.mem_map.mp hhandler
    obtain ⟨r, hr, rfl⟩ := List.mem_map.mp ((List.mergeSort_perm _ _).mem_iff.mp hentry)
    exact h r (List.mem_filter.mp hr).1
  refine ⟨fun event handler hhandler ↦ ?_, fun event schemaID handler hhandler ↦ ?_⟩
  · rw [calls_registered] at hhandler
    exact hmem hhandler
  · rw [schemaCalls_registered] at hhandler
    exact hmem hhandler

/-- **An event leaves the environment and the context as they were.**  Whatever other events the
handlers handle, and however it ends, the environment has the trace identifier that it had before,
and the context has the mark of the top-level event, and the deadline, that it had before. -/
theorem restored_of_handleEvent {R : Type} {w : World R} (hw : w.Respects) {env : Environment R}
    (henv : env.Respects) (fuel : ℕ) (event : String) (s s' : St) (result : Result)
    (h : handleEvent w fuel env event s = some (result, s')) :
    s'.traceID = s.traceID ∧
      s'.context.lookup keyTopLevelHandler = s.context.lookup keyTopLevelHandler ∧
      s'.context.lookup "context" = s.context.lookup "context" := by
  obtain ⟨htrace, hcontext⟩ := keeps_handleEvent hw fuel henv event s result s' h
  exact ⟨htrace, hcontext _ (by decide), hcontext _ (by decide)⟩

/-- The schema `child` has a handler that replaces the transaction, and fails. -/
def childLog : List (Registration Unit) :=
  [⟨none, "changed", .put "transaction" (.value .nil) (.ret (fail 409 "busy")), 0⟩]

/-- The schema `parent` has a handler that handles another event, and triggers one of `child`. -/
def parentLog : List (Registration Unit) :=
  [⟨some "parent", "post_update", .handle "log" fun _ ↦
      .put "schema_id" (.value (.str "child")) (.trigger "changed" fun _ ↦ .ret (.ok ())), 0⟩,
    ⟨none, "log", .ret (.ok ()), 0⟩]

/-- The environments of two schemas, of which the one triggers an event of the other. -/
def family : World Unit where
  find _ := true
  environment schemaID :=
    if schemaID = "child" then some [.go (.registered 5 [] childLog)] else none
  range _ := []
  cloneTraceID := "clone"
  resourceFromMap _ _ := .ok none
  resourceToMap _ := .nil

theorem family_respects : family.Respects := by
  intro schemaID envs henvs env henv
  have h : (if schemaID = "child" then some [BaseEnvironment.go (.registered 5 [] childLog)]
      else none) = some envs := henvs
  split at h
  · cases h
    obtain rfl := List.mem_singleton.mp henv
    refine Environment.respects_registered fun r hr ↦ ?_
    obtain rfl := List.mem_singleton.mp hr
    exact ⟨by decide, trivial⟩
  · cases h

/-- The context of a request, in which there is a transaction. -/
def request : Context := GoMap.ofList
  [("schema_id", .value (.str "parent")), ("trace_id", .value (.str "request")),
    ("transaction", .tx false 7), ("context", .ctx [])]

theorem restored_of_handleEvent_family :
    ∃ result s', handleEvent family 3 (.registered 5 [] parentLog) "post_update"
        ⟨request, "parent"⟩ = some (result, s') ∧
      s'.traceID = "parent" ∧ s'.context.lookup keyTopLevelHandler = none ∧
      s'.context.lookup "context" = request.lookup "context" := by
  obtain ⟨⟨result, s'⟩, h⟩ := Option.isSome_iff_exists.mp
    (by decide : (handleEvent family 3 (.registered 5 [] parentLog) "post_update"
      ⟨request, "parent"⟩).isSome = true)
  have henv : (Environment.registered 5 [] parentLog).Respects := by
    refine Environment.respects_registered fun r hr ↦ ?_
    obtain rfl | rfl : r = _ ∨ r = _ := by simpa [parentLog] using hr
    · exact fun _ ↦ ⟨by decide, fun _ ↦ trivial⟩
    · trivial
  exact ⟨result, s', h, restored_of_handleEvent family_respects henv 3 "post_update" _ s' result h⟩

/-- **An event of another schema leaves the context as it was.**  The handlers find the schema and
the transaction in another form there, and may replace them; afterwards they are what they were.
The exception of a Javascript extension is taken out. -/
theorem restored_of_triggerEvent {R : Type} {w : World R} (hw : w.Respects) (fuel : ℕ)
    (event : String) (context context' : Context) (result : Result)
    (h : triggerEvent w fuel event context = some (result, context')) :
    (∀ key ∈ ["schema", "transaction", keyTopLevelHandler, "context"],
      context'.lookup key = context.lookup key) ∧
    ((∀ message, result ≠ crash message) → ∀ key ∈ ["exception", "exception_message"],
      context.lookup key = none → context'.lookup key = none) := by
  obtain ⟨hschema, htransaction⟩ := lookup_triggerEventWith h
  have hkept := keepsContext_triggerEventWith hw
    (fun _ henv event ↦ keeps_handleEvent hw fuel henv event) h
  refine ⟨fun key hkey ↦ ?_, fun hresult key hkey hnone ↦ ?_⟩
  · simp only [List.mem_cons, List.not_mem_nil, or_false] at hkey
    obtain rfl | rfl | rfl | rfl := hkey
    · exact hschema
    · exact htransaction
    · exact hkept _ (by decide)
    · exact hkept _ (by decide)
  · exact lookup_exception_triggerEventWith h hresult (by simpa using hkey) hnone

theorem restored_of_triggerEvent_family :
    ∃ result context', triggerEvent family 2 "changed"
        (request.insert "schema_id" (.value (.str "child"))) = some (result, context') ∧
      (∀ key ∈ ["schema", "transaction", keyTopLevelHandler, "context"],
        context'.lookup key =
          AList.lookup key (request.insert "schema_id" (.value (.str "child")))) ∧
      ((∀ message, result ≠ crash message) → ∀ key ∈ ["exception", "exception_message"],
        AList.lookup key (request.insert "schema_id" (.value (.str "child"))) = none →
          context'.lookup key = none) := by
  obtain ⟨⟨result, context'⟩, h⟩ := Option.isSome_iff_exists.mp
    (by decide : (triggerEvent family 2 "changed"
      (request.insert "schema_id" (.value (.str "child")))).isSome = true)
  exact ⟨result, context', h, restored_of_triggerEvent family_respects 2 "changed" _ _ _ h⟩

end Gohan.Goplugin.Events
