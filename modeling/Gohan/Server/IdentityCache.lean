import Gohan.Schema.Access
import Gohan.Logic.Machine

/-!
# The identity cache

`CachedIdentityService` keeps the answers of the identity service it wraps: the authorization of a
token, and the name of a tenant.  Both are put into one cache, each under the string the method was
called with, and a hit is converted to what the method returns without a look at which method the
entry comes from.  A string can be asked about as a token and as a tenant, and then the conversion
panics.

`along_transparent_iff` says for which calls that cannot happen.  `readable_step` is all that is
needed about one call.
-/

set_option autoImplicit false

namespace Gohan

namespace CachedIdentityService

/-- The methods whose answers are kept. -/
inductive Method where
  | GetTenantName
  | VerifyToken
  deriving DecidableEq

/-- What a method returns. -/
def Method.Answer : Method → Type
  | .GetTenantName => String
  | .VerifyToken => Authorization

/-- An answer of the identity service, or the error it returns. -/
abbrev Reply (α : Type) := Except String α

/-- What is in the cache, behind an `interface{}`. -/
inductive Item where
  | name (name : String)
  | authorization (auth : Authorization)

/-- What is kept, by what was asked for. -/
abbrev Cache := GoMap Item

/-- What `Set` puts into the cache. -/
def Method.box : (m : Method) → m.Answer → Item
  | .GetTenantName => .name
  | .VerifyToken => .authorization

/-- The type assertion on what `Get` returns. -/
def Method.assert : (m : Method) → Item → Go m.Answer
  | .GetTenantName, .name name => .ok name
  | .VerifyToken, .authorization auth => .ok auth
  | .GetTenantName, .authorization _ =>
    .panicf "interface conversion: interface \x7b\x7d is not string"
  | .VerifyToken, .name _ =>
    .panicf "interface conversion: interface \x7b\x7d is not schema.Authorization"

/-- What both methods do.  `wrapped` is the answer of the identity service, if it is asked. -/
def cached (m : Method) (cache : Cache) (argument : String) (wrapped : Reply m.Answer) :
    Go (Reply m.Answer) × Cache :=
  match cache.lookup argument with
  | some i => ((m.assert i).map .ok, cache)
  | none =>
    match wrapped with
    | .error err => (.ok (.error err), cache)
    | .ok answer => (.ok (.ok answer), cache.insert argument (m.box answer))

/-- `GetTenantName`. -/
def getTenantName (cache : Cache) (tenantID : String) (wrapped : Reply String) :
    Go (Reply String) × Cache :=
  cached .GetTenantName cache tenantID wrapped

/-- `VerifyToken`. -/
def verifyToken (cache : Cache) (token : String) (wrapped : Reply Authorization) :
    Go (Reply Authorization) × Cache :=
  cached .VerifyToken cache token wrapped

/-! ## Calls -/

/-- A call, with the answer the identity service would give at this time. -/
structure Call where
  method : Method
  argument : String
  wrapped : Reply method.Answer

/-- The cache; and for the record, the calls that have reached the identity service. -/
structure State where
  cache : Cache
  asked : List Call

/-- Nothing has been asked for. -/
def start : State where
  cache := ∅
  asked := []

/-- Both methods, by name. -/
def call (cache : Cache) : (c : Call) → Go (Reply c.method.Answer) × Cache
  | ⟨.GetTenantName, tenantID, wrapped⟩ => getTenantName cache tenantID wrapped
  | ⟨.VerifyToken, token, wrapped⟩ => verifyToken cache token wrapped

/-- One call.  What the wrapped service is asked for is recorded. -/
def step (s : State) (c : Call) : State where
  cache := (call s.cache c).2
  asked := if (s.cache.lookup c.argument).isSome then s.asked else s.asked ++ [c]

/-- The call returns an answer that the identity service gave, now or before, to the same method
with the same argument; an error is one that it has just given, and nothing is cached then. -/
structure Transparent (s : State) (c : Call) : Prop where
  answer : ∃ reply, (call s.cache c).1 = .ok reply ∧
    ⟨c.method, c.argument, reply⟩ ∈ (step s c).asked
  error : ∀ err, (call s.cache c).1 = .ok (.error err) →
    c.wrapped = .error err ∧ (step s c).asked = s.asked ++ [c]
  uncached : ∀ err, c.wrapped = .error err → (step s c).cache = s.cache

/-- Once the first call has been answered without an error, the second one may follow it. -/
def Call.Compatible (c d : Call) : Prop :=
  c.argument = d.argument → (∃ answer, c.wrapped = .ok answer) → c.method = d.method

/-- What is in the cache for the argument of the call is from the same method. -/
def Readable (s : State) (c : Call) : Prop :=
  ∀ m answer, s.cache.lookup c.argument = some (Method.box m answer) → m = c.method

/-- What is in the cache, the identity service has answered. -/
def Recorded (s : State) : Prop :=
  ∀ argument i, s.cache.lookup argument = some i →
    ∃ m answer, i = Method.box m answer ∧ (⟨m, argument, .ok answer⟩ : Call) ∈ s.asked

theorem call_eq (cache : Cache) (c : Call) :
    call cache c = cached c.method cache c.argument c.wrapped := by
  obtain ⟨_ | _, argument, wrapped⟩ := c <;> rfl

@[simp]
theorem assert_box (m : Method) (answer : m.Answer) : m.assert (m.box answer) = .ok answer := by
  cases m <;> rfl

theorem assert_box_ne {m m' : Method} (h : m' ≠ m) (answer : m'.Answer) (a : m.Answer) :
    m.assert (m'.box answer) ≠ .ok a := by
  cases m <;> cases m' <;> first | exact absurd rfl h | exact fun h ↦ by cases h

theorem exists_box (i : Item) : ∃ m answer, i = Method.box m answer := by
  cases i with
  | name name => exact ⟨.GetTenantName, name, rfl⟩
  | authorization auth => exact ⟨.VerifyToken, auth, rfl⟩

theorem box_inj {m m' : Method} {answer : m.Answer} {answer' : m'.Answer}
    (h : m.box answer = m'.box answer') : m = m' := by
  cases m <;> cases m' <;> first | rfl | cases h

/-! ## One call -/

variable {s : State} {c d : Call}

theorem call_of_lookup {i : Item} (h : s.cache.lookup c.argument = some i) :
    call s.cache c = ((c.method.assert i).map .ok, s.cache) := by
  simp only [call_eq, cached, h]

theorem call_of_error {err : String} (h : s.cache.lookup c.argument = none)
    (hwrapped : c.wrapped = .error err) : call s.cache c = (.ok (.error err), s.cache) := by
  simp only [call_eq, cached, h, hwrapped]

theorem call_of_ok {answer : c.method.Answer} (h : s.cache.lookup c.argument = none)
    (hwrapped : c.wrapped = .ok answer) :
    call s.cache c =
      (.ok (.ok answer), s.cache.insert c.argument (c.method.box answer)) := by
  simp only [call_eq, cached, h, hwrapped]

theorem asked_of_lookup {i : Item} (h : s.cache.lookup c.argument = some i) :
    (step s c).asked = s.asked := by
  simp [step, h]

theorem asked_of_none (h : s.cache.lookup c.argument = none) :
    (step s c).asked = s.asked ++ [c] := by
  simp [step, h]

/-- **What a call keeps.** -/
theorem Recorded.step (h : Recorded s) (c : Call) : Recorded (step s c) := by
  intro argument i hi
  rw [CachedIdentityService.step] at hi
  cases hlookup : s.cache.lookup c.argument with
  | some j =>
    rw [call_of_lookup hlookup] at hi
    rw [asked_of_lookup hlookup]
    exact h argument i hi
  | none =>
    rw [asked_of_none hlookup]
    have hkept : s.cache.lookup argument = some i → ∃ m answer, i = Method.box m answer ∧
        (⟨m, argument, .ok answer⟩ : Call) ∈ s.asked ++ [c] := by
      intro hi
      obtain ⟨m, answer, rfl, hmem⟩ := h argument i hi
      exact ⟨m, answer, rfl, List.mem_append_left _ hmem⟩
    cases hwrapped : c.wrapped with
    | error err =>
      rw [call_of_error hlookup hwrapped] at hi
      exact hkept hi
    | ok answer =>
      rw [call_of_ok hlookup hwrapped] at hi
      by_cases harg : argument = c.argument
      · subst harg
        rw [AList.lookup_insert] at hi
        obtain rfl := Option.some.inj hi
        refine ⟨c.method, answer, rfl, List.mem_append_right _ ?_⟩
        rw [← hwrapped]
        exact List.mem_singleton_self c
      · rw [AList.lookup_insert_ne harg] at hi
        exact hkept hi

/-- **A call is transparent exactly when the entry it hits, if there is one, is from the same
method.** -/
theorem transparent_iff_readable (h : Recorded s) : Transparent s c ↔ Readable s c := by
  constructor
  · rintro ⟨⟨reply, hreply, -⟩, -, -⟩ m answer hlookup
    by_contra hne
    rw [call_of_lookup hlookup] at hreply
    cases hassert : c.method.assert (m.box answer) with
    | ok a => exact assert_box_ne hne answer a hassert
    | error fault =>
      rw [hassert] at hreply
      cases hreply
  · intro hreadable
    cases hlookup : s.cache.lookup c.argument with
    | some i =>
      obtain ⟨m, answer, rfl, hmem⟩ := h _ _ hlookup
      obtain rfl := hreadable m answer hlookup
      have hcall := call_of_lookup hlookup
      rw [assert_box] at hcall
      refine ⟨⟨.ok answer, by rw [hcall]; rfl, ?_⟩, fun err herr ↦ ?_, fun err _ ↦ ?_⟩
      · rw [asked_of_lookup hlookup]
        exact hmem
      · rw [hcall] at herr
        cases herr
      · rw [CachedIdentityService.step, hcall]
    | none =>
      have hasked := asked_of_none hlookup
      have hmem : ⟨c.method, c.argument, c.wrapped⟩ ∈ (CachedIdentityService.step s c).asked := by
        rw [hasked]
        exact List.mem_append_right _ (List.mem_singleton_self c)
      cases hwrapped : c.wrapped with
      | error err =>
        have hcall := call_of_error hlookup hwrapped
        refine ⟨⟨.error err, by rw [hcall], hwrapped ▸ hmem⟩, fun err' herr ↦ ⟨?_, hasked⟩,
          fun err' _ ↦ ?_⟩
        · rw [hcall] at herr
          cases herr
          exact hwrapped
        · rw [CachedIdentityService.step, hcall]
      | ok answer =>
        have hcall := call_of_ok hlookup hwrapped
        refine ⟨⟨.ok answer, by rw [hcall], hwrapped ▸ hmem⟩, fun err herr ↦ ?_, fun err herr ↦ ?_⟩
        · rw [hcall] at herr
          cases herr
        · rw [hwrapped] at herr
          cases herr

/-- **Which calls may follow a call.** -/
theorem readable_step (hreadable : Readable s c) :
    Readable (step s c) d ↔ Readable s d ∧ c.Compatible d := by
  cases hlookup : s.cache.lookup c.argument with
  | some i =>
    have hcache : (step s c).cache = s.cache := by rw [step, call_of_lookup hlookup]
    rw [Readable, hcache]
    refine (and_iff_left_of_imp fun hd harg _ ↦ ?_).symm
    obtain ⟨m, answer, rfl⟩ := exists_box i
    exact (hreadable m answer hlookup).symm.trans (hd m answer (harg ▸ hlookup))
  | none =>
    cases hwrapped : c.wrapped with
    | error err =>
      have hcache : (step s c).cache = s.cache := by rw [step, call_of_error hlookup hwrapped]
      rw [Readable, hcache]
      refine (and_iff_left_of_imp fun _ _ hok ↦ ?_).symm
      obtain ⟨answer, hok⟩ := hok
      rw [hwrapped] at hok
      cases hok
    | ok answer =>
      have hcache : (step s c).cache = s.cache.insert c.argument (c.method.box answer) := by
        rw [step, call_of_ok hlookup hwrapped]
      rw [Readable, hcache]
      by_cases harg : d.argument = c.argument
      · rw [harg, AList.lookup_insert]
        constructor
        · intro h
          refine ⟨fun m answer' hd ↦ ?_, fun _ _ ↦ h _ _ rfl⟩
          rw [harg, hlookup] at hd
          cases hd
        · rintro ⟨-, hcompatible⟩ m answer' hbox
          rw [← box_inj (Option.some.inj hbox)]
          exact hcompatible harg.symm ⟨answer, hwrapped⟩
      · rw [AList.lookup_insert_ne harg]
        exact (and_iff_left fun h ↦ absurd h.symm harg).symm

/-! ## Any sequence of calls -/

theorem along_readable_iff {calls : List Call} :
    Machine.Along step Readable s calls ↔
      (∀ c ∈ calls, Readable s c) ∧ calls.Pairwise Call.Compatible := by
  induction calls generalizing s with
  | nil => simp [Machine.Along]
  | cons c calls ih =>
    rw [Machine.Along, ih, List.forall_mem_cons, List.pairwise_cons, and_assoc]
    refine and_congr_right fun hreadable ↦ ?_
    simp only [readable_step hreadable, forall_and, and_assoc]

theorem recorded_start : Recorded start := by
  intro argument i hi
  rw [start, AList.lookup_empty] at hi
  cases hi

/-- **The cache is transparent to a sequence of calls exactly when no call is made about a string
for which the other method has already been given an answer.** -/
theorem along_transparent_iff (calls : List Call) :
    Machine.Along step Transparent start calls ↔ calls.Pairwise Call.Compatible := by
  have hreadable : Machine.Along step Transparent start calls ↔
      Machine.Along step Readable start calls :=
    Machine.along_congr (fun _ c h ↦ Recorded.step h c) (fun _ _ h ↦ transparent_iff_readable h)
      recorded_start
  rw [hreadable, along_readable_iff]
  refine and_iff_right fun c _ m answer hlookup ↦ ?_
  rw [start, AList.lookup_empty] at hlookup
  cases hlookup

/-- A tenant is asked about by its id, which is then sent as a token. -/
theorem not_transparent_tenant_as_token :
    ¬∀ calls, Machine.Along step Transparent start calls := by
  intro h
  obtain ⟨-, ⟨reply, hreply, -⟩, -⟩ := (h [⟨.GetTenantName, "t1", .ok "demo"⟩,
    ⟨.VerifyToken, "t1", .error "Invalid token"⟩]).imp_right And.left
  cases hreply

end CachedIdentityService

end Gohan
