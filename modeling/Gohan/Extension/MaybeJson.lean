import Gohan.Db.Handlers

/-!
# Wrappers in JSON

A wrapper is written as its value, or as null when it has none.  Reading one back sets the value,
but never the state.  The branch that sets it to null is taken when there are no bytes at all, and
the decoder has some for null.  So what is read into a new wrapper is undefined, whatever is read
(`state_unmarshalJSON`), alone or in a struct (`not_jsonRoundTrips`).

A JSON text is represented by the value it is a text of.
-/

set_option autoImplicit false

namespace Gohan

open Sync

/-- A `float64`; the texts of those that are not finite are no JSON. -/
inductive Float64 where
  | finite (q : ℚ)
  | special (text : String)
  deriving DecidableEq

/-! ## Package `encoding/json` -/

section Json

/-- A text is read into a variable of a type that it does not fit. -/
def unmarshalTypeError {α : Type} (type : String) : Go α :=
  .errorf "json: cannot unmarshal value into Go value of type %s" [.str type]

/-- The JSON text of a string. -/
def marshalString (value : String) : Go Value := .ok (.str value)

/-- The JSON text of an integer. -/
def marshalInt (value : ℤ) : Go Value := .ok (.int value)

/-- The JSON text of a truth value. -/
def marshalBool (value : Bool) : Go Value := .ok (.bool value)

/-- The JSON text of a number.  The infinite ones and NaN have none. -/
def marshalFloat : Float64 → Go Value
  | .finite q => .ok (.float q)
  | .special text => .errorf "json: unsupported value: %s" [.str text]

/-- `json.Unmarshal` into a string; null leaves it as it is. -/
def unmarshalString (b : Value) (value : String) : Go String :=
  match b with
  | .nil => .ok value
  | .str s => .ok s
  | _ => unmarshalTypeError "string"

/-- `json.Unmarshal` into an integer. -/
def unmarshalInt (b : Value) (value : ℤ) : Go ℤ :=
  match b with
  | .nil => .ok value
  | .int n => .ok n
  | .float q => if q.den = 1 ∧ -2 ^ 63 ≤ q.num ∧ q.num < 2 ^ 63 then .ok q.num
      else unmarshalTypeError "int"
  | _ => unmarshalTypeError "int"

/-- A truth value out of a JSON text.  A null leaves what is there. -/
def unmarshalBool (b : Value) (value : Bool) : Go Bool :=
  match b with
  | .nil => .ok value
  | .bool b => .ok b
  | _ => unmarshalTypeError "bool"

variable [TextEngine]

/-- A number out of a JSON text.  A null leaves what is there. -/
def unmarshalFloat (b : Value) (value : Float64) : Go Float64 :=
  match b with
  | .nil => .ok value
  | .int n => .ok (.finite (TextEngine.float64 n))
  | .float q => .ok (.finite q)
  | _ => unmarshalTypeError "float64"

end Json

/-! ## Wrappers -/

namespace Maybe

variable {α : Type}

/-- A new variable. -/
def undefined (zero : α) : Maybe α := ⟨.undefined, zero⟩

/-- `IsNull`. -/
def isNull (m : Maybe α) : Bool := m.state == .null

/-- `IsUndefined`. -/
def isUndefined (m : Maybe α) : Bool := m.state == .undefined

/-- `MarshalJSON`, with that of the value. -/
def marshalJSON (marshal : α → Go Value) (m : Maybe α) : Go Value :=
  if m.isNull || m.isUndefined then .ok .nil else marshal m.value

/-- `UnmarshalJSON`, with that of the value.  There may be no bytes. -/
def unmarshalJSON (unmarshal : Value → α → Go α) (b : Option Value) (m : Maybe α) : Go (Maybe α) :=
  match b with
  | none => .ok { m with state := .null }
  | some b => do
    let value ← unmarshal b m.value
    .ok { m with value }

/-- `Equals`. -/
def equals [DecidableEq α] (m other : Maybe α) : Bool :=
  if m.hasValue && other.hasValue then m.value == other.value
  else !m.hasValue && !other.hasValue

/-- **Reading does not touch the state.** -/
theorem state_unmarshalJSON {unmarshal : Value → α → Go α} {b : Value} {m m' : Maybe α}
    (h : m.unmarshalJSON unmarshal (some b) = .ok m') : m'.state = m.state := by
  obtain ⟨value, -, h⟩ := Go.bind_eq_ok.mp h
  obtain rfl := Except.ok.inj h
  rfl

end Maybe

/-- A wrapper of one of the four types. -/
inductive MaybeField where
  | maybeString (m : Maybe String)
  | maybeInt (m : Maybe ℤ)
  | maybeBool (m : Maybe Bool)
  | maybeFloat (m : Maybe Float64)

namespace MaybeField

/-- The state of the wrapper. -/
def state : MaybeField → MaybeState
  | .maybeString m => m.state
  | .maybeInt m => m.state
  | .maybeBool m => m.state
  | .maybeFloat m => m.state

/-- A new variable of the type. -/
def fresh : MaybeField → MaybeField
  | .maybeString _ => .maybeString (.undefined "")
  | .maybeInt _ => .maybeInt (.undefined 0)
  | .maybeBool _ => .maybeBool (.undefined false)
  | .maybeFloat _ => .maybeFloat (.undefined (.finite 0))

/-- `MarshalJSON` of the wrapper. -/
def marshalJSON : MaybeField → Go Value
  | .maybeString m => m.marshalJSON marshalString
  | .maybeInt m => m.marshalJSON marshalInt
  | .maybeBool m => m.marshalJSON marshalBool
  | .maybeFloat m => m.marshalJSON marshalFloat

/-- `Equals`, for wrappers of one type. -/
def equals : MaybeField → MaybeField → Bool
  | .maybeString m, .maybeString m' => m.equals m'
  | .maybeInt m, .maybeInt m' => m.equals m'
  | .maybeBool m, .maybeBool m' => m.equals m'
  | .maybeFloat m, .maybeFloat m' => m.equals m'
  | _, _ => false

variable [TextEngine]

/-- `UnmarshalJSON` of the wrapper. -/
def unmarshalJSON (b : Option Value) : MaybeField → Go MaybeField
  | .maybeString m => (m.unmarshalJSON unmarshalString b).map .maybeString
  | .maybeInt m => (m.unmarshalJSON unmarshalInt b).map .maybeInt
  | .maybeBool m => (m.unmarshalJSON unmarshalBool b).map .maybeBool
  | .maybeFloat m => (m.unmarshalJSON unmarshalFloat b).map .maybeFloat

theorem state_unmarshalJSON {b : Value} {m m' : MaybeField}
    (h : m.unmarshalJSON (some b) = .ok m') : m'.state = m.state := by
  cases m with
  | _ m =>
    obtain ⟨m'', hm, rfl⟩ := Go.map_eq_ok.mp h
    exact Maybe.state_unmarshalJSON hm

omit [TextEngine] in
@[simp] theorem state_fresh (m : MaybeField) : m.fresh.state = .undefined := by
  cases m <;> rfl

/-- What is written for a wrapper is read into a new one as an equal one in the same state. -/
def RoundTrips (m : MaybeField) : Prop :=
  ∃ b m', m.marshalJSON = .ok b ∧ m.fresh.unmarshalJSON (some b) = .ok m' ∧
    m'.equals m = true ∧ m'.state = m.state

end MaybeField

/-! ## Structs -/

/-- A struct, of wrappers under their names. -/
abbrev MaybeStruct := List (String × MaybeField)

namespace MaybeStruct

/-- The JSON text of a structure of wrappers. -/
def marshalJSON (fields : MaybeStruct) : Go Value := do
  let entries ← fields.mapM fun (name, m) ↦ do .ok (name, ← m.marshalJSON)
  .ok (.map entries)

/-- A new struct of the type. -/
def fresh (fields : MaybeStruct) : MaybeStruct := fields.map fun (name, m) ↦ (name, m.fresh)

/-- The field for a key: the one of that name, or the first that has it but for the case. -/
def fieldFor (equalFold : String → String → Bool) (key : String) (fields : MaybeStruct) :
    Option ℕ :=
  (fields.findIdx? (·.1 == key)).or (fields.findIdx? (equalFold key ·.1))

variable [TextEngine]

/-- The loop over the entries of an object. -/
def unmarshalFrom (equalFold : String → String → Bool) :
    List (String × Value) → MaybeStruct → Go MaybeStruct
  | [], fields => .ok fields
  | (key, b) :: entries, fields =>
    match (fieldFor equalFold key fields).bind fun i ↦ fields[i]?.map fun field ↦ (i, field) with
    | some (i, name, m) => do
      let m ← m.unmarshalJSON (some b)
      unmarshalFrom equalFold entries (fields.set i (name, m))
    | none => unmarshalFrom equalFold entries fields

/-- `json.Unmarshal` into a struct; null leaves it as it is. -/
def unmarshalJSON (equalFold : String → String → Bool) (b : Value) (fields : MaybeStruct) :
    Go MaybeStruct :=
  match b with
  | .nil => .ok fields
  | .map entries => unmarshalFrom equalFold entries fields
  | _ => unmarshalTypeError "struct"

/-- The states of all fields. -/
def states (fields : MaybeStruct) : List MaybeState := fields.map (·.2.state)

theorem states_unmarshalFrom {equalFold : String → String → Bool}
    {entries : List (String × Value)} {fields fields' : MaybeStruct}
    (h : unmarshalFrom equalFold entries fields = .ok fields') :
    states fields' = states fields := by
  induction entries generalizing fields with
  | nil =>
    obtain rfl := Except.ok.inj h
    rfl
  | cons e entries ih =>
    rw [unmarshalFrom] at h
    split at h
    · next i name m hfield =>
      obtain ⟨m', hm, h⟩ := Go.bind_eq_ok.mp h
      obtain ⟨j, -, hj⟩ := Option.bind_eq_some_iff.mp hfield
      obtain ⟨field, hi, heq⟩ := Option.map_eq_some_iff.mp hj
      cases heq
      have hkept : states (fields.set i (name, m')) = states fields := by
        refine List.ext_getElem? fun k ↦ ?_
        rw [states, states, List.getElem?_map, List.getElem?_map, List.getElem?_set]
        split
        · next heq =>
          obtain ⟨hlt, -⟩ := List.getElem?_eq_some_iff.mp hi
          rw [if_pos hlt, ← heq, hi, Option.map_some, Option.map_some]
          exact congrArg some (MaybeField.state_unmarshalJSON hm)
        · rfl
      rw [ih h, hkept]
    · exact ih h

/-- **Reading a struct does not touch the states of its fields.** -/
theorem states_unmarshalJSON {equalFold : String → String → Bool} {b : Value}
    {fields fields' : MaybeStruct} (h : unmarshalJSON equalFold b fields = .ok fields') :
    states fields' = states fields := by
  cases b with
  | nil =>
    obtain rfl := Except.ok.inj h
    rfl
  | map entries => exact states_unmarshalFrom h
  | _ => exact absurd h (Go.errorf_ne_ok _ _ _)

/-- What is written for a struct is read into a new one so that a field of it is as
`MaybeField.RoundTrips` says. -/
def FieldRoundTrips (equalFold : String → String → Bool) (fields : MaybeStruct) (i : ℕ)
    (m : MaybeField) : Prop :=
  ∃ b fields' name m', fields.marshalJSON = .ok b ∧
    unmarshalJSON equalFold b fields.fresh = .ok fields' ∧ fields'[i]? = some (name, m') ∧
    m'.equals m = true ∧ m'.state = m.state

end MaybeStruct

/-- **No wrapper with a value or null comes back from JSON**, neither alone nor in a struct. -/
theorem not_jsonRoundTrips [TextEngine] (equalFold : String → String → Bool) (m : MaybeField)
    (h : m.state ≠ .undefined) :
    ¬ m.RoundTrips ∧ ∀ fields : MaybeStruct, ∀ i name, fields[i]? = some (name, m) →
      ¬ fields.FieldRoundTrips equalFold i m := by
  constructor
  · rintro ⟨b, m', -, hm', -, hstate⟩
    rw [MaybeField.state_unmarshalJSON hm', MaybeField.state_fresh] at hstate
    exact h hstate.symm
  · rintro fields i name hi ⟨b, fields', name', m', -, hfields', hi', -, hstate⟩
    have hstates := MaybeStruct.states_unmarshalJSON hfields'
    have hnew : (MaybeStruct.states fields')[i]? = some m'.state := by
      rw [MaybeStruct.states, List.getElem?_map, hi', Option.map_some]
    rw [hstates, MaybeStruct.states, MaybeStruct.fresh, List.map_map, List.getElem?_map, hi] at hnew
    exact h (((MaybeField.state_fresh m).symm.trans (Option.some.inj hnew)).trans hstate).symm

/-- The empty text. -/
theorem not_jsonRoundTrips_empty :
    letI := placeholders
    ¬ (MaybeField.maybeString ⟨.value, ""⟩).RoundTrips ∧ ∀ fields : MaybeStruct, ∀ i name,
      fields[i]? = some (name, .maybeString ⟨.value, ""⟩) →
        ¬ fields.FieldRoundTrips (· == ·) i (.maybeString ⟨.value, ""⟩) :=
  letI := placeholders
  not_jsonRoundTrips _ _ (by decide)

/-- A text comes back in a wrapper that has no value. -/
theorem hello_undefined :
    letI := placeholders
    (∃ b m', (MaybeField.maybeString ⟨.value, "hello"⟩).marshalJSON = .ok b ∧
      (MaybeField.maybeString (.undefined "")).unmarshalJSON (some b) = .ok (.maybeString m') ∧
      m'.hasValue = false) ∧ ¬ (MaybeField.maybeString ⟨.value, "hello"⟩).RoundTrips := by
  refine ⟨⟨_, _, rfl, rfl, rfl⟩, ?_⟩
  rintro ⟨b, m', hb, hm', -, hstate⟩
  cases hb
  cases hm'
  cases hstate

end Gohan
