import Gohan.Lang.Text
import Mathlib.Algebra.Ring.Int.Defs
import Mathlib.Algebra.Ring.Rat

/-!
# Values in columns

A handler for each type of property stands between resources and columns.  It encodes the value of
a resource into a parameter of a statement, and decodes what the driver scans from a row.

* The value of a resource is a `ResourceValue`: plain, or one of the wrappers that extensions put
  values into, which may also be undefined or null.
* Of what is encoded (`Encoded`), package `database/sql` takes the values of a few types only.
* Between a parameter and what is scanned later are the column and the driver.  A column has the
  type that the handler gives it, and keeps a value in a form of its own (`ColumnType.store`).  The
  drivers differ in the form in which they return it: `Yields` has all those that the handlers are
  prepared for.

An integer that becomes a `float64` on the way, in a number or in a JSON text, is the nearest one.
-/

set_option autoImplicit false

namespace Gohan

open Sync

/-! ## Data -/

/-- `MaybeState`. -/
inductive MaybeState where
  | undefined
  | null
  | value
  deriving DecidableEq

/-- `MaybeString`, `MaybeFloat`, `MaybeInt` and `MaybeBool`: a state, and a value that counts in one
of the states only. -/
structure Maybe (α : Type) where
  state : MaybeState
  value : α

/-- `HasValue`. -/
def Maybe.hasValue {α : Type} (m : Maybe α) : Bool := m.state == .value

/-- What a resource has under the name of a property. -/
inductive ResourceValue where
  | value (v : Value)
  | maybeString (m : Maybe String)
  | maybeFloat (m : Maybe ℚ)
  | maybeInt (m : Maybe ℤ)
  | maybeBool (m : Maybe Bool)

/-- The value in a wrapper, if there is one. -/
def Maybe.plain {α : Type} (m : Maybe α) (ofValue : α → Value) : Value :=
  if m.hasValue then ofValue m.value else .nil

/-- The plain value that a resource has. -/
def ResourceValue.plain : ResourceValue → Value
  | .value v => v
  | .maybeString m => m.plain .str
  | .maybeFloat m => m.plain .float
  | .maybeInt m => m.plain .int
  | .maybeBool m => m.plain .bool

/-- The text in a column, by what it is a text of. -/
inductive Text where
  | chars (s : String)
  | number (q : ℚ)
  | json (v : Value)

/-- The values of a driver, those it takes and those it returns; a text is a slice of bytes when it
is returned. -/
inductive SqlValue where
  | null
  | bool (b : Bool)
  | int64 (n : ℤ)
  | uint64 (n : ℕ)
  | float64 (q : ℚ)
  | text (t : Text)

/-- The value is NULL. -/
def SqlValue.isNull : SqlValue → Bool
  | .null => true
  | _ => false

/-- What a handler encodes a value into. -/
inductive Encoded where
  | plain (d : ResourceValue)
  | json (v : Value)
  /-- The method of a wrapper that returns its value. -/
  | method (v : Value)

/-- What a handler decodes a value into: a value of the program, the string of a text that is not
one of characters, or the value of the driver as it is. -/
inductive Decoded where
  | value (v : Value)
  | string (t : Text)
  | unchanged (x : SqlValue)

/-! ## The handlers -/

/-- The handlers of properties. -/
inductive Handler where
  | default
  | string
  | bool
  | number
  | integer
  | json

/-- The handler of a property of the type. -/
def handler (type : String) : Handler :=
  match type with
  | "string" => .string
  | "number" => .number
  | "integer" => .integer
  | "object" | "array" => .json
  | "boolean" => .bool
  | _ => .default

namespace Handler

/-- The value of a wrapper, encoded.  `t.Value` is a method of the wrapper, and it is not called. -/
def encodeMaybe {α : Type} (m : Maybe α) (ofValue : α → Value) : Encoded :=
  if m.hasValue then .method (ofValue m.value) else .plain (.value .nil)

/-- `encode`.  There is no error: everything has a JSON text. -/
def encode : Handler → ResourceValue → Encoded
  | .string, .maybeString m => encodeMaybe m .str
  | .bool, .maybeBool m => encodeMaybe m .bool
  | .integer, .maybeInt m => encodeMaybe m .int
  | .json, d => .json d.plain
  | .default, d | .string, d | .bool, d | .number, d | .integer, d => .plain d

end Handler

/-- A value of the driver as a value of the program, where these are the same. -/
def SqlValue.decoded : SqlValue → Decoded
  | .null => .value .nil
  | .bool b => .value (.bool b)
  | .float64 q => .value (.float q)
  | x => .unchanged x

namespace Text

/-- The number that is written. -/
def number? : Text → Option ℚ
  | .number q => some q
  | .json (.int n) => some n
  | .json (.float q) => some q
  | _ => none

/-- `string(bytes)`. -/
def toString : Text → Decoded
  | .chars s => .value (.str s)
  | t => .string t

/-- `strconv.ParseUint` in base ten, for what is compared to zero: a number that is too large is not
zero, and what is no number is. -/
def parseUint (t : Text) : Bool × Option Fault :=
  match t.number? with
  | some q =>
    if q.den = 1 ∧ 0 ≤ q then
      (q ≠ 0, if q < 2 ^ 64 then none else some (.error "value out of range" []))
    else (false, some (.error "invalid syntax" []))
  | none => (false, some (.error "invalid syntax" []))

/-- The value of `strconv.ParseInt` in base ten, with or without an error. -/
def parseInt (t : Text) : ℤ :=
  match t.number? with
  | some q => if q.den = 1 then max (-2 ^ 63) (min q.num (2 ^ 63 - 1)) else 0
  | none => 0

/-- The value of `strconv.ParseFloat`, with or without an error. -/
def parseFloat (t : Text) : ℚ := t.number?.getD 0

variable [TextEngine]

/-- `json.Unmarshal`, into an `interface{}`. -/
def unmarshal : Text → Decoded × Option Fault
  | .json v => (.value v.decode, none)
  | .number q => (.value (.float q), none)
  | .chars _ => (.value .nil, some (.error "invalid character" []))

end Text

namespace Handler

variable [TextEngine]

/-- `decode`: what is decoded, and the error.  The source has one more case for numbers, a wrapper,
which no driver returns. -/
def decode : Handler → SqlValue → Decoded × Option Fault
  | .default, x => (x.decoded, none)
  | .string, .text t => (t.toString, none)
  | .string, x => (x.decoded, none)
  | .bool, .null => (.value .nil, none)
  | .bool, .text t => (.value (.bool t.parseUint.1), t.parseUint.2)
  | .bool, .int64 n => (.value (.bool (n ≠ 0)), none)
  | .bool, .bool b => (.value (.bool b), none)
  | .bool, _ => (.value .nil, some (.error "unknown type %T" []))
  | .number, .null => (.value .nil, none)
  | .number, .text t => (.value (.float t.parseFloat), none)
  | .number, .float64 q => (.value (.float q), none)
  | .number, .uint64 n => (.value (.float (TextEngine.float64 n)), none)
  | .number, _ => (.value .nil, some (.error "number: unknown type %T" []))
  | .integer, .null => (.value .nil, none)
  | .integer, .text t => (.value (.int t.parseInt), none)
  | .integer, .int64 n => (.value (.int n), none)
  | .integer, x => (x.decoded, none)
  | .json, .text t => t.unmarshal
  | .json, x => (x.decoded, none)

end Handler

/-! ## Columns and drivers -/

/-- The types of columns that handlers ask for; `varchar(255)` is a text too. -/
inductive ColumnType where
  | text
  | boolean
  | real
  | numeric

/-- `dataType`. -/
def Handler.dataType : Handler → ColumnType
  | .default | .string | .json => .text
  | .bool => .boolean
  | .number => .real
  | .integer => .numeric

/-- The parameter that `database/sql` makes of what is encoded: the plain values of its types, and
nothing of slices, maps, structures and functions. -/
def Encoded.parameter? : Encoded → Option SqlValue
  | .plain (.value .nil) => some .null
  | .plain (.value (.bool b)) => some (.bool b)
  | .plain (.value (.int n)) => some (.int64 n)
  | .plain (.value (.float q)) => some (.float64 q)
  | .plain (.value (.str s)) => some (.text (.chars s))
  | .json v => some (.text (.json v))
  | _ => none

/-- The number has room in 64 bits. -/
def IsInt64 (n : ℤ) : Prop := -2 ^ 63 ≤ n ∧ n < 2 ^ 63

instance (n : ℤ) : Decidable (IsInt64 n) := inferInstanceAs (Decidable (_ ∧ _))

section Engine

variable [TextEngine]

/-- What a column makes of a parameter: a `real` column has no integers, and a `numeric` one has a
whole number as an integer. -/
def ColumnType.store : ColumnType → SqlValue → SqlValue
  | .real, .int64 n => .float64 (TextEngine.float64 n)
  | .numeric, .float64 q => if q.den = 1 ∧ IsInt64 q.num then .int64 q.num else .float64 q
  | _, x => x

/-- What a driver may return of what is in a column. -/
inductive Yields : ColumnType → SqlValue → SqlValue → Prop where
  | null (c : ColumnType) : Yields c .null .null
  | text (c : ColumnType) (t : Text) : Yields c (.text t) (.text t)
  | bool (b : Bool) : Yields .boolean (.bool b) (.bool b)
  | boolInt (b : Bool) : Yields .boolean (.bool b) (.int64 b.toInt)
  | boolText (b : Bool) : Yields .boolean (.bool b) (.text (.number b.toInt))
  | int (n : ℤ) : Yields .numeric (.int64 n) (.int64 n)
  | intText (n : ℤ) : Yields .numeric (.int64 n) (.text (.number n))
  | real (q : ℚ) : Yields .real (.float64 q) (.float64 q)
  | realText (q : ℚ) : Yields .real (.float64 q) (.text (.number q))

/-! ## The same value -/

namespace Value

mutual
/-- The value as it is read from JSON: a number is a number, and a slice is a slice. -/
def json : Value → Value
  | .nil => .nil
  | .bool b => .bool b
  | .int n => .float n
  | .float q => .float q
  | .str s => .str s
  | .strs ss => .list (ss.map .str)
  | .list vs => .list (jsonList vs)
  | .map m => .map (jsonMap m)

/-- `json` on the elements of a list. -/
def jsonList : List Value → List Value
  | [] => []
  | v :: vs => json v :: jsonList vs

/-- `json` on the entries of a map. -/
def jsonMap : List (String × Value) → List (String × Value)
  | [] => []
  | (k, v) :: m => (k, json v) :: jsonMap m
end

mutual
/-- Every integer in the value is a `float64`. -/
def Exact : Value → Prop
  | .int n => TextEngine.float64 n = n
  | .list vs => ExactList vs
  | .map m => ExactMap m
  | _ => True

/-- `Exact`, of the elements of a list. -/
def ExactList : List Value → Prop
  | [] => True
  | v :: vs => Exact v ∧ ExactList vs

/-- `Exact`, of the entries of a map. -/
def ExactMap : List (String × Value) → Prop
  | [] => True
  | (_, v) :: m => Exact v ∧ ExactMap m
end

mutual
/-- Reading a text back gives the same value when the integers in it are kept. -/
theorem decode_eq_json_iff : ∀ v : Value, v.decode = v.json ↔ v.Exact
  | .nil | .bool _ | .float _ | .str _ | .strs _ => by simp [decode, json, Exact]
  | .int n => by simp [decode, json, Exact]
  | .list vs => by simp [decode, json, Exact, decodeList_eq_jsonList_iff vs]
  | .map m => by simp [decode, json, Exact, decodeMap_eq_jsonMap_iff m]

theorem decodeList_eq_jsonList_iff : ∀ vs : List Value,
    decodeList vs = jsonList vs ↔ ExactList vs
  | [] => by simp [decodeList, jsonList, ExactList]
  | v :: vs => by
    simp [decodeList, jsonList, ExactList, decode_eq_json_iff v, decodeList_eq_jsonList_iff vs]

theorem decodeMap_eq_jsonMap_iff : ∀ m : List (String × Value),
    decodeMap m = jsonMap m ↔ ExactMap m
  | [] => by simp [decodeMap, jsonMap, ExactMap]
  | (k, v) :: m => by
    simp [decodeMap, jsonMap, ExactMap, decode_eq_json_iff v, decodeMap_eq_jsonMap_iff m]
end

omit [TextEngine] in
theorem jsonList_map_str (ss : List String) : jsonList (ss.map .str) = ss.map .str := by
  induction ss with
  | nil => rfl
  | cons s ss ih => rw [List.map_cons, jsonList, json, ih]

mutual
/-- What was read back has no integers in it. -/
theorem json_decode : ∀ v : Value, v.decode.json = v.decode
  | .nil | .bool _ | .float _ | .str _ | .int _ => by simp [decode, json]
  | .strs ss => by simp [decode, json, jsonList_map_str]
  | .list vs => by simp [decode, json, jsonList_decodeList vs]
  | .map m => by simp [decode, json, jsonMap_decodeMap m]

theorem jsonList_decodeList : ∀ vs : List Value, jsonList (decodeList vs) = decodeList vs
  | [] => rfl
  | v :: vs => by simp [decodeList, jsonList, json_decode v, jsonList_decodeList vs]

theorem jsonMap_decodeMap : ∀ m : List (String × Value), jsonMap (decodeMap m) = decodeMap m
  | [] => rfl
  | (k, v) :: m => by simp [decodeMap, jsonMap, json_decode v, jsonMap_decodeMap m]
end

end Value

/-! ## The round trip -/

/-- The values that a schema allows for a property of the type. -/
inductive Allowed : String → ResourceValue → Prop where
  | null (type : String) : Allowed type (.value .nil)
  | string (s : String) : Allowed "string" (.value (.str s))
  | maybeString (m : Maybe String) : Allowed "string" (.maybeString m)
  | boolean (b : Bool) : Allowed "boolean" (.value (.bool b))
  | maybeBool (m : Maybe Bool) : Allowed "boolean" (.maybeBool m)
  | integer (n : ℤ) (h : IsInt64 n) : Allowed "integer" (.value (.int n))
  | whole (n : ℤ) (h : IsInt64 n) : Allowed "integer" (.value (.float n))
  | maybeInt (m : Maybe ℤ) (h : IsInt64 m.value) : Allowed "integer" (.maybeInt m)
  | number (q : ℚ) : Allowed "number" (.value (.float q))
  | integral (n : ℤ) (h : IsInt64 n) : Allowed "number" (.value (.int n))
  | maybeFloat (m : Maybe ℚ) : Allowed "number" (.maybeFloat m)
  | object (m : List (String × Value)) : Allowed "object" (.value (.map m))
  | array (vs : List Value) : Allowed "array" (.value (.list vs))
  | strings (ss : List String) : Allowed "array" (.value (.strs ss))

namespace Handler

/-- What a driver returned is decoded into the value. -/
def DecodesTo (h : Handler) (y : SqlValue) (v : Value) : Prop :=
  ∃ w, h.decode y = (.value w, none) ∧ w.json = v.json

/-- What is in a column is decoded into the value, whatever the driver returns of it. -/
def ReadsBack (h : Handler) (x : SqlValue) (v : Value) : Prop :=
  ∀ y, Yields h.dataType x y → h.DecodesTo y v

/-- The value is encoded into one that the driver takes, and what the driver returns is decoded
into the plain value. -/
def RoundTrips (h : Handler) (d : ResourceValue) : Prop :=
  ∃ x, (h.encode d).parameter? = some x ∧ h.ReadsBack (h.dataType.store x) d.plain

end Handler

/-- Neither is the value a wrapper that holds a value, or one of a number at all, nor does an
integer in it become another `float64`. -/
def ResourceValue.Survives (type : String) : ResourceValue → Prop
  | .value v => type ≠ "integer" → v.Exact
  | .maybeString m => m.hasValue = false
  | .maybeInt m => m.hasValue = false
  | .maybeBool m => m.hasValue = false
  | .maybeFloat _ => False

namespace Handler

variable {h : Handler} {d : ResourceValue} {x y : SqlValue} {v : Value}

theorem roundTrips_iff_of_parameter (hx : (h.encode d).parameter? = some x) :
    h.RoundTrips d ↔ h.ReadsBack (h.dataType.store x) d.plain := by
  rw [RoundTrips, hx]
  constructor
  · rintro ⟨_, ⟨⟩, hreads⟩
    exact hreads
  · exact fun hreads ↦ ⟨x, rfl, hreads⟩

theorem not_roundTrips_of_parameter (hx : (h.encode d).parameter? = none) : ¬h.RoundTrips d := by
  rintro ⟨x, hsome, -⟩
  cases hx.symm.trans hsome

omit [TextEngine] in
theorem yields_null_iff {c : ColumnType} : Yields c .null y ↔ y = .null := by
  constructor
  · rintro ⟨⟩
    rfl
  · rintro rfl
    exact .null c

omit [TextEngine] in
theorem yields_text_iff {c : ColumnType} {t : Text} : Yields c (.text t) y ↔ y = .text t := by
  constructor
  · rintro ⟨⟩
    rfl
  · rintro rfl
    exact .text c t

/-- A text is read in one way only. -/
theorem readsBack_text_iff {t : Text} : h.ReadsBack (.text t) v ↔ h.DecodesTo (.text t) v := by
  constructor
  · exact fun hreads ↦ hreads _ (.text _ t)
  · intro hdecodes y hy
    rwa [yields_text_iff.mp hy]

/-- Null is null, with every handler. -/
theorem readsBack_null (h : Handler) : h.ReadsBack .null .nil := by
  intro y hy
  obtain rfl := yields_null_iff.mp hy
  exact ⟨.nil, by cases h <;> rfl, rfl⟩

/-- In a JSON text null is written. -/
theorem roundTrips_null (h : Handler) : h.RoundTrips (.value .nil) := by
  by_cases hjson : h = .json
  · subst hjson
    refine (roundTrips_iff_of_parameter rfl).mpr fun y hy ↦ ?_
    cases hy
    exact ⟨.nil, rfl, rfl⟩
  · have hparameter : (h.encode (.value .nil)).parameter? = some .null := by
      cases h with
      | json => exact absurd rfl hjson
      | _ => rfl
    have hstore : h.dataType.store .null = .null := by cases h <;> rfl
    rw [roundTrips_iff_of_parameter hparameter, hstore]
    exact readsBack_null h

theorem readsBack_string (s : String) : Handler.string.ReadsBack (.text (.chars s)) (.str s) := by
  exact readsBack_text_iff.mpr ⟨.str s, rfl, rfl⟩

omit [TextEngine] in
theorem parseUint_toInt (b : Bool) : (Text.number b.toInt).parseUint = (b, none) := by
  cases b <;> decide

theorem decode_boolean {b : Bool} (hy : Yields .boolean (.bool b) y) :
    Handler.bool.decode y = (.value (.bool b), none) := by
  cases hy with
  | bool => rfl
  | boolInt => cases b <;> rfl
  | boolText => rw [decode, parseUint_toInt]

theorem readsBack_bool (b : Bool) : Handler.bool.ReadsBack (.bool b) (.bool b) :=
  fun _ hy ↦ ⟨.bool b, decode_boolean hy, rfl⟩

omit [TextEngine] in
theorem parseInt_number {n : ℤ} (hn : IsInt64 n) : (Text.number n).parseInt = n := by
  rw [Text.parseInt, Text.number?]
  rw [IsInt64] at hn
  simp only [Rat.den_intCast, Rat.num_intCast, if_true]
  omega

theorem decode_numeric {n : ℤ} (hn : IsInt64 n) (hy : Yields .numeric (.int64 n) y) :
    Handler.integer.decode y = (.value (.int n), none) := by
  cases hy with
  | int => rfl
  | intText => rw [decode, parseInt_number hn]

/-- An integer keeps its 64 bits. -/
theorem readsBack_integer {n : ℤ} (hn : IsInt64 n) :
    Handler.integer.ReadsBack (.int64 n) (.int n) :=
  fun _ hy ↦ ⟨.int n, decode_numeric hn hy, rfl⟩

theorem store_whole {n : ℤ} (hn : IsInt64 n) :
    ColumnType.numeric.store (.float64 n) = .int64 n := by
  rw [ColumnType.store, if_pos ⟨Rat.den_intCast n, by rwa [Rat.num_intCast]⟩, Rat.num_intCast]

theorem decode_real {q : ℚ} (hy : Yields .real (.float64 q) y) :
    Handler.number.decode y = (.value (.float q), none) := by
  cases hy <;> rfl

theorem readsBack_number (q : ℚ) : Handler.number.ReadsBack (.float64 q) (.float q) :=
  fun _ hy ↦ ⟨.float q, decode_real hy, rfl⟩

/-- An integer in the column of a number is the nearest `float64`. -/
theorem roundTrips_integral_iff (n : ℤ) :
    Handler.number.RoundTrips (.value (.int n)) ↔ TextEngine.float64 n = n := by
  rw [roundTrips_iff_of_parameter rfl]
  constructor
  · intro hreads
    obtain ⟨w, hw, hjson⟩ := hreads _ (.real _)
    cases hw
    exact Value.float.inj hjson
  · intro hexact y hy
    obtain ⟨w, hw, hjson⟩ := readsBack_number _ y hy
    exact ⟨w, hw, hjson.trans (by rw [hexact]; rfl)⟩

theorem readsBack_json_iff (v w : Value) :
    Handler.json.ReadsBack (.text (.json v)) w ↔ v.decode = w.json := by
  rw [readsBack_text_iff]
  constructor
  · rintro ⟨u, hu, hjson⟩
    cases hu
    rwa [Value.json_decode] at hjson
  · exact fun hjson ↦ ⟨v.decode, rfl, v.json_decode.trans hjson⟩

theorem roundTrips_json_iff (v : Value) : Handler.json.RoundTrips (.value v) ↔ v.Exact := by
  rw [roundTrips_iff_of_parameter rfl, ← Value.decode_eq_json_iff]
  exact readsBack_json_iff v v

omit [TextEngine] in
/-- A wrapper that holds a value is encoded into a function, which no driver takes. -/
theorem parameter?_encodeMaybe {α : Type} (m : Maybe α) (ofValue : α → Value) :
    (encodeMaybe m ofValue).parameter? = if m.hasValue then none else some .null := by
  rw [encodeMaybe]
  split <;> rfl

/-- With the handler for them, wrappers that hold no value are null. -/
theorem roundTrips_maybe_iff {α : Type} (m : Maybe α) (ofValue : α → Value)
    (hencode : h.encode d = encodeMaybe m ofValue) (hplain : d.plain = m.plain ofValue) :
    h.RoundTrips d ↔ m.hasValue = false := by
  have hparameter := parameter?_encodeMaybe m ofValue
  rw [← hencode] at hparameter
  cases hm : m.hasValue with
  | true =>
    rw [hm] at hparameter
    exact iff_of_false (not_roundTrips_of_parameter hparameter) (by decide)
  | false =>
    rw [hm] at hparameter
    have hstore : h.dataType.store .null = .null := by cases h <;> rfl
    refine iff_of_true ((roundTrips_iff_of_parameter hparameter).mpr ?_) rfl
    rw [hplain, Maybe.plain, hm, hstore]
    exact readsBack_null h

end Handler

/-- **When a value comes back from its column.** -/
theorem handler_roundTrips_iff {type : String} {d : ResourceValue} (h : Allowed type d) :
    (handler type).RoundTrips d ↔ d.Survives type := by
  cases h with
  | null => exact iff_of_true (Handler.roundTrips_null _) fun _ ↦ trivial
  | string s =>
    exact iff_of_true ⟨_, rfl, Handler.readsBack_string s⟩ fun _ ↦ trivial
  | boolean b => exact iff_of_true ⟨_, rfl, Handler.readsBack_bool b⟩ fun _ ↦ trivial
  | integer n hn =>
    exact iff_of_true ⟨_, rfl, Handler.readsBack_integer hn⟩ fun hne ↦ absurd rfl hne
  | whole n hn =>
    refine iff_of_true ⟨.float64 n, rfl, ?_⟩ fun hne ↦ absurd rfl hne
    have hstore : (handler "integer").dataType.store (.float64 n) = .int64 n :=
      Handler.store_whole hn
    rw [hstore]
    exact Handler.readsBack_integer hn
  | number q => exact iff_of_true ⟨_, rfl, Handler.readsBack_number q⟩ fun _ ↦ trivial
  | integral n =>
    rw [ResourceValue.Survives, forall_prop_of_true (by decide)]
    exact Handler.roundTrips_integral_iff n
  | object m =>
    rw [ResourceValue.Survives, forall_prop_of_true (by decide)]
    exact Handler.roundTrips_json_iff (.map m)
  | array vs =>
    rw [ResourceValue.Survives, forall_prop_of_true (by decide)]
    exact Handler.roundTrips_json_iff (.list vs)
  | strings ss =>
    rw [ResourceValue.Survives, forall_prop_of_true (by decide)]
    exact Handler.roundTrips_json_iff (.strs ss)
  | maybeString m => exact Handler.roundTrips_maybe_iff m .str rfl rfl
  | maybeBool m => exact Handler.roundTrips_maybe_iff m .bool rfl rfl
  | maybeInt m => exact Handler.roundTrips_maybe_iff m .int rfl rfl
  | maybeFloat m => exact iff_of_false (Handler.not_roundTrips_of_parameter rfl) id

end Engine

/-- The largest integer comes back from the column of an integer. -/
theorem handler_roundTrips_maxInt64 : letI := placeholders
    (handler "integer").RoundTrips (.value (.int 9223372036854775807)) ↔
      (ResourceValue.value (.int 9223372036854775807)).Survives "integer" :=
  letI := placeholders
  handler_roundTrips_iff (.integer _ (by decide))

/-- A name that an extension put into a wrapper is not stored. -/
theorem not_handler_roundTrips : letI := placeholders
    ¬∀ type d, Allowed type d → (handler type).RoundTrips d := by
  let := placeholders
  intro h
  refine Handler.not_roundTrips_of_parameter ?_ (h "string" _ (.maybeString ⟨.value, "blue"⟩))
  rfl

end Gohan
