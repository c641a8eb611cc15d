import Gohan.Server.PolicyFilter

/-!
# Comparisons in memory and in the query

A match of a policy compares a property with a value or with several.  The database does it in SQL,
which is three-valued and compares NULL with nothing; in memory null is a value like any other, an
absent property matches nothing, and comparing two lists or two maps panics.
`Comparison.AgreesOn` is the table of the cases in which the two answers are the same, and
`agreesOn_iff` says that it is.
-/

set_option autoImplicit false

namespace Gohan

open Kleene

/-! ## Comparisons -/

/-- A match of a policy: a property is to have a value or one of several, or is not to. -/
structure Comparison where
  property : String
  negated : Bool
  value : Value

/-- The values a property is compared with. -/
def comparands : Value → List Value
  | .list vs => vs
  | .strs ss => ss.map .str
  | v => [v]

/-- Go cannot compare the two: they are two slices, or two maps. -/
def Value.clash : Value → Value → Bool
  | .list _, .list _ => true
  | .strs _, .strs _ => true
  | .map _, .map _ => true
  | _, _ => false

/-- Comparing a value with the elements of a list, up to the first equal one, does not panic. -/
def comparableWith (actualValue : Value) : List Value → Bool
  | [] => true
  | v :: vs => !actualValue.clash v && (actualValue == v || comparableWith actualValue vs)

namespace Comparison

/-- The match as it is written. -/
def toMatch (c : Comparison) : List (String × Value) :=
  [("property", .str c.property), ("type", .str (matchType c.negated)), ("value", c.value)]

/-- The comparison with what the resource has does not panic. -/
def Comparable (c : Comparison) (resource : Dict) : Prop :=
  ∀ actualValue, resource.lookup c.property = some actualValue →
    comparableWith actualValue (comparands c.value) = true

/-- Where the two interpreters agree about a comparison: an absent property, a null and a value. -/
def AgreesOn (E : SqlEngine) (s : Schema) (resource : Dict) (c : Comparison) : Prop :=
  match resource.lookup c.property with
  | none => if c.negated then comparands c.value ≠ [] else c.value ≠ .nil
  | some .nil =>
    if c.negated then comparands c.value = [] ∨ .nil ∈ comparands c.value
    else c.value = .nil ∨ .nil ∉ comparands c.value
  | some actualValue =>
    c.value = .nil ∨
      let columnValues := comparands (parseBoolean (s.typeOf c.property) c.value)
      if c.negated then
        actualValue ∉ comparands c.value ↔ ∀ v ∈ columnValues, E.eq actualValue v = .ff
      else actualValue ∈ comparands c.value ↔ ∃ v ∈ columnValues, E.eq actualValue v = .tt

/-- The answer in memory, where there is one. -/
def inMemory (c : Comparison) (resource : Dict) : Bool :=
  match resource.lookup c.property with
  | none => false
  | some actualValue => (comparands c.value).contains actualValue != c.negated

end Comparison

/-- NULL compares with nothing. -/
structure SqlEngine.NullUnknown (E : SqlEngine) : Prop where
  nil_eq : ∀ v : Value, E.eq .nil v = .unknown

theorem nullUnknown_exactEngine : exactEngine.NullUnknown where
  nil_eq v := by simp [exactEngine]

/-! ## In memory -/

theorem Value.ifaceEq_of_not_clash {a b : Value} (h : a.clash b = false) :
    Value.ifaceEq a b = .ok (a == b) := by
  cases a <;> cases b <;> first | rfl | cases h

theorem Value.ifaceEq_ne_ok_of_clash {a b : Value} (h : a.clash b = true) (r : Bool) :
    Value.ifaceEq a b ≠ .ok r := by
  cases a <;> cases b <;> first | exact Go.panicf_ne_ok _ _ _ | cases h

theorem anyIfaceEq_of_comparable {a : Value} {vs : List Value} (h : comparableWith a vs = true) :
    anyIfaceEq a vs = .ok (vs.contains a) := by
  induction vs with
  | nil => rfl
  | cons v vs ih =>
    rw [comparableWith, Bool.and_eq_true, Bool.not_eq_true', Bool.or_eq_true] at h
    rw [anyIfaceEq, Value.ifaceEq_of_not_clash h.1, Go.ok_bind, List.contains_cons]
    cases hv : a == v with
    | true => rfl
    | false => exact ih (h.2.resolve_left (by simp [hv]))

theorem comparable_of_anyIfaceEq {a : Value} {vs : List Value} {b : Bool}
    (h : anyIfaceEq a vs = .ok b) : comparableWith a vs = true := by
  induction vs with
  | nil => rfl
  | cons v vs ih =>
    rw [anyIfaceEq, Go.bind_eq_ok] at h
    obtain ⟨r, hr, h⟩ := h
    have hclash : a.clash v = false := by
      by_contra hne
      exact Value.ifaceEq_ne_ok_of_clash (by simpa using hne) r hr
    rw [Value.ifaceEq_of_not_clash hclash] at hr
    cases hr
    rw [comparableWith, hclash]
    cases hv : a == v with
    | true => rfl
    | false =>
      rw [hv] at h
      exact ih h

theorem equalsExpected_value (a value : Value) :
    equalsExpected a (some (.value value)) = anyIfaceEq a (comparands value) := by
  have hsingle : ∀ v : Value, Value.ifaceEq a v = anyIfaceEq a [v] := by
    intro v
    simp only [anyIfaceEq]
    cases Value.ifaceEq a v with
    | error e => rfl
    | ok b => cases b <;> rfl
  cases value <;> first | rfl | exact hsingle _

variable {E : SqlEngine} {s : Schema} {c : Comparison} {resource : Dict}

namespace Comparison

/-- The filter of a comparison, in memory. -/
theorem applyNestedFilter_eq : applyNestedFilter resource (.ofMatch c.toMatch) =
    match resource.lookup c.property with
    | none => .ok false
    | some a => (anyIfaceEq a (comparands c.value)).map (· != c.negated) := by
  obtain ⟨property, negated, value⟩ := c
  have hstep : applyNestedFilter resource
      (.ofMatch (toMatch ⟨property, negated, value⟩)) =
        match resource.lookup property with
        | none => .ok false
        | some a => if negated then do .ok !(← equalsExpected a (some (.value value)))
          else equalsExpected a (some (.value value)) := by
    cases negated <;> rfl
  rw [hstep]
  cases resource.lookup property with
  | none => rfl
  | some a =>
    simp only [equalsExpected_value]
    cases negated <;> cases anyIfaceEq a (comparands value) <;> simp [Except.map, bind, Except.bind]

theorem applyNestedFilter_of_comparable (h : c.Comparable resource) :
    applyNestedFilter resource (.ofMatch c.toMatch) = .ok (c.inMemory resource) := by
  rw [applyNestedFilter_eq, inMemory]
  split
  · rfl
  · next a ha =>
    rw [anyIfaceEq_of_comparable (h a ha)]
    rfl

theorem comparable_of_applyNestedFilter {b : Bool}
    (h : applyNestedFilter resource (.ofMatch c.toMatch) = .ok b) : c.Comparable resource := by
  intro a ha
  rw [applyNestedFilter_eq, ha] at h
  obtain ⟨r, hr, -⟩ := Go.map_eq_ok.mp h
  exact comparable_of_anyIfaceEq hr

end Comparison

/-! ## In the query -/

theorem SqlEngine.holdsEq_of_ne_nil {a v : Value} (h : v ≠ .nil) :
    E.holdsEq a v = Truth.any ((comparands v).map (E.eq a)) := by
  cases v with
  | nil => exact absurd rfl h
  | list vs => rfl
  | strs ss => rw [SqlEngine.holdsEq, comparands, List.map_map]; rfl
  | _ => exact (Truth.any_singleton _).symm

/-- NULL compared with something: only IS NULL is true. -/
theorem SqlEngine.holdsEq_null (hE : E.NullUnknown) (v : Value) : E.holdsEq .nil v =
    if v = .nil then .tt else if comparands v = [] then .ff else .unknown := by
  split_ifs with hnil hempty
  · rw [hnil]
    rfl
  · rw [SqlEngine.holdsEq_of_ne_nil hnil, hempty]
    rfl
  · rw [SqlEngine.holdsEq_of_ne_nil hnil]
    obtain ⟨w, ws, hws⟩ := List.exists_cons_of_ne_nil hempty
    have hall : (comparands v).map (E.eq .nil) = List.replicate (ws.length + 1) .unknown := by
      rw [List.eq_replicate_iff]
      simp [hws, hE.nil_eq]
    have hany : ∀ n, Truth.any (List.replicate (n + 1) .unknown) = .unknown := by
      intro n
      induction n with
      | zero => rfl
      | succ n ih => rw [List.replicate_succ, Truth.any, ih]; rfl
    rw [hall, hany]

namespace Comparison

/-- The value as the query has it. -/
def columnValue (c : Comparison) (s : Schema) : Value := parseBoolean (s.typeOf c.property) c.value

/-- The predicate of a comparison. -/
def part (c : Comparison) (s : Schema) : Sqlizer :=
  if c.negated then .notEq c.property (c.columnValue s) else .eq c.property (c.columnValue s)

theorem partOf_toMatch (h : s.hasPropertyID c.property = true) :
    partOf s (.ofMatch c.toMatch) = .ok (c.part s) := by
  obtain ⟨property, negated, value⟩ := c
  obtain ⟨p, hp, -⟩ := Schema.getPropertyByID_of_has h
  have hstep : partOf s (.ofMatch (toMatch ⟨property, negated, value⟩)) =
      restriction s (.ofMatch (toMatch ⟨property, negated, value⟩)) := by
    cases negated <;> rfl
  have hkey : propertyKey (.ofMatch (toMatch ⟨property, negated, value⟩)) = .ok property := by
    cases negated <;> rfl
  rw [hstep, restriction, hkey, Go.ok_bind, hp, Go.ok_bind, part, columnValue, typeOf_of_ok hp]
  cases negated <;> rfl

theorem parseBoolean_eq_nil {typ : String} {value : Value} :
    parseBoolean typ value = .nil ↔ value = .nil := by
  cases value with
  | strs ss => rw [parseBoolean]; split <;> simp
  | _ => simp [parseBoolean]

theorem comparands_parseBoolean_eq_nil {typ : String} {value : Value} :
    comparands (parseBoolean typ value) = [] ↔ comparands value = [] := by
  cases value with
  | strs ss => rw [parseBoolean]; split <;> simp [comparands]
  | _ => simp [parseBoolean]

/-- The comparison of a column of a row. -/
theorem eval_part : (c.part s).eval E resource = .tt ↔
    if c.negated then E.holdsEq (resource.get c.property) (c.columnValue s) = .ff
    else E.holdsEq (resource.get c.property) (c.columnValue s) = .tt := by
  rw [part]
  split
  · rw [Sqlizer.eval, SqlEngine.holdsNotEq, Truth.not_eq_tt]
  · rw [Sqlizer.eval]

/-- **When the interpreters agree about a comparison.** -/
theorem agreesOn_iff (hE : E.NullUnknown) :
    (c.inMemory resource = true ↔ (c.part s).eval E resource = .tt) ↔ c.AgreesOn E s resource := by
  rw [eval_part, inMemory, AgreesOn, GoMap.get]
  cases hlookup : resource.lookup c.property with
  | none =>
    simp only [Option.getD_none, SqlEngine.holdsEq_null hE, columnValue, parseBoolean_eq_nil,
      comparands_parseBoolean_eq_nil]
    cases c.negated with
    | false =>
      by_cases hnil : c.value = .nil
      · simp [hnil]
      · by_cases hempty : comparands c.value = [] <;> simp [hnil, hempty]
    | true =>
      by_cases hnil : c.value = .nil
      · simp [hnil, comparands]
      · by_cases hempty : comparands c.value = [] <;> simp [hnil, hempty]
  | some a =>
    by_cases hnull : a = .nil
    · subst hnull
      simp only [Option.getD_some, SqlEngine.holdsEq_null hE, columnValue, parseBoolean_eq_nil,
        comparands_parseBoolean_eq_nil]
      cases c.negated with
      | false =>
        by_cases hnil : c.value = .nil
        · simp [hnil, comparands]
        · by_cases hempty : comparands c.value = [] <;> simp [hnil, hempty]
      | true =>
        by_cases hnil : c.value = .nil
        · simp [hnil, comparands]
        · by_cases hempty : comparands c.value = [] <;> simp [hnil, hempty]
    · simp only [Option.getD_some]
      by_cases hnil : c.value = .nil
      · have hcol : c.columnValue s = .nil := by rw [columnValue, hnil]; rfl
        have hfalse : E.holdsEq a .nil = .ff := by
          have hne : (a == Value.nil) = false := by simpa using hnull
          rw [SqlEngine.holdsEq, hne]
          rfl
        rw [hcol, hfalse]
        cases a <;> cases c.negated <;> simp_all [comparands]
      · have hcol : c.columnValue s ≠ .nil := by
          rwa [columnValue, ne_eq, parseBoolean_eq_nil]
        rw [SqlEngine.holdsEq_of_ne_nil hcol, Truth.any_eq_ff, Truth.any_eq_tt]
        cases a <;> cases c.negated <;> simp_all [columnValue]

end Comparison

end Gohan
