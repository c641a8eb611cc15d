import Gohan.Extension.Filter
import Gohan.Logic.Kleene
import Gohan.Schema.Basic

/-!
# The `WHERE` clause

`addFilterToQuery` turns a filter into predicates of the query.  It runs over the keys of the map;
`__and__` and `__or__` become trees, and a property becomes a comparison of its column.

A `Sqlizer` is such a predicate, and `Sqlizer.eval` is what the database makes of it for one row:
three-valued, because a column may be NULL.  How two values compare is up to the database and its
collation, so that is a parameter, `SqlEngine`; what is fixed is what the statement builder writes
for a comparison with nothing, with a list and with an empty list.
-/

set_option autoImplicit false

namespace Gohan

open Kleene

/-- A predicate, over the columns of a table. -/
inductive Sqlizer where
  | expr (b : Bool)
  | like (column text : String)
  | eq (column : String) (value : Value)
  | notEq (column : String) (value : Value)
  | and (parts : List Sqlizer)
  | or (parts : List Sqlizer)

/-- How the database compares values. -/
structure SqlEngine where
  eq : Value → Value → Truth
  like : Value → String → Truth

/-! ## Meaning -/

namespace SqlEngine

/-- `column = ?`, `column IN (?, …)` or `column IS NULL`; an empty list is written `(1=0)`. -/
def holdsEq (E : SqlEngine) (actual : Value) : Value → Truth
  | .nil => .ofBool (actual == .nil)
  | .list values => Truth.any (values.map (E.eq actual))
  | .strs values => Truth.any (values.map fun s ↦ E.eq actual (.str s))
  | value => E.eq actual value

/-- `column <> ?`, `column NOT IN (?, …)` or `column IS NOT NULL`; an empty list is written
`(1=1)`. -/
def holdsNotEq (E : SqlEngine) (actual value : Value) : Truth := (E.holdsEq actual value).not

end SqlEngine

mutual
/-- The value of a predicate on a row. -/
def Sqlizer.eval (E : SqlEngine) (row : Dict) : Sqlizer → Truth
  | .expr b => .ofBool b
  | .like column text => E.like (row.get column) text
  | .eq column value => E.holdsEq (row.get column) value
  | .notEq column value => E.holdsNotEq (row.get column) value
  | .and parts => Truth.all (evalParts E row parts)
  | .or parts => Truth.any (evalParts E row parts)

/-- The values of several predicates. -/
def evalParts (E : SqlEngine) (row : Dict) : List Sqlizer → List Truth
  | [] => []
  | part :: parts => part.eval E row :: evalParts E row parts
end

/-- The row is selected: every predicate of the clause is true. -/
def Selects (E : SqlEngine) (clause : List Sqlizer) (row : Dict) : Prop :=
  ∀ part ∈ clause, part.eval E row = .tt

instance (E : SqlEngine) (clause : List Sqlizer) (row : Dict) : Decidable (Selects E clause row) :=
  inferInstanceAs (Decidable (∀ part ∈ clause, _))

theorem evalParts_eq_map (E : SqlEngine) (row : Dict) (parts : List Sqlizer) :
    evalParts E row parts = parts.map (·.eval E row) := by
  induction parts with
  | nil => rfl
  | cons part parts ih => rw [evalParts, ih, List.map_cons]

theorem eval_and {E : SqlEngine} {row : Dict} {parts : List Sqlizer} :
    (Sqlizer.and parts).eval E row = .tt ↔ ∀ part ∈ parts, part.eval E row = .tt := by
  simp [Sqlizer.eval, evalParts_eq_map, Truth.all_eq_tt]

theorem eval_or {E : SqlEngine} {row : Dict} {parts : List Sqlizer} :
    (Sqlizer.or parts).eval E row = .tt ↔ ∃ part ∈ parts, part.eval E row = .tt := by
  simp [Sqlizer.eval, evalParts_eq_map, Truth.any_eq_tt]

mutual
/-- The columns a predicate looks at. -/
def Sqlizer.columns : Sqlizer → List String
  | .expr _ => []
  | .like column _ => [column]
  | .eq column _ => [column]
  | .notEq column _ => [column]
  | .and parts => partColumns parts
  | .or parts => partColumns parts

/-- The columns several predicates look at. -/
def partColumns : List Sqlizer → List String
  | [] => []
  | part :: parts => part.columns ++ partColumns parts
end

mutual
/-- A predicate says the same about two rows that agree on the columns it looks at. -/
theorem eval_congr {E : SqlEngine} {row row' : Dict} : ∀ {part : Sqlizer},
    (∀ column ∈ part.columns, row.get column = row'.get column) → part.eval E row = part.eval E row'
  | .expr _, _ => rfl
  | .like column _, h => by rw [Sqlizer.eval, Sqlizer.eval, h column List.mem_cons_self]
  | .eq column _, h => by rw [Sqlizer.eval, Sqlizer.eval, h column List.mem_cons_self]
  | .notEq column _, h => by rw [Sqlizer.eval, Sqlizer.eval, h column List.mem_cons_self]
  | .and parts, h => by rw [Sqlizer.eval, Sqlizer.eval, evalParts_congr h]
  | .or parts, h => by rw [Sqlizer.eval, Sqlizer.eval, evalParts_congr h]

theorem evalParts_congr {E : SqlEngine} {row row' : Dict} : ∀ {parts : List Sqlizer},
    (∀ column ∈ partColumns parts, row.get column = row'.get column) →
      evalParts E row parts = evalParts E row' parts
  | [], _ => rfl
  | _ :: _, h => by
    rw [partColumns, List.forall_mem_append] at h
    rw [evalParts, evalParts, eval_congr h.1, evalParts_congr h.2]
end

@[simp] theorem eval_expr {E : SqlEngine} {row : Dict} {b : Bool} :
    (Sqlizer.expr b).eval E row = .tt ↔ b = true := by
  simp [Sqlizer.eval]

/-! ## Building the clause -/

/-- `strconv.ParseBool`, with its error ignored: what is not a boolean reads as false. -/
def parseBool (s : String) : Bool := ["1", "t", "T", "TRUE", "true", "True"].contains s

/-- `parseBoolean`: the strings of a query, for a boolean column. -/
def parseBoolean (typ : String) : Value → Value
  | .strs queryValues =>
    if typ = "boolean" then .list (queryValues.map fun j ↦ .bool (parseBool j))
    else .strs queryValues
  | value => value

/-- `filter["property"].(string)`. -/
def propertyKey (filter : FilterElem) : Go String :=
  match filter.lookup "property" with
  | some (.value (.str key)) => .ok key
  | _ => .panicf "interface conversion: interface {} is not string"

/-- `sq.Eq` or `sq.NotEq`, by the type of a restriction. -/
def comparison (filter : FilterElem) (column : String) (value : Value) : Go Sqlizer :=
  match filter.lookup "type" with
  | some (.value (.str comp)) =>
    if comp = "eq" then .ok (.eq column value)
    else if comp = "neq" then .ok (.notEq column value)
    else .panicf "type has to be one of [eq, neq]"
  | _ => .panicf "type has to be one of [eq, neq]"

/-- `b.(bool)`, written as `(1=1)` or `(1=0)`. -/
def boolExpr : FilterVal → Go Sqlizer
  | .value (.bool b) => .ok (.expr b)
  | _ => .panicf "interface conversion: interface {} is not bool"

/-- A restriction inside `__and__` or `__or__`. -/
def restriction (s : Schema) (filter : FilterElem) : Go Sqlizer := do
  let key ← propertyKey filter
  let property ← s.getPropertyByID key
  match filter.lookup "value" with
  | some (.search text) => .ok (.like key text)
  | some (.value value) => comparison filter key (parseBoolean property.type value)
  | some (.elems _) => .errorf "sql: converting argument type: unsupported type []map"
  | none => comparison filter key .nil

mutual
/-- `addToFilter`. -/
def addToFilter (s : Schema) : List FilterElem → Go (List Sqlizer)
  | [] => .ok []
  | filter :: filters => do
    let part ← match addUnder s orCondition filter with
      | some r => do .ok (Sqlizer.or (← r))
      | none =>
        match addUnder s andCondition filter with
        | some r => do .ok (Sqlizer.and (← r))
        | none =>
          match filter.lookup boolCondition with
          | some b => boolExpr b
          | none => restriction s filter
    .ok (part :: (← addToFilter s filters))

/-- The filters under a key, if the key is there. -/
def addUnder (s : Schema) (key : String) : List (String × FilterVal) → Option (Go (List Sqlizer))
  | [] => none
  | (k, v) :: filter => if key == k then some (addElems s v) else addUnder s key filter

/-- `filter.([]map[string]interface{})`, and the loop over it. -/
def addElems (s : Schema) : FilterVal → Go (List Sqlizer)
  | .elems filters => addToFilter s filters
  | _ => .panicf "interface conversion: interface {} is not []map[string]interface {}"
end

/-- One key of the map in `addFilterToQuery`. -/
def addKey (s : Schema) (filter : GoMap FilterVal) (key : String) (value : FilterVal) :
    Go Sqlizer :=
  if key = orCondition then do .ok (Sqlizer.or (← addElems s value))
  else if key = andCondition then do .ok (Sqlizer.and (← addElems s value))
  else
    match filter.lookup boolCondition with
    | some b => boolExpr b
    | none => do
      let property ← s.getPropertyByID key
      match value with
      | .search text => .ok (.like key text)
      | .value value => .ok (.eq key (parseBoolean property.type value))
      | .elems _ => .errorf "sql: converting argument type: unsupported type []map"

/-- The loop of `addFilterToQuery` over the entries of the map. -/
def addKeys (s : Schema) (filter : GoMap FilterVal) : List (String × FilterVal) →
    Go (List Sqlizer)
  | [] => .ok []
  | (key, value) :: entries => do
    let part ← addKey s filter key value
    .ok (part :: (← addKeys s filter entries))

/-- `addFilterToQuery`: the predicates added to the query. -/
def addFilterToQuery (s : Schema) (filter : GoMap FilterVal) : Go (List Sqlizer) :=
  addKeys s filter filter.toList

theorem addUnder_eq (s : Schema) (key : String) (filter : FilterElem) :
    addUnder s key filter = (filter.lookup key).map (addElems s) := by
  induction filter with
  | nil => rfl
  | cons e filter ih =>
    obtain ⟨k, v⟩ := e
    rw [addUnder, List.lookup_cons, ih]
    cases key == k <;> rfl

/-- The predicate of one filter inside `__and__` or `__or__`: the body of the loop. -/
def partOf (s : Schema) (filter : FilterElem) : Go Sqlizer :=
  match filter.lookup orCondition with
  | some match_ => (addElems s match_).map .or
  | none =>
    match filter.lookup andCondition with
    | some match_ => (addElems s match_).map .and
    | none =>
      match filter.lookup boolCondition with
      | some b => boolExpr b
      | none => restriction s filter

theorem partOf_and (s : Schema) (filters : List FilterElem) :
    partOf s (.and filters) = (addToFilter s filters).map .and := by
  simp [partOf, FilterElem.and, List.lookup_cons, orCondition, andCondition, addElems]

theorem partOf_or (s : Schema) (filters : List FilterElem) :
    partOf s (.or filters) = (addToFilter s filters).map .or := by
  simp [partOf, FilterElem.or, orCondition, addElems]

theorem partOf_true (s : Schema) : partOf s .true = .ok (.expr true) := rfl

/-- The loop handles its filters one by one. -/
theorem addToFilter_cons (s : Schema) (filter : FilterElem) (filters : List FilterElem) :
    addToFilter s (filter :: filters) =
      partOf s filter >>= fun part ↦ (addToFilter s filters).map (part :: ·) := by
  rw [addToFilter]
  simp only [addUnder_eq, partOf, bind, Except.bind, Except.map]
  cases filter.lookup orCondition with
  | some v =>
    simp only [Option.map_some]
    cases addElems s v <;> cases addToFilter s filters <;> rfl
  | none =>
    simp only [Option.map_none]
    cases filter.lookup andCondition with
    | some v =>
      simp only [Option.map_some]
      cases addElems s v <;> cases addToFilter s filters <;> rfl
    | none =>
      simp only [Option.map_none]
      cases filter.lookup boolCondition with
      | some b => simp only
      | none => simp only

end Gohan
