import Gohan.Db.FilterMeaning

/-!
# Filters on a resource in memory

When a resource is created there is no row yet to select, so the filter of the policy is held
against the resource itself.  `applyFilterToResource` is a second interpreter of filters beside the
one that builds queries: it goes over the map, turns each entry at the top into a filter of the
nested kind, and walks that.

Values are compared with Go's `==` on interfaces, and a property the resource does not have compares
with nothing, neither with `eq` nor with `neq`.
-/

set_option autoImplicit false

namespace Gohan

/-! ## A property -/

/-- The loop over the elements of a list: does one of them equal the value? -/
def anyIfaceEq (actualValue : Value) : List Value → Go Bool
  | [] => .ok false
  | v :: vs => do
    if ← Value.ifaceEq actualValue v then .ok true else anyIfaceEq actualValue vs

/-- The comparison of a value with what stands under `value`, by the type of that.  A resource has
no values of the type of a text to search for, or of a list of filters. -/
def equalsExpected (actualValue : Value) : Option FilterVal → Go Bool
  | some (.value (.list expectedValue)) => anyIfaceEq actualValue expectedValue
  | some (.value (.strs expectedValue)) => anyIfaceEq actualValue (expectedValue.map .str)
  | some (.value expectedValue) => Value.ifaceEq actualValue expectedValue
  | some (.search _) => .ok false
  | some (.elems _) => .ok false
  | none => Value.ifaceEq actualValue .nil

/-- `applyPropertyFilter`. -/
def applyPropertyFilter (resource : Dict) (filter : FilterElem) : Go Bool := do
  let key ← propertyKey filter
  match resource.lookup key with
  | none => .ok false
  | some actualValue =>
    match filter.lookup "type" with
    | some (.value (.str "eq")) => equalsExpected actualValue (filter.lookup "value")
    | some (.value (.str "neq")) => do .ok !(← equalsExpected actualValue (filter.lookup "value"))
    | _ => .ok false

/-! ## Nested filters -/

/-- The loop of `applyAllFilters`, over the results of the filters. -/
def allResults : List (Go Bool) → Go Bool
  | [] => .ok true
  | result :: results => do if ← result then allResults results else .ok false

/-- The loop of `applyAnyFilters`, over the results of the filters. -/
def anyResult : List (Go Bool) → Go Bool
  | [] => .ok false
  | result :: results => do if ← result then .ok true else anyResult results

/-- `f.(bool)`. -/
def boolValue : FilterVal → Go Bool
  | .value (.bool b) => .ok b
  | _ => .panicf "interface conversion: interface {} is not bool"

mutual
/-- `applyNestedFilter`, on each filter of a list. -/
def applyNestedFilters (resource : Dict) : List FilterElem → List (Go Bool)
  | [] => []
  | filter :: filters =>
    (match filter.lookup boolCondition with
      | some f => boolValue f
      | none =>
        match resultsUnder resource andCondition filter with
        | some results => results >>= allResults
        | none =>
          match resultsUnder resource orCondition filter with
          | some results => results >>= anyResult
          | none => applyPropertyFilter resource filter) :: applyNestedFilters resource filters

/-- The results of the filters under a key, if the key is there. -/
def resultsUnder (resource : Dict) (key : String) : FilterElem → Option (Go (List (Go Bool)))
  | [] => none
  | (k, v) :: filter =>
    if key == k then some (resultsOf resource v) else resultsUnder resource key filter

/-- `f.([]map[string]interface{})`, and the results of its elements. -/
def resultsOf (resource : Dict) : FilterVal → Go (List (Go Bool))
  | .elems filters => .ok (applyNestedFilters resource filters)
  | _ => .panicf "interface conversion: interface {} is not []map[string]interface {}"
end

/-- `applyNestedFilter`. -/
def applyNestedFilter (resource : Dict) (filter : FilterElem) : Go Bool :=
  match filter.lookup boolCondition with
  | some f => boolValue f
  | none =>
    match filter.lookup andCondition with
    | some f => resultsOf resource f >>= allResults
    | none =>
      match filter.lookup orCondition with
      | some f => resultsOf resource f >>= anyResult
      | none => applyPropertyFilter resource filter

theorem resultsUnder_eq (resource : Dict) (key : String) (filter : FilterElem) :
    resultsUnder resource key filter = (filter.lookup key).map (resultsOf resource) := by
  induction filter with
  | nil => rfl
  | cons e filter ih =>
    obtain ⟨k, v⟩ := e
    rw [resultsUnder, List.lookup_cons, ih]
    cases key == k <;> rfl

/-- The filters of a list are applied one by one. -/
theorem applyNestedFilters_eq_map (resource : Dict) (filters : List FilterElem) :
    applyNestedFilters resource filters = filters.map (applyNestedFilter resource) := by
  induction filters with
  | nil => rfl
  | cons filter filters ih =>
    rw [applyNestedFilters, ih, List.map_cons, applyNestedFilter, resultsUnder_eq, resultsUnder_eq]
    congr 1
    cases filter.lookup boolCondition with
    | some f => rfl
    | none =>
      cases filter.lookup andCondition with
      | some f => rfl
      | none => cases filter.lookup orCondition <;> rfl

/-! ## The top -/

/-- `transformTopLevelFilterToNestedFilter`. -/
def transformTopLevelFilterToNestedFilter (key : String) (filter : FilterVal) : FilterElem :=
  if key = boolCondition ∨ key = andCondition ∨ key = orCondition then [(key, filter)]
  else .eqTo key filter

/-- `applyTopLevelFilter`. -/
def applyTopLevelFilter (resource : Dict) (key : String) (filter : FilterVal) : Go Bool :=
  applyNestedFilter resource (transformTopLevelFilterToNestedFilter key filter)

/-- `applyFilterToResource`. -/
def applyFilterToResource (resource : Dict) (filter : GoMap FilterVal) : Go Bool :=
  allResults (filter.toList.map fun e ↦ applyTopLevelFilter resource e.1 e.2)

/-! ## Results without a panic -/

@[simp] theorem allResults_ok (bs : List Bool) : allResults (bs.map .ok) = .ok (bs.all id) := by
  induction bs with
  | nil => rfl
  | cons b bs ih =>
    rw [List.map_cons, allResults, Go.ok_bind, ih]
    cases b <;> rfl

@[simp] theorem anyResult_ok (bs : List Bool) : anyResult (bs.map .ok) = .ok (bs.any id) := by
  induction bs with
  | nil => rfl
  | cons b bs ih =>
    rw [List.map_cons, anyResult, Go.ok_bind, ih]
    cases b <;> rfl

end Gohan
