import Gohan.Lang.Value

/-!
# Filters

A filter is what a query is restricted by.  At the top it is a map: a property is to have a value,
one of several values, or a value that contains a text, and the keys `__and__`, `__or__` and
`__bool__` are reserved for filters made of filters.  Inside one of those an element is a map again,
with `property`, `type` and `value` for the restriction of a property.

`FilterElem` is one map, as the package `goext/filter` builds it.
-/

set_option autoImplicit false

namespace Gohan

/-- What stands under a key of a filter: a value, a text to search for, or a list of filters. -/
inductive FilterVal where
  | value (v : Value)
  | search (text : String)
  | elems (filters : List (List (String × FilterVal)))

/-- A filter inside `__and__` or `__or__`. -/
abbrev FilterElem := List (String × FilterVal)

/-- `OrCondition`. -/
def orCondition : String := "__or__"

/-- `AndCondition`. -/
def andCondition : String := "__and__"

/-- `BoolCondition`. -/
def boolCondition : String := "__bool__"

namespace FilterElem

/-- `Predicate`: a property is compared with a value. -/
def predicate (property comp : String) (value : Value) : FilterElem :=
  [("property", .value (.str property)), ("type", .value (.str comp)), ("value", .value value)]

/-- `Eq`. -/
def eq (property : String) (value : Value) : FilterElem := predicate property "eq" value

/-- `Eq` with what stands under a key of a filter, which may be a text to search for. -/
def eqTo (property : String) (value : FilterVal) : FilterElem :=
  [("property", .value (.str property)), ("type", .value (.str "eq")), ("value", value)]

/-- `Neq`. -/
def neq (property : String) (value : Value) : FilterElem := predicate property "neq" value

/-- `And`. -/
def and (filters : List FilterElem) : FilterElem := [(andCondition, .elems filters)]

/-- `Or`. -/
def or (filters : List FilterElem) : FilterElem := [(orCondition, .elems filters)]

/-- `True`. -/
def true : FilterElem := [(boolCondition, .value (.bool .true))]

/-- `False`. -/
def false : FilterElem := [(boolCondition, .value (.bool .false))]

/-- `MaybeEmptyAndFilter`: no filter is true, and one is itself. -/
def maybeEmptyAndFilter : List FilterElem → FilterElem
  | [] => true
  | [filter] => filter
  | filters => and filters

/-- `MaybeEmptyOrFilter`: no filter is false, and one is itself. -/
def maybeEmptyOrFilter : List FilterElem → FilterElem
  | [] => false
  | [filter] => filter
  | filters => or filters

/-- A match of a policy, taken over as it was written. -/
def ofMatch (m : List (String × Value)) : FilterElem := m.map fun e ↦ (e.1, .value e.2)

end FilterElem

end Gohan
