import Gohan.Extension.Filter
import Gohan.Schema.Access

/-!
# Custom filters

The `and` and `or` blocks of a condition go into the query.  A precomputed block is expanded, for
the caller at hand, into a filter: its words become restrictions of the tenant and domain columns —
those the schema has — its matches are taken over as they are, and the blocks in its two slots are
expanded in turn.
-/

set_option autoImplicit false

namespace Gohan

/-- Whose resource an attachment is checked for. -/
structure Tenancy where
  TenantID : Option String
  DomainID : Option String

/-- `getFilterByPropertyIfPresent`. -/
def getFilterByPropertyIfPresent (schema : Schema) (propertyName : String) (propertyValue : Value) :
    List FilterElem :=
  if schema.hasPropertyID propertyName then [.eq propertyName propertyValue] else []

namespace Authorization

/-- `getTenantCustomFilter`. -/
def getTenantCustomFilter (auth : Authorization) (schema : Schema) : List FilterElem :=
  match auth with
  | .tenantScoped _ _ _ => getFilterByPropertyIfPresent schema tenantIDKey (.str auth.tenantID)
  | .domainScoped _ _ => []
  | .admin _ _ _ => []

/-- `getDomainCustomFilter`. -/
def getDomainCustomFilter (auth : Authorization) (schema : Schema) : List FilterElem :=
  match auth with
  | .tenantScoped _ _ _ => getFilterByPropertyIfPresent schema domainIDKey (.str auth.domainID)
  | .domainScoped _ _ => getFilterByPropertyIfPresent schema domainIDKey (.str auth.domainID)
  | .admin _ _ _ => []

end Authorization

/-- A `*string` as the statement builder reads it: a nil pointer is NULL. -/
def ofPointer : Option String → Value
  | some s => .str s
  | none => .nil

/-- The restriction of `same_tenancy`; without a tenancy the pointer to it is nil. -/
def sameTenancyFilter (schema : Schema) : Option Tenancy → Go FilterElem
  | some tenancy => .ok (.maybeEmptyAndFilter
      (getFilterByPropertyIfPresent schema tenantIDKey (ofPointer tenancy.TenantID) ++
        getFilterByPropertyIfPresent schema domainIDKey (ofPointer tenancy.DomainID)))
  | none => .panicf "runtime error: invalid memory address or nil pointer dereference"

/-- The key a block is entered under. -/
def ConditionFilterType.key : ConditionFilterType → String
  | .orFilter => orCondition
  | .andFilter => andCondition

/-- The restrictions of the words and matches of a block. -/
def ownFilters (schema : Schema) (auth : Authorization) (tenancy : Option Tenancy)
    (conditionFilters : ConditionFilter) : Go (List FilterElem) := do
  let same ← if conditionFilters.sameTenancy
    then do .ok [← sameTenancyFilter schema tenancy] else .ok []
  let owner := if conditionFilters.isOwner
    then [FilterElem.maybeEmptyAndFilter
      (auth.getTenantCustomFilter schema ++ auth.getDomainCustomFilter schema)] else []
  let domainOwner := if conditionFilters.isDomainOwner
    then [FilterElem.maybeEmptyAndFilter (auth.getDomainCustomFilter schema)] else []
  .ok (same ++ owner ++ domainOwner ++ conditionFilters.matchList.map .ofMatch)

mutual
/-- The filters a block is expanded to; they are entered under its key. -/
def expand (schema : Schema) (auth : Authorization) (tenancy : Option Tenancy) :
    ConditionFilter → Go (List FilterElem)
  | ⟨filterType, isOwner, isDomainOwner, sameTenancy, matchList, orFilters, andFilters⟩ => do
    let own ← ownFilters schema auth tenancy
      { filterType, isOwner, isDomainOwner, sameTenancy, matchList }
    let andFilter ← expandSlot schema auth tenancy andFilters
    let orFilter ← expandSlot schema auth tenancy orFilters
    .ok (own ++ andFilter ++ orFilter)

/-- The filter of the block in a slot, if there is one. -/
def expandSlot (schema : Schema) (auth : Authorization) (tenancy : Option Tenancy) :
    Option ConditionFilter → Go (List FilterElem)
  | none => .ok []
  | some child => do .ok [[(child.filterType.key, .elems (← expand schema auth tenancy child))]]
end

/-- `addCustomFilters`, on the map of the query. -/
def addCustomFilters (schema : Schema) (f : GoMap FilterVal) (auth : Authorization)
    (tenancy : Option Tenancy) (conditionFilters : Option ConditionFilter) : Go (GoMap FilterVal) :=
  match conditionFilters with
  | none => .ok f
  | some block => do
    let filters ← expand schema auth tenancy block
    .ok (f.insert block.filterType.key (.elems filters))

namespace ResourceCondition

variable [RegexpEngine]

/-- `AddCustomFilters`. -/
def addCustomFilters (policy : ResourceCondition) (schema : Schema) (filters : GoMap FilterVal)
    (auth : Authorization) : Go (GoMap FilterVal) :=
  Gohan.addCustomFilters schema filters auth none policy.actionFilter

/-- `AddCustomFiltersWithTenancy`. -/
def addCustomFiltersWithTenancy (policy : ResourceCondition) (schema : Schema)
    (filters : GoMap FilterVal) (auth : Authorization) (tenancy : Option Tenancy) :
    Go (GoMap FilterVal) :=
  Gohan.addCustomFilters schema filters auth tenancy policy.actionFilter

end ResourceCondition

end Gohan
