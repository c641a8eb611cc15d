import Mathlib.Data.List.Infix
import Gohan.Schema.Actions
import Gohan.Server.List

/-!
# The check of a custom action

A schema may define actions of its own, `reboot` say, and a policy for one of them is found under
its identifier.  Before the action runs, the request is held against the policy: the access check
and the exposed properties, then the property conditions, and, when the action is on one resource,
whether that resource is within the scope and the blocks of the policy.

All of these ask the compiled condition for the entries of this one action.
`checkCustomAction_named` draws the conclusion for conditions that name no action: the check is the
same as if they named this one, where `asIfNamed_iff` says that the tables are.
-/

set_option autoImplicit false

namespace Gohan

/-! ## The path of an action -/

/-- A custom action of a schema, with the fields its check reads. -/
structure Action where
  ID : String
  Path : String

/-- `strings.Contains`. -/
def containsString (s sub : String) : Bool := decide (sub.toList <:+: s.toList)

/-- `strings.Replace(s, old, new, 1)`, on the characters. -/
def replaceFirst (old new : List Char) : List Char → List Char
  | [] => if old.isEmpty then new else []
  | c :: s =>
    if old.isPrefixOf (c :: s) then new ++ (c :: s).drop old.length
    else c :: replaceFirst old new s

/-- `getResourcePathFromCustomAction`: the path, and whether it is that of all resources. -/
def getResourcePathFromCustomAction (action : Action) (s : Schema) (resourceID : String) :
    String × Bool :=
  if containsString action.Path ":id" then
    (String.ofList (replaceFirst ":id".toList resourceID.toList s.getSingleURL.toList), false)
  else (s.getPluralURL, true)

/-! ## Does the resource exist for the policy? -/

/-- `transaction.ErrResourceNotFound`. -/
def errResourceNotFound : Fault := .error "resource not found" []

variable [RegexpEngine]

/-- `checkIfResourceExists`: not to be found is no error, anything else is. -/
def checkIfResourceExists (D : Deployment) (db : Database) (s : Schema)
    (filter : GoMap FilterVal) : Go Bool :=
  match D.fetch db s filter with
  | .ok _ => .ok true
  | .error fault => if fault = errResourceNotFound then .ok false else .error fault

/-- `getFilterFromPolicy`. -/
def getFilterFromPolicy (auth : Authorization) (resourceID : String) (s : Schema) (policy : Policy)
    (action : String) : Go (GoMap FilterVal) :=
  let currCond := policy.currentResourceCondition
  currCond.addCustomFilters s (extendFilterByTenantAndDomain s
    ((∅ : GoMap FilterVal).insert "id" (.value (.str resourceID))) action currCond auth) auth

/-- `checkIfResourceExistsForPolicy`. -/
def checkIfResourceExistsForPolicy (D : Deployment) (db : Database) (auth : Authorization)
    (resourceID : String) (s : Schema) (policy : Policy) (action : String) : Go Bool := do
  let filter ← getFilterFromPolicy auth resourceID s policy action
  checkIfResourceExists D db s filter

/-! ## The check -/

/-- `fillDataMapWithTenantAndDomainNames`. -/
def fillDataMapWithTenantAndDomainNames (auth : Authorization) (dataMap : Dict) : Dict :=
  let dataMap : Dict := if dataMap.get tenantIDKey ≠ .nil
    then dataMap.insert "tenant_name" (.str auth.tenantName) else dataMap
  if dataMap.get domainIDKey ≠ .nil
    then dataMap.insert "domain_name" (.str auth.domainName) else dataMap

/-- The check of a request for a custom action against the policy that was found for it. -/
def checkCustomAction (D : Deployment) (db : Database) (auth : Authorization) (policy : Policy)
    (s : Schema) (action : Action) (resourceID : String) (isPlural : Bool) (dataMap : Dict) :
    Go Unit := do
  let dataMap := fillDataMapWithTenantAndDomainNames auth dataMap
  policy.check action.ID auth dataMap
  policy.currentResourceCondition.applyPropertyConditionFilter action.ID dataMap none
  if isPlural then .ok ()
  else if ← checkIfResourceExistsForPolicy D db auth resourceID s policy action.ID then .ok ()
  else .error errResourceNotFound

/-- `checkIfActionIsAllowedForUser`. -/
def checkIfActionIsAllowedForUser (D : Deployment) (db : Database) (auth : Authorization)
    (dataMap : Dict) (s : Schema) (action : Action) (resourceID : String) : Go Unit := do
  let (policyPath, isPlural) := getResourcePathFromCustomAction action s resourceID
  let policy ← loadPolicy D action.ID policyPath auth
  checkCustomAction D db auth policy s action resourceID isPlural dataMap

/-! ## Naming the action -/

/-- The policy with another condition on its resources. -/
def Policy.withCondition (policy : Policy) (p : ResourceCondition) : Policy :=
  { policy with currentResourceCondition := p }

variable {p p' : ResourceCondition}

/-- The scope of two conditions with the same words and tenants. -/
theorem extendFilterByTenantAndDomain_congr {act : String} (hw : SameWords p p')
    (ht : p.actionTenantFilter.getSlice act = p'.actionTenantFilter.getSlice act) (s : Schema)
    (filter : GoMap FilterVal) (auth : Authorization) :
    extendFilterByTenantAndDomain s filter act p auth =
      extendFilterByTenantAndDomain s filter act p' auth := by
  rw [extendFilterByTenantAndDomain, hw.getTenantAndDomainFilters ht]
  rfl

/-- The check sees of a condition its words, its block and the entries of the action. -/
theorem checkCustomAction_congr {action : Action} (hw : SameWords p p')
    (ht : p.actionTenantFilter.getSlice action.ID = p'.actionTenantFilter.getSlice action.ID)
    (hp : p.actionPropertyConditionFilter.getSlice action.ID =
      p'.actionPropertyConditionFilter.getSlice action.ID)
    (D : Deployment) (db : Database) (auth : Authorization) (policy : Policy) (s : Schema)
    (resourceID : String) (isPlural : Bool) (dataMap : Dict) :
    checkCustomAction D db auth (policy.withCondition p) s action resourceID isPlural dataMap =
      checkCustomAction D db auth (policy.withCondition p') s action resourceID isPlural
        dataMap := by
  have hcheck (data : Dict) : (policy.withCondition p).check action.ID auth data =
      (policy.withCondition p').check action.ID auth data := by
    have haccess := hw.checkAccessToResource ht auth data
    rw [Policy.check, Policy.checkAccess]
    simp only [Policy.withCondition, haccess]
    rfl
  have hproperties (data : Dict) :
      (policy.withCondition p).currentResourceCondition.applyPropertyConditionFilter action.ID
          data none =
        (policy.withCondition p').currentResourceCondition.applyPropertyConditionFilter action.ID
          data none := congrArg (applyFilters data none) hp
  have hfilter : getFilterFromPolicy auth resourceID s (policy.withCondition p) action.ID =
      getFilterFromPolicy auth resourceID s (policy.withCondition p') action.ID := by
    simp only [getFilterFromPolicy, Policy.withCondition,
      extendFilterByTenantAndDomain_congr hw ht, hw.addCustomFilters]
  rw [checkCustomAction, checkCustomAction, checkIfResourceExistsForPolicy,
    checkIfResourceExistsForPolicy, hfilter, hcheck, hproperties]

/-- **The check of a custom action, with its condition as it is and with the action named**: where
the tables of the action are the same, every request is answered alike. -/
theorem checkCustomAction_named {action : Action} {conditions : List Value} {policyID : String}
    (hattach : action.ID ≠ actionAttach) (h : newResourceCondition conditions policyID = .ok p)
    (h' : newResourceCondition
      (conditions.map (nameAction (tenantAction action.ID) action.ID)) policyID = .ok p')
    (hsame : SameEffect action.ID p p') (D : Deployment) (db : Database) (auth : Authorization)
    (policy : Policy) (s : Schema) (resourceID : String) (isPlural : Bool) (dataMap : Dict) :
    checkCustomAction D db auth (policy.withCondition p) s action resourceID isPlural dataMap =
      checkCustomAction D db auth (policy.withCondition p') s action resourceID isPlural
        dataMap := by
  obtain ⟨htenants, hproperties⟩ := hsame
  rw [tenantAction, if_neg hattach] at htenants
  exact checkCustomAction_congr (sameWords_of_named h h') htenants hproperties D db auth policy s
    resourceID isPlural dataMap

end Gohan
