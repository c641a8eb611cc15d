import Gohan.Schema.Access

/-!
# Policies

A policy says who may perform an action on the resources under a path, which of their properties
it exposes, and under which condition.  `newPolicy` reads one from the YAML a policy file holds,
`policyValidate` finds the one that decides a request, and `check` is what a write request is
held against: the access check of the condition, then the properties the body may name.

Everything a policy needs at run time is compiled when it is loaded, and a policy that does not
compile is refused; so in a `Policy` the expressions are `Regexp`s, which cannot be nil.  The
tenants of the *request* are compiled while it is checked, and there an expression that does not
compile is not an error.  `checkAccess_returns_iff` and `checks_return_iff` say which requests
come back from the check.
-/

set_option autoImplicit false

namespace Gohan

variable [RegexpEngine]

/-- The resources a policy is about, and which of their properties it exposes. -/
structure ResourceFilter where
  PropertiesFilter : PropertyFilter
  Path : Regexp

/-- `Policy`. -/
structure Policy where
  ID : String
  Principal : String
  Action : String
  Effect : String
  resource : ResourceFilter
  tenantID : Regexp
  tenantName : Regexp
  tokenScope : List Scope
  currentResourceCondition : ResourceCondition
  relationPropertyName : String := ""
  otherResourceCondition : Option ResourceCondition := none

/-! ## Loading a policy -/

/-- `typeData[key].(string)`, empty when there is no string. -/
def stringUnder (typeData : List (String × Value)) (key : String) : String :=
  ((typeData.lookup key).getD .nil).maybeString

/-- `getStringSliceFromMap`; appending to a nil slice leaves it nil when nothing is appended. -/
def getStringSliceFromMap (data : List (String × Value)) (key : String) : Option (List String) :=
  match data.lookup key with
  | some (.strs slice) => some slice
  | some (.list slice) =>
    match slice.filterMap Value.string? with
    | [] => none
    | result => some result
  | _ => none

/-- The paths and the properties that a policy is about. -/
def parseResourceFilter (typeData : List (String × Value)) : Go ResourceFilter := do
  let resourceData := ((typeData.lookup "resource").bind Value.map?).getD []
  let path ← Regexp.compile (stringUnder resourceData "path")
  let filter ← PropertyFilter.createFilterFromProperties
    (getStringSliceFromMap resourceData "properties")
    (getStringSliceFromMap resourceData "blacklistProperties")
  .ok ⟨filter, path⟩

/-- The tenants that a policy is about, by their identifiers or their names. -/
def parseTenant (typeData : List (String × Value)) : Go (Regexp × Regexp) := do
  let tenantID ← getRegexp (stringUnder typeData tenantIDKey)
  let tenantName ← getRegexp (stringUnder typeData "tenant_name")
  if tenantName.expr ≠ globalRegexp ∧ tenantID.expr ≠ globalRegexp then
    .errorf "Only one of [tenant_id, tenant_name] should be specified"
  else .ok (tenantID, tenantName)

/-- The type of token of a name. -/
def Scope.ofString? : String → Option Scope
  | "tenant" => some .tenant
  | "domain" => some .domain
  | "admin" => some .admin
  | _ => none

/-- The loop over the token types of a policy, from position `i` on. -/
def parseTokenTypes : ℕ → List Value → Go (List Scope)
  | _, [] => .ok []
  | i, rawTp :: types =>
    match rawTp with
    | .str tp =>
      match Scope.ofString? tp with
      | some scope => do .ok (scope :: (← parseTokenTypes (i + 1) types))
      | none => .errorf "Unknown token type in \"scope\" property at position %d: \"%s\""
          [.int i, .str tp]
    | _ => .errorf "Token type at position %d in scope list should be a string" [.int i]

/-- The types of tokens that a policy is about, all if it does not say. -/
def parseTokenScope (typeData : List (String × Value)) : Go (List Scope) :=
  match typeData.lookup "scope" with
  | some (.list types) => parseTokenTypes 0 types
  | some _ => .errorf "\"scope\" should be a list of strings"
  | none => .ok allTokenTypes

/-- The conditions of a policy: its own, and for an attach policy the property and the condition of
the resource attached to. -/
def parseActionAttachOrCondition (typeData : List (String × Value)) (action policyID : String) :
    Go (ResourceCondition × String × Option ResourceCondition) :=
  if action = actionAttach then
    match (typeData.lookup "relation_property").bind Value.string? with
    | none => .errorf "\"relation_property\" is required in an attach policy"
    | some relationProperty =>
      match (typeData.lookup "target_condition").bind Value.slice? with
      | none => .errorf "\"target_condition\" is required in an attach policy"
      | some rawTargetCondition => do
        let other ← newResourceCondition rawTargetCondition policyID
        .ok ({}, relationProperty, some other)
  else do
    let rawCondition := ((typeData.lookup "condition").bind Value.slice?).getD []
    .ok (← newResourceCondition rawCondition policyID, "", none)

/-- `NewPolicy`. -/
def newPolicy : Value → Go Policy
  | .map typeData => do
    let ID := stringUnder typeData "id"
    let Action := stringUnder typeData "action"
    let resource ← parseResourceFilter typeData
    let (tenantID, tenantName) ← parseTenant typeData
    let tokenScope ← parseTokenScope typeData
    let (currentResourceCondition, relationPropertyName, otherResourceCondition) ←
      parseActionAttachOrCondition typeData Action ID
    .ok { ID, Principal := stringUnder typeData "principal", Action,
          Effect := stringUnder typeData "effect", resource, tenantID, tenantName, tokenScope,
          currentResourceCondition, relationPropertyName, otherResourceCondition }
  | _ => .panicf "interface conversion: interface {} is not map[string]interface {}"

/-! ## Finding the policy of a request -/

namespace Policy

/-- Is the policy for the action?  An attach policy is for attaching only, and no other policy
is, whatever its action. -/
def forAction (p : Policy) (action : String) : Bool :=
  if p.Action = actionAttach ∨ action = actionAttach then p.Action == action
  else p.Action == "*" || action == p.Action

/-- `IsDeny`. -/
def isDeny (p : Policy) : Bool := p.Effect.toLower == "deny"

end Policy

/-- `match`: the role of the caller that the policy applies to. -/
def Policy.matches (p : Policy) (action path : String) (auth : Authorization) : Option Role :=
  if !p.forAction action then none
  else if !p.resource.Path.matchString path then none
  else if !p.tenantID.matchString auth.tenantID then none
  else if !p.tenantName.matchString auth.tenantName then none
  else if !auth.checkTokenScope p.tokenScope then none
  else auth.roles.find? fun role ↦ role.matches p.Principal

/-- The loop of `PolicyValidate`, with what it has found so far. -/
def policyValidateLoop (action path : String) (auth : Authorization) :
    List Policy → Option (Policy × Role) → Option (Policy × Role)
  | [], found => found
  | policy :: policies, found =>
    match policy.matches action path auth with
    | some role =>
      if policy.isDeny then none
      else policyValidateLoop action path auth policies (found.or (some (policy, role)))
    | none => policyValidateLoop action path auth policies found

/-- `PolicyValidate`. -/
def policyValidate (action path : String) (auth : Authorization) (policies : List Policy) :
    Option (Policy × Role) :=
  policyValidateLoop action path auth policies none

/-- `GetAttachmentPolicies`. -/
def getAttachmentPolicies (path : String) (auth : Authorization) (policies : List Policy) :
    List Policy :=
  policies.filter fun policy ↦ (policy.matches actionAttach path auth).isSome

/-! ## Checking a request -/

/-- The loop of `CheckPropertiesFilter`, over the keys in the order they are visited. -/
def checkKeys (filter : PropertyFilter) : List String → Go Unit
  | [] => .ok ()
  | key :: keys =>
    if key = "tenant_name" then checkKeys filter keys
    else if filter.isForbidden key then .errorf "%s is prohibited for this user" [.str key]
    else checkKeys filter keys

namespace Policy

/-- `CheckAccess`. -/
def checkAccess (p : Policy) (action : String) (authorization : Authorization)
    (resourceData : Dict) : Go Unit :=
  authorization.checkAccessToResource p.currentResourceCondition action resourceData

/-- `CheckPropertiesFilter`. -/
def checkPropertiesFilter (p : Policy) (data : Dict) : Go Unit :=
  checkKeys p.resource.PropertiesFilter data.keys

/-- `RemoveHiddenProperty`. -/
def removeHiddenProperty {α : Type} (p : Policy) (data : GoMap α) : GoMap α :=
  p.resource.PropertiesFilter.removeHiddenKeysFromMap data

/-- `Check`.  The source tests the data for nil where it means the error, which makes no
difference: nil data has no key to be prohibited. -/
def check (p : Policy) (action : String) (authorization : Authorization) (data : Dict) :
    Go Unit := do
  p.checkAccess action authorization data
  p.checkPropertiesFilter data

end Policy

omit [RegexpEngine] in
theorem checkKeys_eq_ok {filter : PropertyFilter} {keys : List String} :
    checkKeys filter keys = .ok () ↔
      ∀ key ∈ keys, key = "tenant_name" ∨ filter.validate key = true := by
  induction keys with
  | nil => simp [checkKeys]
  | cons key keys ih =>
    rw [checkKeys, List.forall_mem_cons]
    split
    · simp [*]
    · split <;> simp_all [PropertyFilter.isForbidden]

omit [RegexpEngine] in
theorem returns_checkKeys (filter : PropertyFilter) (keys : List String) :
    Go.Returns (checkKeys filter keys) := by
  induction keys with
  | nil => exact Go.returns_ok _
  | cons key keys ih =>
    rw [checkKeys]
    split
    · exact ih
    · split
      · exact Go.returns_errorf _ _
      · exact ih

omit [RegexpEngine] in
theorem returns_checkDomainAccess (domain : Domain) (resource : Dict) :
    Go.Returns (checkDomainAccess domain resource) := by
  rw [checkDomainAccess]
  split
  · exact Go.returns_errorf _ _
  · exact Go.returns_ok _

/-- The policy holds the caller's tenant against the resource's. -/
def ComparesTenants (p : Policy) (authorization : Authorization) : Prop :=
  p.currentResourceCondition.requireOwner = true ∧
    ∃ tenant domain roles, authorization = .tenantScoped tenant domain roles

/-- Every tenant the check compares has an expression that compiles. -/
def TenantsCompile (authorization : Authorization) (data : Dict) : Prop :=
  (newTenantMatcher authorization.tenantID authorization.tenantName).Compiled ∧
    (ownerMatcher data).Compiled

theorem checkAccess_returns_iff {p : Policy} {action : String} {authorization : Authorization}
    {data : Dict} : Go.Returns (p.checkAccess action authorization data) ↔
      (ComparesTenants p authorization → TenantsCompile authorization data) := by
  cases authorization with
  | tenantScoped tenant domain roles =>
    cases hown : p.currentResourceCondition.requireOwner with
    | true =>
      simp only [Policy.checkAccess, Authorization.checkAccessToResource,
        ResourceCondition.requireTenantCheck, ResourceCondition.requireDomainCheck, hown,
        Bool.true_or, if_true, Go.returns_bind, returns_checkTenantAccess hown,
        returns_checkDomainAccess, ComparesTenants, TenantsCompile]
      simp [callerMatcher, Authorization.tenantID, Authorization.tenantName]
    | false =>
      simp only [Policy.checkAccess, Authorization.checkAccessToResource,
        ResourceCondition.requireTenantCheck, hown, ComparesTenants, Bool.false_eq_true, if_false]
      split <;> simp [returns_checkDomainAccess]
  | domainScoped domain roles =>
    simp only [Policy.checkAccess, Authorization.checkAccessToResource, ComparesTenants]
    split <;> simp [returns_checkDomainAccess]
  | admin tenant domain roles =>
    simp [Policy.checkAccess, Authorization.checkAccessToResource, ComparesTenants]

/-- The properties filter never panics. -/
theorem check_returns_iff_checkAccess {p : Policy} {action : String}
    {authorization : Authorization} {data : Dict} :
    Go.Returns (p.check action authorization data) ↔
      Go.Returns (p.checkAccess action authorization data) := by
  rw [Policy.check, Go.returns_bind]
  exact and_iff_left fun _ _ ↦ returns_checkKeys _ _

/-- **Which requests come back from the checks of a policy**: all but those in which an owner
policy has to compare two tenants and one of the four texts is not a regular expression. -/
theorem checks_return_iff (p : Policy) (action : String) (authorization : Authorization)
    (data : Dict) : (Go.Returns (p.check action authorization data) ∧
        Go.Returns (p.checkAccess action authorization data)) ↔
      (ComparesTenants p authorization → TenantsCompile authorization data) := by
  rw [check_returns_iff_checkAccess, and_self, checkAccess_returns_iff]

omit [RegexpEngine] in
/-- A policy for the owner, and a request that names the tenant `(`. -/
theorem check_panics : letI := Re2.engine
    ∃ p, newPolicy (.map [("id", .str "member"), ("principal", .str "Member"),
        ("action", .str "update"), ("effect", .str "allow"),
        ("condition", .list [.str "is_owner"])]) = .ok p ∧
      ¬ Go.Returns (p.check actionUpdate
        (.tenantScoped ⟨"acme-1", "one"⟩ ⟨"default", "Default"⟩ [⟨"Member"⟩])
        (GoMap.ofList [(tenantIDKey, .str "(")])) := by
  let _ := Re2.engine
  refine ⟨_, rfl, fun hret ↦ ?_⟩
  have haccess := check_returns_iff_checkAccess.mp hret
  have howner := (checkAccess_returns_iff.mp haccess ⟨rfl, _, _, _, rfl⟩).2
  exact absurd howner (by decide +kernel)

end Gohan
