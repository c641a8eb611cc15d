import Gohan.Schema.Condition

/-!
# Authorizations and the access check

An authorization is scoped to a tenant, to a domain, or to the administrator's project, and the
three answer the same questions differently.  Two of the questions matter for isolation:

* `getTenantAndDomainFilters`, before a read: which tenants' rows may the query look at?
* `checkAccessToResource`, before a write: is this resource, as it is in the request or in the
  database, one the caller may touch?

The first compares identifiers in the database and is exact.  The second goes through
`TenantMatcher.equal`, the two-sided test, with the *resource's* tenant on one side — and in a
request the resource's tenant is what the client wrote there.  `checkTenantAccess_eq_ok` says what
the check accepts, and `isolates_iff` compares that with what the policy entitles the caller to, by
the kinds of the texts: an entry adds only the tenants whose own text is found in it, and for the
caller one of two literal texts has to be a part of the other.  A client that writes `.*` gets past
the check in any case.
-/

set_option autoImplicit false

namespace Gohan

variable [RegexpEngine]

/-- Who is calling, by the scope of the token. -/
inductive Authorization where
  | tenantScoped (tenant : Tenant) (domain : Domain) (roles : List Role)
  | domainScoped (domain : Domain) (roles : List Role)
  | admin (tenant : Tenant) (domain : Domain) (roles : List Role)

/-! ## The tenant and domain checks -/

/-- `notEqual`. -/
def TenantMatcher.notEqual (t t2 : TenantMatcher) : Go Bool := do
  let eq ← t.equal t2
  .ok (!eq)

namespace ResourceCondition

/-- The tenants an action may be performed for: the entries of the policy, and the caller. -/
def getTenantFilter (p : ResourceCondition) (action : String) (tenant : TenantMatcher) :
    List TenantMatcher :=
  if !p.requireOwner then []
  else (p.actionTenantFilter.getSlice action).map AllowedTenant.matcher ++ [tenant]

/-- The loop of `isTenantAllowed`. -/
def anyEqual (owner : TenantMatcher) : List TenantMatcher → Go Bool
  | [] => .ok false
  | allowedTenant :: allowedTenants => do
    if ← owner.equal allowedTenant then .ok true else anyEqual owner allowedTenants

/-- `isTenantAllowed`. -/
def isTenantAllowed (p : ResourceCondition) (action : String) (owner tenant : TenantMatcher) :
    Go Bool :=
  anyEqual owner (p.getTenantFilter action tenant)

end ResourceCondition

/-- The matcher of the tenant a resource names, in whatever state it compiled to. -/
def ownerMatcher (resource : Dict) : TenantMatcher :=
  newTenantMatcher (resource.get tenantIDKey).maybeString (resource.get "tenant_name").maybeString

/-- The matcher of a caller. -/
def callerMatcher (tenant : Tenant) : TenantMatcher := newTenantMatcher tenant.id tenant.name

/-- `checkTenantAccess`: the owner is the caller, or one of the tenants that are listed. -/
def checkTenantAccess (cond : ResourceCondition) (action : String) (tenant : Tenant)
    (resource : Dict) : Go Unit := do
  let owner := ownerMatcher resource
  let caller := callerMatcher tenant
  if ← caller.notEqual owner then
    if ← cond.isTenantAllowed action owner caller then .ok ()
    else .errorf "Operating on resources from other tenant is prohibited"
  else .ok ()

/-- Does the resource set a domain other than the caller's? -/
def setsOtherDomain (domain : Domain) (resource : Dict) : Bool :=
  match (resource.get domainIDKey).string? with
  | some resourceDomainID => domain.id != resourceDomainID
  | none => false

/-- `checkDomainAccess`. -/
def checkDomainAccess (domain : Domain) (resource : Dict) : Go Unit :=
  if setsOtherDomain domain resource then
    .errorf "Operating on resources from other domain is prohibited"
  else .ok ()

namespace Authorization

/-- `TenantID`. -/
def tenantID : Authorization → String
  | .tenantScoped tenant _ _ => tenant.id
  | .domainScoped _ _ => ""
  | .admin tenant _ _ => tenant.id

/-- `TenantName`. -/
def tenantName : Authorization → String
  | .tenantScoped tenant _ _ => tenant.name
  | .domainScoped _ _ => ""
  | .admin tenant _ _ => tenant.name

/-- `DomainID`. -/
def domainID : Authorization → String
  | .tenantScoped _ domain _ => domain.id
  | .domainScoped domain _ => domain.id
  | .admin _ domain _ => domain.id

/-- `DomainName`. -/
def domainName : Authorization → String
  | .tenantScoped _ domain _ => domain.name
  | .domainScoped domain _ => domain.name
  | .admin _ domain _ => domain.name

/-- `Roles`. -/
def roles : Authorization → List Role
  | .tenantScoped _ _ roles => roles
  | .domainScoped _ roles => roles
  | .admin _ _ roles => roles

/-- `IsAdmin`. -/
def isAdmin : Authorization → Bool
  | .admin _ _ _ => true
  | _ => false

/-- `checkTokenScope`: the type of the token is one of those. -/
def checkTokenScope (auth : Authorization) (scopes : List Scope) : Bool :=
  match auth with
  | .tenantScoped _ _ _ => scopes.contains .tenant
  | .domainScoped _ _ => scopes.contains .domain
  | .admin _ _ _ => scopes.contains .admin

/-- `checkAccessToResource`. -/
def checkAccessToResource (auth : Authorization) (cond : ResourceCondition) (action : String)
    (resource : Dict) : Go Unit :=
  match auth with
  | .tenantScoped tenant domain _ => do
    if cond.requireTenantCheck then checkTenantAccess cond action tenant resource
    if cond.requireDomainCheck then checkDomainAccess domain resource
  | .domainScoped domain _ =>
    if cond.requireDomainCheck then checkDomainAccess domain resource else .ok ()
  | .admin _ _ _ => .ok ()

/-- `getTenantAndDomainFilters`; a nil slice is the empty list. -/
def getTenantAndDomainFilters (auth : Authorization) (cond : ResourceCondition) (action : String) :
    List String × List String :=
  match auth with
  | .tenantScoped tenant domain _ =>
    ((cond.actionTenantFilter.getSlice action).map (·.ID.expr) ++ [tenant.id], [domain.id])
  | .domainScoped domain _ => ([], [domain.id])
  | .admin _ _ _ => ([], [])

end Authorization

/-- `GetTenantAndDomainFilters`. -/
def ResourceCondition.getTenantAndDomainFilters (p : ResourceCondition) (action : String)
    (auth : Authorization) : List String × List String :=
  if !p.requireTenantCheck && !p.requireDomainCheck then ([], [])
  else
    let (tenantFilter, domainFilter) := auth.getTenantAndDomainFilters p action
    (if p.requireTenantCheck then tenantFilter else [],
      if p.requireDomainCheck then domainFilter else [])

/-! ## What the tenant check decides -/

variable {cond : ResourceCondition} {action : String} {tenant : Tenant} {resource : Dict}

/-- With everything compiled, the loop finds a match exactly when there is one. -/
theorem anyEqual_of_compiled {owner : TenantMatcher} (howner : owner.Compiled)
    {allowed : List TenantMatcher} (h : ∀ m ∈ allowed, m.Compiled) :
    ResourceCondition.anyEqual owner allowed = .ok (allowed.any owner.equals) := by
  induction allowed with
  | nil => rfl
  | cons m ms ih =>
    rw [List.forall_mem_cons] at h
    rw [ResourceCondition.anyEqual, TenantMatcher.equal_of_compiled howner h.1, ih h.2]
    simp only [bind, Except.bind, List.any_cons]
    cases owner.equals m <;> rfl

theorem isTenantAllowed_of_compiled {owner caller : TenantMatcher} (hown : cond.requireOwner = true)
    (howner : owner.Compiled) (hcaller : caller.Compiled) :
    cond.isTenantAllowed action owner caller =
      .ok ((cond.actionTenantFilter.getSlice action).any (owner.equals ·.matcher) ||
        owner.equals caller) := by
  have hfilter : cond.getTenantFilter action caller =
      (cond.actionTenantFilter.getSlice action).map AllowedTenant.matcher ++ [caller] := by
    simp [ResourceCondition.getTenantFilter, hown]
  rw [ResourceCondition.isTenantAllowed, hfilter, anyEqual_of_compiled howner]
  · simp [Function.comp_def]
  · intro m hm
    rcases List.mem_append.mp hm with hm | hm
    · obtain ⟨a, _, rfl⟩ := List.mem_map.mp hm
      exact TenantMatcher.compiled_matcher a
    · rwa [List.mem_singleton.mp hm]

/-- The resource's tenant matches the caller or an entry of the policy, one way or the other. -/
def CrossMatched (cond : ResourceCondition) (action : String) (tenant : Tenant)
    (resource : Dict) : Prop :=
  (ownerMatcher resource).equals (callerMatcher tenant) = true ∨
    ∃ entry ∈ cond.actionTenantFilter.getSlice action,
      (ownerMatcher resource).equals entry.matcher = true

/-- With everything compiled, the check is a test for a match. -/
theorem checkTenantAccess_of_compiled (action : String) (hown : cond.requireOwner = true)
    (hcaller : (callerMatcher tenant).Compiled) (howner : (ownerMatcher resource).Compiled) :
    (CrossMatched cond action tenant resource ∧
      checkTenantAccess cond action tenant resource = .ok ()) ∨
    (¬ CrossMatched cond action tenant resource ∧
      checkTenantAccess cond action tenant resource =
        .errorf "Operating on resources from other tenant is prohibited") := by
  simp only [checkTenantAccess, TenantMatcher.notEqual,
    TenantMatcher.equal_of_compiled hcaller howner,
    isTenantAllowed_of_compiled hown howner hcaller, bind, Except.bind, CrossMatched,
    TenantMatcher.equals_comm (callerMatcher tenant), ← List.any_eq_true]
  cases (ownerMatcher resource).equals (callerMatcher tenant) <;>
    cases (cond.actionTenantFilter.getSlice action).any
      ((ownerMatcher resource).equals ·.matcher) <;>
    simp

/-- The check looks at the caller and at the resource first, and panics on either. -/
theorem returns_checkTenantAccess (hown : cond.requireOwner = true) :
    Go.Returns (checkTenantAccess cond action tenant resource) ↔
      (callerMatcher tenant).Compiled ∧ (ownerMatcher resource).Compiled := by
  constructor
  · intro h
    rw [checkTenantAccess, TenantMatcher.notEqual, Go.returns_bind, Go.returns_bind] at h
    exact TenantMatcher.returns_equal_iff.mp h.1.1
  · rintro ⟨hcaller, howner⟩
    rcases checkTenantAccess_of_compiled action hown hcaller howner with
      ⟨_, h⟩ | ⟨_, h⟩ <;> rw [h]
    · exact Go.returns_ok _
    · exact Go.returns_errorf _ _

/-- **What the tenant check accepts**: a caller that compiles, and a match. -/
theorem checkTenantAccess_eq_ok (hown : cond.requireOwner = true) :
    checkTenantAccess cond action tenant resource = .ok () ↔
      (callerMatcher tenant).Compiled ∧ CrossMatched cond action tenant resource := by
  constructor
  · intro h
    have hret : Go.Returns (checkTenantAccess cond action tenant resource) := h ▸ Go.returns_ok _
    obtain ⟨hcaller, howner⟩ := (returns_checkTenantAccess hown).mp hret
    refine ⟨hcaller, ?_⟩
    rcases checkTenantAccess_of_compiled action hown hcaller howner with
      ⟨hmatch, _⟩ | ⟨_, herr⟩
    · exact hmatch
    · rw [herr] at h
      simp at h
  · rintro ⟨hcaller, hmatch⟩
    have howner : (ownerMatcher resource).Compiled := by
      rcases hmatch with h | ⟨_, _, h⟩ <;> exact TenantMatcher.compiled_of_equals h
    rcases checkTenantAccess_of_compiled action hown hcaller howner with
      ⟨_, hok⟩ | ⟨hno, _⟩
    · exact hok
    · exact absurd hmatch hno

omit [RegexpEngine] in
theorem checkDomainAccess_eq_ok {domain : Domain} :
    checkDomainAccess domain resource = .ok () ↔ setsOtherDomain domain resource = false := by
  cases h : setsOtherDomain domain resource <;> simp [checkDomainAccess, h]

/-! ## Isolation of tenants -/

/-- What the policy entitles a caller to: the resources of its own tenant, and those of a tenant
some entry for the action admits. -/
def Entitled (cond : ResourceCondition) (action : String) (tenant : Tenant) (resource : Dict) :
    Prop :=
  let ownerID := (resource.get tenantIDKey).maybeString
  let ownerName := (resource.get "tenant_name").maybeString
  ownerID = tenant.id ∨
    ∃ entry ∈ cond.actionTenantFilter.getSlice action, entry.admits ownerID ownerName = true

/-- The tenant a resource names. -/
def ownerID (resource : Dict) : String := (resource.get tenantIDKey).maybeString

/-- The name of the tenant that owns the resource. -/
def ownerName (resource : Dict) : String := (resource.get "tenant_name").maybeString

/-- The texts that are compared compile; only a pattern may fail to. -/
structure TextsCompile (tenant : Tenant) (resource : Dict) : Prop where
  callerID : TextCompiles tenant.id
  callerName : TextCompiles tenant.name
  ownerID : TextCompiles (ownerID resource)
  ownerName : TextCompiles (ownerName resource)

/-- The tenant of the resource is apart from the caller: on one of the coordinates neither text is
found in the other. -/
def ApartFromCaller (tenant : Tenant) (resource : Dict) : Prop :=
  ¬Touch (ownerID resource) tenant.id ∨ ¬Touch (ownerName resource) tenant.name

/-- The text of the resource's tenant is found in no entry. -/
def ApartFromEntries (cond : ResourceCondition) (action : String) (resource : Dict) : Prop :=
  ∀ entry ∈ cond.actionTenantFilter.getSlice action,
    ¬entry.Strays (ownerID resource) (ownerName resource)

theorem compiled_iff_textsCompile [LawfulRegexpEngine] :
    (callerMatcher tenant).Compiled ∧ (ownerMatcher resource).Compiled ↔
      TextsCompile tenant resource := by
  rw [callerMatcher, ownerMatcher, newTenantMatcher_compiled, newTenantMatcher_compiled]
  exact ⟨fun h ↦ ⟨h.1.1, h.1.2, h.2.1, h.2.2⟩,
    fun h ↦ ⟨⟨h.callerID, h.callerName⟩, h.ownerID, h.ownerName⟩⟩

section Kinds

variable [LawfulRegexpEngine] {rawCondition : List Value} {policyID : String}

/-- **Who is met**, by the kinds of the texts: the caller, by two texts that touch, and an entry
that admits the tenant or in which its text is found. -/
theorem crossMatched_iff (hcond : newResourceCondition rawCondition policyID = .ok cond)
    (hne : ownerID resource ≠ "") (h : TextsCompile tenant resource) :
    CrossMatched cond action tenant resource ↔ ¬ApartFromCaller tenant resource ∨
      ∃ entry ∈ cond.actionTenantFilter.getSlice action,
        entry.admits (ownerID resource) (ownerName resource) = true ∨
          entry.Strays (ownerID resource) (ownerName resource) := by
  obtain ⟨hcaller, howner⟩ := compiled_iff_textsCompile.mpr h
  rw [ApartFromCaller, ← not_and_or, not_not]
  refine or_congr (newTenantMatcher_equals howner hcaller) (exists_congr fun entry ↦
    and_congr_right fun hentry ↦ ?_)
  obtain ⟨_, hread⟩ := belongsToTenant_of_newResourceCondition hcond hentry
  exact newTenantMatcher_equals_entry (oneSided_of_belongsToTenant hread) hne howner

/-- **What the check accepts**, by the kinds of the texts. -/
theorem checkAccessToResource_eq_ok
    (hcond : newResourceCondition rawCondition policyID = .ok cond)
    (hown : cond.requireOwner = true) (hne : ownerID resource ≠ "") (domain : Domain)
    (roles : List Role) :
    (Authorization.tenantScoped tenant domain roles).checkAccessToResource cond action resource =
        .ok () ↔ setsOtherDomain domain resource = false ∧ TextsCompile tenant resource ∧
      (¬ApartFromCaller tenant resource ∨ ∃ entry ∈ cond.actionTenantFilter.getSlice action,
        entry.admits (ownerID resource) (ownerName resource) = true ∨
          entry.Strays (ownerID resource) (ownerName resource)) := by
  simp only [Authorization.checkAccessToResource, ResourceCondition.requireTenantCheck,
    ResourceCondition.requireDomainCheck, hown, Bool.true_or, if_true]
  rw [Go.andThen_eq_ok, checkDomainAccess_eq_ok, and_comm]
  refine and_congr_right fun _ ↦ ?_
  constructor
  · intro h
    have hreturns := Go.returns_ok ()
    rw [← h] at hreturns
    have hcompile := compiled_iff_textsCompile.mp ((returns_checkTenantAccess hown).mp hreturns)
    have hmatched := ((checkTenantAccess_eq_ok hown).mp h).2
    exact ⟨hcompile, (crossMatched_iff hcond hne hcompile).mp hmatched⟩
  · rintro ⟨hcompile, hmet⟩
    exact (checkTenantAccess_eq_ok hown).mpr ⟨(compiled_iff_textsCompile.mpr hcompile).1,
      (crossMatched_iff hcond hne hcompile).mpr hmet⟩

omit [LawfulRegexpEngine] in
/-- For a tenant the caller is not entitled to, an entry that is met is one its text is found in. -/
theorem exists_strays_iff (h : ¬Entitled cond action tenant resource) :
    (∃ entry ∈ cond.actionTenantFilter.getSlice action,
        entry.admits (ownerID resource) (ownerName resource) = true ∨
          entry.Strays (ownerID resource) (ownerName resource)) ↔
      ¬ApartFromEntries cond action resource := by
  simp only [ApartFromEntries, not_forall, not_not, exists_prop]
  refine exists_congr fun entry ↦ and_congr_right fun hentry ↦ or_iff_right fun hadmits ↦ ?_
  exact h (.inr ⟨entry, hentry, hadmits⟩)

/-- **For one resource**: what the caller is not entitled to is let through exactly when the domain
is not another one, the texts compile, and the text of the tenant touches the caller's, on both
coordinates, or is found in an entry. -/
theorem isolates_resource_iff (hcond : newResourceCondition rawCondition policyID = .ok cond)
    (hown : cond.requireOwner = true) (hne : ownerID resource ≠ "") (domain : Domain)
    (roles : List Role) :
    ((Authorization.tenantScoped tenant domain roles).checkAccessToResource cond action resource =
        .ok () → Entitled cond action tenant resource) ↔
      Entitled cond action tenant resource ∨ setsOtherDomain domain resource = true ∨
        ¬TextsCompile tenant resource ∨
        ApartFromCaller tenant resource ∧ ApartFromEntries cond action resource := by
  by_cases hentitled : Entitled cond action tenant resource
  · exact iff_of_true (fun _ ↦ hentitled) (.inl hentitled)
  · rw [checkAccessToResource_eq_ok hcond hown hne, exists_strays_iff hentitled,
      ← Bool.not_eq_true]
    simp only [hentitled, imp_false, not_and_or, not_or, not_not, false_or]

/-- **Literal identifiers of one length** keep tenants apart. -/
theorem isolates_of_hasLength (hcond : newResourceCondition rawCondition policyID = .ok cond)
    (hown : cond.requireOwner = true) (hcaller : textKind tenant.id = .literal)
    (hentries : ∀ entry ∈ cond.actionTenantFilter.getSlice action,
      entry.HasLength tenant.id.length)
    (howner : textKind (ownerID resource) = .literal)
    (hlength : (ownerID resource).length = tenant.id.length) (domain : Domain) (roles : List Role)
    (h : (Authorization.tenantScoped tenant domain roles).checkAccessToResource cond action
      resource = .ok ()) : Entitled cond action tenant resource := by
  have hne : ownerID resource ≠ "" := fun hempty ↦ by
    rw [hempty] at howner
    cases howner
  obtain ⟨-, -, hmet | ⟨entry, hmem, hadmits | hstrays⟩⟩ :=
    (checkAccessToResource_eq_ok hcond hown hne domain roles).mp h
  · rw [ApartFromCaller, ← not_and_or, not_not] at hmet
    exact .inl (eq_of_touch howner hcaller hlength hmet.1)
  · exact .inr ⟨entry, hmem, hadmits⟩
  · exact .inr ⟨entry, hmem, (hentries entry hmem).admits_of_strays howner hlength hstrays⟩

/-- A resource of a tenant, without name and domain. -/
def resourceOf (tenantID : String) : Dict := GoMap.ofList [(tenantIDKey, .str tenantID)]

/-- **A tenant of `.*` gets past the check** of every caller whose texts compile. -/
theorem checkAccessToResource_anys (hcond : newResourceCondition rawCondition policyID = .ok cond)
    (hown : cond.requireOwner = true) (hID : TextCompiles tenant.id)
    (hName : TextCompiles tenant.name) (domain : Domain) (roles : List Role) (n : ℕ) :
    (Authorization.tenantScoped tenant domain roles).checkAccessToResource cond action
      (resourceOf (anys (n + 1))) = .ok () := by
  have hempty : TextCompiles (ownerName (resourceOf (anys (n + 1)))) := fun hkind ↦ by cases hkind
  have hne : ownerID (resourceOf (anys (n + 1))) ≠ "" := anys_succ_ne_empty n
  refine (checkAccessToResource_eq_ok hcond hown hne domain roles).mpr
    ⟨rfl, ⟨hID, hName, textCompiles_anys n, hempty⟩, .inl ?_⟩
  rintro (hapart | hapart)
  · exact hapart (.inl (foundIn_anys n))
  · exact hapart (touch_of_any rfl)

/-- **When the write check isolates tenants**: for a resource, by the kinds of its texts and those
of the caller and the entries; for all resources, when the entries for the action are literal, only
if the caller's own texts do not compile; and for all whose identifiers are literal and of one
length with the caller's and the entries'. -/
theorem isolates_iff (hcond : newResourceCondition rawCondition policyID = .ok cond)
    (hown : cond.requireOwner = true) (action : String) (tenant : Tenant) (domain : Domain)
    (roles : List Role) :
    (∀ resource : Dict, ownerID resource ≠ "" →
      (((Authorization.tenantScoped tenant domain roles).checkAccessToResource cond action
          resource = .ok () → Entitled cond action tenant resource) ↔
        Entitled cond action tenant resource ∨ setsOtherDomain domain resource = true ∨
          ¬TextsCompile tenant resource ∨
          ApartFromCaller tenant resource ∧ ApartFromEntries cond action resource)) ∧
      ((∀ entry ∈ cond.actionTenantFilter.getSlice action, entry.IsLiteral) →
        ((∀ resource : Dict, ownerID resource ≠ "" →
          (Authorization.tenantScoped tenant domain roles).checkAccessToResource cond action
            resource = .ok () → Entitled cond action tenant resource) ↔
          ¬(TextCompiles tenant.id ∧ TextCompiles tenant.name))) ∧
      (textKind tenant.id = .literal → (∀ entry ∈ cond.actionTenantFilter.getSlice action,
        entry.HasLength tenant.id.length) → ∀ resource : Dict,
          textKind (ownerID resource) = .literal →
          (ownerID resource).length = tenant.id.length →
          (Authorization.tenantScoped tenant domain roles).checkAccessToResource cond action
            resource = .ok () → Entitled cond action tenant resource) := by
  refine ⟨fun resource hne ↦ isolates_resource_iff hcond hown hne domain roles,
    fun hliteral ↦ ⟨?_, fun hno resource hne hok ↦ ?_⟩, fun hcaller hentries resource howner
      hlength ↦ isolates_of_hasLength hcond hown hcaller hentries howner hlength domain roles⟩
  -- `.*` stands for the caller's tenant without being it
  · rintro hisolates ⟨hID, hName⟩
    obtain ⟨n, hn⟩ := exists_anys_notMem [tenant.id]
    rcases hisolates (resourceOf (anys (n + 1))) (anys_succ_ne_empty n)
      (checkAccessToResource_anys hcond hown hID hName domain roles n) with
      hsame | ⟨entry, hmem, hadmits⟩
    · exact hn (List.mem_singleton.mpr hsame)
    · cases ((hliteral entry hmem).admits_anys (n + 1)).symm.trans hadmits
  · obtain ⟨-, hcompile, -⟩ := (checkAccessToResource_eq_ok hcond hown hne domain roles).mp hok
    exact absurd ⟨hcompile.callerID, hcompile.callerName⟩ hno

omit [LawfulRegexpEngine] [RegexpEngine] in
/-- The check for a caller, on the resource of a tenant and on all. -/
theorem isolates_own : letI := Re2.engine
    let caller : Tenant := ⟨"acme-1", "one"⟩
    let domain : Domain := ⟨"default", "Default"⟩
    ∃ cond, newResourceCondition [.str "is_owner"] "p" = .ok cond ∧
      (((Authorization.tenantScoped caller domain []).checkAccessToResource cond actionUpdate
          (resourceOf "acme-2") = .ok () →
            Entitled cond actionUpdate caller (resourceOf "acme-2")) ↔
        Entitled cond actionUpdate caller (resourceOf "acme-2") ∨
          setsOtherDomain domain (resourceOf "acme-2") = true ∨
          ¬TextsCompile caller (resourceOf "acme-2") ∨
          ApartFromCaller caller (resourceOf "acme-2") ∧
            ApartFromEntries cond actionUpdate (resourceOf "acme-2")) ∧
      ((∀ resource : Dict, ownerID resource ≠ "" →
          (Authorization.tenantScoped caller domain []).checkAccessToResource cond actionUpdate
            resource = .ok () → Entitled cond actionUpdate caller resource) ↔
        ¬(TextCompiles caller.id ∧ TextCompiles caller.name)) := by
  let _ := Re2.engine
  have _ := Re2.lawful_engine
  refine ⟨_, rfl, ?_⟩
  have hcond : newResourceCondition [.str "is_owner"] "p" = .ok _ := rfl
  obtain ⟨hresource, hall, -⟩ := isolates_iff hcond rfl actionUpdate ⟨"acme-1", "one"⟩
    ⟨"default", "Default"⟩ []
  exact ⟨hresource _ (by decide), hall fun _ hentry ↦ by cases hentry⟩

end Kinds

omit [RegexpEngine] in
/-- A caller may hand a resource to any tenant whose identifier contains its own: `acme-1` is found
in `acme-10`.  The name is the one an update fills in, the caller's. -/
theorem not_isolates_substring : letI := Re2.engine
    let resource : Dict :=
      GoMap.ofList [(tenantIDKey, .str "acme-10"), ("tenant_name", .str "one")]
    ∃ cond, newResourceCondition [.str "is_owner"] "p" = .ok cond ∧
      (Authorization.tenantScoped ⟨"acme-1", "one"⟩ ⟨"default", "Default"⟩ []).checkAccessToResource
        cond actionUpdate resource = .ok () ∧
      ¬ Entitled cond actionUpdate ⟨"acme-1", "one"⟩ resource := by
  refine ⟨_, rfl, by decide +kernel, ?_⟩
  rintro (hown | ⟨entry, hentry, _⟩)
  · exact absurd hown (by decide)
  · cases hentry

end Gohan
