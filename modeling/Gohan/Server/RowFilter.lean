import Gohan.Db.Custom
import Gohan.Server.List

/-!
# The tenant filter and the tenant check

A condition keeps tenants apart twice.  Before the database is asked, `GetTenantAndDomainFilters`
restricts the tenant and the domain column of the query; when a resource is at hand,
`checkAccessToResource` holds it against the caller.  The two read the same `belongs_to` entries
and are meant for the same rows.

About the domain they agree.  About the tenant the filter compares texts: the caller's identifier
and the *printed* identifier expressions of the entries, as values of the column.  The check
compares matchers, on identifiers and names, with the two-sided test.  `rowFilter_agrees_iff` says
for which rows that comes to the same, by the kinds of the texts, and for whom it does for all
rows: with `is_owner` for hardly any tenant-scoped caller, since a row of a tenant `.*` passes the
check of all whose texts compile, and the filter of none.
-/

set_option autoImplicit false

namespace Gohan

/-- The database compares two strings by equality. -/
structure SqlEngine.ExactStrings (E : SqlEngine) : Prop where
  eq_str : ∀ a b : String, E.eq (.str a) (.str b) = .tt ↔ a = b

theorem exactStrings_exactEngine : exactEngine.ExactStrings where
  eq_str a b := by simp [exactEngine]

/-- The schema has a column, and it is not a boolean one. -/
def Schema.HasColumn (s : Schema) (key : String) : Prop :=
  ∃ property, s.getPropertyByID key = .ok property ∧ property.type ≠ "boolean"

/-- The row passes the filter of a condition for an action. -/
def PassesRowFilter [RegexpEngine] (E : SqlEngine) (s : Schema) (action : String)
    (cond : ResourceCondition) (auth : Authorization) (row : Dict) : Prop :=
  ∃ clause, addFilterToQuery s (extendFilterByTenantAndDomain s ∅ action cond auth) = .ok clause ∧
    Selects E clause row

variable {E : SqlEngine} {s : Schema}

/-- A column of strings restricted to some values. -/
theorem selects_restriction? (hE : E.ExactStrings) {key v : String} (hs : s.HasColumn key)
    {row : Dict} (hv : row.get key = .str v) {values : List String} :
    Selects E (restriction? s key values) row ↔ values = [] ∨ v ∈ values := by
  obtain ⟨property, hproperty, htype⟩ := hs
  rw [restriction?, hproperty]
  by_cases hvalues : values = []
  · simp [hvalues, Selects]
  · have heval : (Sqlizer.eq key (parseBoolean property.type (.strs values))).eval E row = .tt ↔
        v ∈ values := by
      simp [parseBoolean, htype, Sqlizer.eval, hv, SqlEngine.holdsEq, Kleene.Truth.any_eq_tt,
        hE.eq_str]
    simp only [hvalues, if_false, false_or, Selects, List.forall_mem_singleton, heval]

variable [RegexpEngine] {cond : ResourceCondition} {action : String} {auth : Authorization}
  {row : Dict}

/-- The filter of a condition is its scope and nothing else. -/
theorem passesRowFilter_iff :
    PassesRowFilter E s action cond auth row ↔ Selects E (scopeClause s action cond auth) row := by
  have hscope : addFilterToQuery s (extendFilterByTenantAndDomain s ∅ action cond auth) =
      .ok (scopeClause s action cond auth) := by
    rw [addFilterToQuery_scope (AList.notMem_empty _) (AList.notMem_empty _) rfl]
    simp [addFilterToQuery, GoMap.toList, addKeys, Except.map]
  rw [PassesRowFilter, hscope]
  simp

/-- The filter of a condition, on a row with a tenant and a domain. -/
theorem passesRowFilter_iff_mem (hE : E.ExactStrings) (htenant : s.HasColumn tenantIDKey)
    (hdomain : s.HasColumn domainIDKey) {tenantID domainID : String}
    (ht : row.get tenantIDKey = .str tenantID) (hd : row.get domainIDKey = .str domainID) :
    PassesRowFilter E s action cond auth row ↔
      ((cond.getTenantAndDomainFilters action auth).2 = [] ∨
        domainID ∈ (cond.getTenantAndDomainFilters action auth).2) ∧
      ((cond.getTenantAndDomainFilters action auth).1 = [] ∨
        tenantID ∈ (cond.getTenantAndDomainFilters action auth).1) := by
  rw [passesRowFilter_iff, scopeClause, Selects, List.forall_mem_append, ← Selects, ← Selects,
    selects_restriction? hE hdomain hd, selects_restriction? hE htenant ht]

/-- The filter names the tenant: it is the caller's identifier, or what is printed of the identifier
expression of an entry. -/
def ListedTenant (cond : ResourceCondition) (action : String) (tenant : Tenant)
    (tenantID : String) :
    Prop :=
  tenantID = tenant.id ∨ ∃ entry ∈ cond.actionTenantFilter.getSlice action, entry.ID.expr = tenantID

/-- How filter and check come to take the tenant of a row alike. -/
inductive TenantsAgree (cond : ResourceCondition) (action : String) (tenant : Tenant)
    (row : Dict) : Prop
  /-- The filter names the tenant, and its texts touch the caller's. -/
  | caller (hlisted : ListedTenant cond action tenant (ownerID row))
      (hcompile : TextsCompile tenant row) (hmet : ¬ApartFromCaller tenant row)
  /-- The filter names the tenant, and an entry admits it or has its text. -/
  | entry (hlisted : ListedTenant cond action tenant (ownerID row))
      (hcompile : TextsCompile tenant row) (entry : AllowedTenant)
      (hmem : entry ∈ cond.actionTenantFilter.getSlice action)
      (hmet : entry.admits (ownerID row) (ownerName row) = true ∨
        entry.Strays (ownerID row) (ownerName row))
  /-- The filter does not name the tenant, and there is a text that does not compile. -/
  | uncompiled (hlisted : ¬ListedTenant cond action tenant (ownerID row))
      (hfails : ¬TextsCompile tenant row)
  /-- The filter does not name the tenant, and it is apart from the caller and from the entries. -/
  | apart (hlisted : ¬ListedTenant cond action tenant (ownerID row))
      (hcaller : ApartFromCaller tenant row) (hentries : ApartFromEntries cond action row)
      (hadmits : ∀ entry ∈ cond.actionTenantFilter.getSlice action,
        entry.admits (ownerID row) (ownerName row) = false)

/-- Where filter and check agree about a row of a domain. -/
def RowAgrees (cond : ResourceCondition) (action domainID : String) (row : Dict) :
    Authorization → Prop
  | .tenantScoped tenant domain _ => cond.requireOwner = true → domainID = domain.id →
      TenantsAgree cond action tenant row
  | _ => True

/-- Where filter and check agree about all rows. -/
def AgreesThroughout (cond : ResourceCondition) (action : String) : Authorization → Prop
  | .tenantScoped tenant domain _ => cond.requireOwner = true → domain.id ≠ "" →
      tenant.id = "" ∧ ¬TextCompiles tenant.name ∧ cond.actionTenantFilter.getSlice action = []
  | _ => True

/-- A row of a tenant in a domain. -/
structure RowOf (tenantID domainID : String) (row : Dict) : Prop where
  tenant : row.get tenantIDKey = .str tenantID
  domain : row.get domainIDKey = .str domainID
  tenant_ne : tenantID ≠ ""
  domain_ne : domainID ≠ ""

omit [RegexpEngine] in
theorem RowOf.ownerID {tenantID domainID : String} (h : RowOf tenantID domainID row) :
    ownerID row = tenantID := by
  rw [Gohan.ownerID, h.tenant]
  rfl

omit [RegexpEngine] in
theorem setsOtherDomain_eq_false {domain : Domain} {domainID : String}
    (hd : row.get domainIDKey = .str domainID) :
    setsOtherDomain domain row = false ↔ domainID = domain.id := by
  rw [setsOtherDomain, hd, eq_comm (a := domainID)]
  simp [Value.string?]

section Kinds

variable [LawfulRegexpEngine] {rawCondition : List Value} {policyID tenantID domainID : String}

/-- **What the check accepts** of the rows of the caller's domain. -/
theorem tenantsAgree_iff (hcond : newResourceCondition rawCondition policyID = .ok cond)
    (hown : cond.requireOwner = true) {tenant : Tenant} {domain : Domain} {roles : List Role}
    (hrow : RowOf tenantID domain.id row) :
    (ListedTenant cond action tenant tenantID ↔
        (Authorization.tenantScoped tenant domain roles).checkAccessToResource cond action row =
          .ok ()) ↔ TenantsAgree cond action tenant row := by
  obtain rfl := hrow.ownerID
  have hdomain : setsOtherDomain domain row = false :=
    (setsOtherDomain_eq_false hrow.domain).mpr rfl
  rw [checkAccessToResource_eq_ok hcond hown hrow.tenant_ne, and_iff_right hdomain]
  constructor
  · intro h
    by_cases hlisted : ListedTenant cond action tenant (ownerID row)
    · obtain ⟨hcompile, hmet | ⟨entry, hmem, hmet⟩⟩ := h.mp hlisted
      · exact .caller hlisted hcompile hmet
      · exact .entry hlisted hcompile entry hmem hmet
    · by_cases hcompile : TextsCompile tenant row
      · have hno := mt (fun hmet ↦ h.mpr ⟨hcompile, hmet⟩) hlisted
        rw [not_or, not_not, not_exists] at hno
        exact .apart hlisted hno.1 (fun entry hmem hstrays ↦ hno.2 entry ⟨hmem, .inr hstrays⟩)
          fun entry hmem ↦ Bool.eq_false_iff.mpr fun hadmits ↦ hno.2 entry ⟨hmem, .inl hadmits⟩
      · exact .uncompiled hlisted hcompile
  · intro h
    cases h with
    | caller hlisted hcompile hmet => exact iff_of_true hlisted ⟨hcompile, .inl hmet⟩
    | entry hlisted hcompile entry hmem hmet =>
      exact iff_of_true hlisted ⟨hcompile, .inr ⟨entry, hmem, hmet⟩⟩
    | uncompiled hlisted hfails => exact iff_of_false hlisted fun hmet ↦ hfails hmet.1
    | apart hlisted hcaller hentries hadmits =>
      refine iff_of_false hlisted ?_
      rintro ⟨-, hmet | ⟨entry, hmem, hmet | hmet⟩⟩
      · exact hmet hcaller
      · cases (hadmits entry hmem).symm.trans hmet
      · exact hentries entry hmem hmet

/-- **For one row**: the filter and the check agree exactly when the tenant is named and met, or
neither. -/
theorem rowFilter_agrees_row (hE : E.ExactStrings) (htenant : s.HasColumn tenantIDKey)
    (hdomain : s.HasColumn domainIDKey)
    (hcond : newResourceCondition rawCondition policyID = .ok cond)
    (hcheck : cond.requireDomainCheck = true) (hrow : RowOf tenantID domainID row) :
    (PassesRowFilter E s action cond auth row ↔
        auth.checkAccessToResource cond action row = .ok ()) ↔
      RowAgrees cond action domainID row auth := by
  rw [passesRowFilter_iff_mem hE htenant hdomain hrow.tenant hrow.domain]
  cases auth with
  | admin tenant domain roles =>
    have hfilters : cond.getTenantAndDomainFilters action (.admin tenant domain roles) =
        ([], []) := by
      simp [ResourceCondition.getTenantAndDomainFilters, Authorization.getTenantAndDomainFilters]
    simp [hfilters, Authorization.checkAccessToResource, RowAgrees]
  | domainScoped domain roles =>
    have hfilters : cond.getTenantAndDomainFilters action (.domainScoped domain roles) =
        ([], [domain.id]) := by
      simp [ResourceCondition.getTenantAndDomainFilters, Authorization.getTenantAndDomainFilters,
        hcheck]
    simp [hfilters, Authorization.checkAccessToResource, RowAgrees, hcheck, checkDomainAccess_eq_ok,
      setsOtherDomain_eq_false hrow.domain]
  | tenantScoped tenant domain roles =>
    have hfilters : cond.getTenantAndDomainFilters action (.tenantScoped tenant domain roles) =
        (if cond.requireOwner then
          (cond.actionTenantFilter.getSlice action).map (·.ID.expr) ++ [tenant.id] else [],
          [domain.id]) := by
      simp [ResourceCondition.getTenantAndDomainFilters, Authorization.getTenantAndDomainFilters,
        hcheck, ResourceCondition.requireTenantCheck]
      rfl
    rw [hfilters, RowAgrees]
    cases hown : cond.requireOwner with
    | false =>
      simp [Authorization.checkAccessToResource, ResourceCondition.requireTenantCheck, hown, hcheck,
        checkDomainAccess_eq_ok, setsOtherDomain_eq_false hrow.domain]
    | true =>
      have hlisted : tenantID ∈ (cond.actionTenantFilter.getSlice action).map (·.ID.expr) ++
          [tenant.id] ↔ ListedTenant cond action tenant tenantID := by
        simp [ListedTenant, or_comm]
      simp only [if_true, hlisted, List.mem_singleton, List.cons_ne_nil, List.append_eq_nil_iff,
        and_false, false_or, forall_true_left]
      by_cases hsame : domainID = domain.id
      · subst hsame
        rw [and_iff_right rfl, tenantsAgree_iff hcond hown hrow]
        exact ⟨fun h _ ↦ h, fun h ↦ h rfl⟩
      · -- neither lets a row of another domain through
        refine iff_of_true (iff_of_false (fun h ↦ hsame h.1) fun h ↦ ?_) fun h ↦ absurd h hsame
        have hdom := ((checkAccessToResource_eq_ok hcond hown
          (hrow.ownerID ▸ hrow.tenant_ne) domain roles).mp h).1
        exact hsame ((setsOtherDomain_eq_false hrow.domain).mp hdom)

/-- A row of a tenant, and nothing more. -/
def rowOf (tenantID domainID : String) : Dict :=
  GoMap.ofList [(tenantIDKey, .str tenantID), (domainIDKey, .str domainID)]

omit [RegexpEngine] [LawfulRegexpEngine] in
theorem rowOf_rowOf (htenant : tenantID ≠ "") (hdomain : domainID ≠ "") :
    RowOf tenantID domainID (rowOf tenantID domainID) := ⟨rfl, rfl, htenant, hdomain⟩

omit [LawfulRegexpEngine] in
/-- A tenant that the filter names is not met where the caller's texts do not compile. -/
theorem TenantsAgree.not_listed {tenant : Tenant} (h : TenantsAgree cond action tenant row)
    (hfails : ¬(TextCompiles tenant.id ∧ TextCompiles tenant.name)) :
    ¬ListedTenant cond action tenant (ownerID row) := by
  cases h with
  | caller _ hcompile _ => exact absurd ⟨hcompile.callerID, hcompile.callerName⟩ hfails
  | entry _ hcompile _ _ _ => exact absurd ⟨hcompile.callerID, hcompile.callerName⟩ hfails
  | uncompiled hlisted _ => exact hlisted
  | apart hlisted _ _ _ => exact hlisted

/-- **For all rows**: there is always a tenant of `.*` that passes the check of a caller whose texts
compile, and that no filter names; and where they do not compile, the tenants that the filter names
do not pass. -/
theorem rowFilter_agrees_throughout
    (hcond : newResourceCondition rawCondition policyID = .ok cond) :
    (∀ (row : Dict) (tenantID domainID : String), RowOf tenantID domainID row →
      RowAgrees cond action domainID row auth) ↔ AgreesThroughout cond action auth := by
  cases auth with
  | admin tenant domain roles => exact iff_of_true (fun _ _ _ _ ↦ trivial) trivial
  | domainScoped domain roles => exact iff_of_true (fun _ _ _ _ ↦ trivial) trivial
  | tenantScoped tenant domain roles =>
    constructor
    · intro h hown hdomain
      have hagree : ∀ tenantID, tenantID ≠ "" →
          TenantsAgree cond action tenant (rowOf tenantID domain.id) :=
        fun tenantID hne ↦ h _ _ _ (rowOf_rowOf hne hdomain) hown rfl
      have hfails : ¬(TextCompiles tenant.id ∧ TextCompiles tenant.name) := by
        rintro ⟨hID, hName⟩
        obtain ⟨n, hn⟩ := exists_anys_notMem
          (tenant.id :: (cond.actionTenantFilter.getSlice action).map (·.ID.expr))
        have hlisted : ¬ListedTenant cond action tenant (anys (n + 1)) := by
          rintro (heq | ⟨entry, hmem, heq⟩)
          · exact hn (List.mem_cons.mpr (.inl heq))
          · exact hn (List.mem_cons_of_mem _ (List.mem_map.mpr ⟨entry, hmem, heq⟩))
        cases hagree (anys (n + 1)) (anys_succ_ne_empty n) with
        | caller h _ _ => exact hlisted h
        | entry h _ _ _ _ => exact hlisted h
        | uncompiled _ hno =>
          exact hno ⟨hID, hName, textCompiles_anys n, fun hkind ↦ by cases hkind⟩
        | apart _ hcaller _ _ =>
          rcases hcaller with hapart | hapart
          · exact hapart (.inl (foundIn_anys n))
          · exact hapart (touch_of_any rfl)
      have hempty : tenant.id = "" := by
        by_contra hne
        exact (hagree tenant.id hne).not_listed hfails (.inl rfl)
      refine ⟨hempty, fun hName ↦ hfails ⟨?_, hName⟩, List.eq_nil_iff_forall_not_mem.mpr
        fun entry hmem ↦ ?_⟩
      · rw [hempty]
        exact fun hkind ↦ by cases hkind
      · obtain ⟨_, hread⟩ := belongsToTenant_of_newResourceCondition hcond hmem
        exact (hagree _ (expr_ne_of_belongsToTenant hread)).not_listed hfails
          (.inr ⟨entry, hmem, rfl⟩)
    · intro h row tenantID domainID hrow hown hsame
      obtain ⟨hempty, hName, hnone⟩ := h hown (hsame ▸ hrow.domain_ne)
      refine .uncompiled ?_ fun hcompile ↦ hName hcompile.callerName
      rintro (heq | ⟨entry, hmem, -⟩)
      · rw [hrow.ownerID, hempty] at heq
        exact hrow.tenant_ne heq
      · rw [hnone] at hmem
        cases hmem

/-- **When the filter and the check agree**, for every condition with `is_owner` or
`is_domain_owner`, every caller and action: about a row, when its tenant is named by the filter and
met by the check, or neither, by the kinds of the texts; and about all rows, when the condition has
no `is_owner` or the caller is not scoped to a tenant. -/
theorem rowFilter_agrees_iff (hE : E.ExactStrings) (htenant : s.HasColumn tenantIDKey)
    (hdomain : s.HasColumn domainIDKey)
    (hcond : newResourceCondition rawCondition policyID = .ok cond)
    (hcheck : cond.requireDomainCheck = true) (action : String) (auth : Authorization) :
    (∀ (row : Dict) (tenantID domainID : String), RowOf tenantID domainID row →
      ((PassesRowFilter E s action cond auth row ↔
          auth.checkAccessToResource cond action row = .ok ()) ↔
        RowAgrees cond action domainID row auth)) ∧
      ((∀ (row : Dict) (tenantID domainID : String), RowOf tenantID domainID row →
        (PassesRowFilter E s action cond auth row ↔
          auth.checkAccessToResource cond action row = .ok ())) ↔
        AgreesThroughout cond action auth) := by
  have hrows : ∀ (row : Dict) (tenantID domainID : String), RowOf tenantID domainID row →
      ((PassesRowFilter E s action cond auth row ↔
          auth.checkAccessToResource cond action row = .ok ()) ↔
        RowAgrees cond action domainID row auth) :=
    fun row tenantID domainID hrow ↦
      rowFilter_agrees_row hE htenant hdomain hcond hcheck hrow
  refine ⟨hrows, ?_⟩
  rw [← rowFilter_agrees_throughout hcond]
  exact forall_congr' fun row ↦ forall_congr' fun tenantID ↦ forall_congr' fun domainID ↦
    forall_congr' fun hrow ↦ hrows row tenantID domainID hrow

end Kinds

/-- A table with a tenant and a domain. -/
def volumeSchema : Schema where
  id := "volume"
  singular := "volume"
  plural := "volumes"
  url := "/v2.0/volumes"
  properties := [{ id := "id" }, { id := tenantIDKey }, { id := domainIDKey }]

omit [RegexpEngine] in
theorem hasColumn_volume :
    volumeSchema.HasColumn tenantIDKey ∧ volumeSchema.HasColumn domainIDKey :=
  ⟨⟨_, rfl, by decide⟩, _, rfl, by decide⟩

omit [RegexpEngine] in
/-- Filter and check on a volume of the caller's own tenant, and on all. -/
theorem rowFilter_agrees_own : letI := Re2.engine
    ∃ cond, newResourceCondition [.str "is_owner"] "p" = .ok cond ∧
      ((PassesRowFilter exactEngine volumeSchema actionRead cond member (rowOf "acme-1" "default") ↔
          member.checkAccessToResource cond actionRead (rowOf "acme-1" "default") = .ok ()) ↔
        RowAgrees cond actionRead "default" (rowOf "acme-1" "default") member) ∧
      ((∀ (row : Dict) (tenantID domainID : String), RowOf tenantID domainID row →
        (PassesRowFilter exactEngine volumeSchema actionRead cond member row ↔
          member.checkAccessToResource cond actionRead row = .ok ())) ↔
        AgreesThroughout cond actionRead member) := by
  let _ := Re2.engine
  have _ := Re2.lawful_engine
  have hcond : newResourceCondition [.str "is_owner"] "p" = .ok _ := rfl
  obtain ⟨hrow, hall⟩ := rowFilter_agrees_iff exactStrings_exactEngine hasColumn_volume.1
    hasColumn_volume.2 hcond rfl actionRead member
  exact ⟨_, hcond, hrow _ _ _ (rowOf_rowOf (by decide) (by decide)), hall⟩

omit [RegexpEngine] in
/-- A volume of `acme-10` passes the check for `acme-1`, and not the filter. -/
theorem rowFilter_disagrees : letI := Re2.engine
    ∃ cond, newResourceCondition [.str "is_owner"] "p" = .ok cond ∧
      member.checkAccessToResource cond actionRead (rowOf "acme-10" "default") = .ok () ∧
      ¬ PassesRowFilter exactEngine volumeSchema actionRead cond member
        (rowOf "acme-10" "default") := by
  let _ := Re2.engine
  refine ⟨_, rfl, by decide +kernel, fun h ↦ ?_⟩
  rw [passesRowFilter_iff] at h
  exact absurd h (by decide)

end Gohan
