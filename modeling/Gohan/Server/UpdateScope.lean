import Gohan.Server.FilterAgreement
import Gohan.Server.Noninterference

/-!
# Whose rows an update finds

`UpdateResource` asks the policy twice in one transaction.  `getFilterFromPolicy` makes the filter
that decides whether the resource exists for the caller, with the tenants of the `belongs_to`
entries for updating.  Then the row is fetched to be changed, within the tenants and domains that
`UpdateResource` has asked for, and it has asked for those of the entries for reading.

So a row may be there for the first and not for the second.  `findsForUpdate_iff` says when: its
tenant is let in by an entry for updating and neither is the caller's nor let in by one for reading.
The domains are the same for every action.
-/

set_option autoImplicit false

namespace Gohan

variable [RegexpEngine]

/-- The tenants and domains that `UpdateResource` hands on. -/
def updateScope (auth : Authorization) (policy : Policy) (s : Schema) (resourceID : String) :
    GoMap FilterVal :=
  extendFilterByTenantAndDomain s ((∅ : GoMap FilterVal).insert "id" (.value (.str resourceID)))
    actionRead policy.currentResourceCondition auth

/-- How `UpdateResourceInTransaction` fetches the row. -/
def fetchForUpdate (D : Deployment) (auth : Authorization) (policy : Policy) (s : Schema)
    (resourceID : String) (db : Database) : Go Dict := do
  let filter := updateScope auth policy s resourceID
  let lockPolicy ← s.getLockingPolicy "update"
  match lockPolicy with
  | .noLocking => D.fetch db s filter
  | .lockRelatedResources => D.lockFetch db s filter .lockRelatedResources
  | .skipRelatedResources => D.lockFetch db s filter .skipRelatedResources

/-- The related resources are joined. -/
def LockPolicy.joins : LockPolicy → Bool
  | .lockRelatedResources => true
  | _ => false

/-- The resource that a row makes for an operation, with the related ones or without. -/
def readForUpdate (D : Deployment) (s : Schema) (db : Database) (row : Dict) : Go Dict := do
  let lockPolicy ← s.getLockingPolicy "update"
  D.rowResource db s lockPolicy.joins row

/-- The row meets the filter by which the resource is said to exist. -/
def ExistsForUpdate (D : Deployment) (auth : Authorization) (policy : Policy) (s : Schema)
    (resourceID : String) (row : Dict) : Prop :=
  ∃ filter, getFilterFromPolicy auth resourceID s policy actionUpdate = .ok filter ∧
    D.Filtered s filter row

/-- The update finds the row: whatever resource the row makes is what is fetched. -/
def FindsForUpdate (D : Deployment) (auth : Authorization) (policy : Policy) (s : Schema)
    (resourceID : String) (db : Database) (row : Dict) : Prop :=
  ∀ resource, readForUpdate D s db row = .ok resource →
    fetchForUpdate D auth policy s resourceID db = .ok resource

/-- The row is of a tenant, or the schema has no column for it. -/
def OfTenant (E : SqlEngine) (s : Schema) (tenantID : String) (row : Dict) : Prop :=
  Selects E (restriction? s tenantIDKey [tenantID]) row

/-- The row is the caller's, or an entry for reading lets its tenant in.  Without `is_owner` it does
not matter whose it is. -/
def OwnedForReading (E : SqlEngine) (s : Schema) (rc : ResourceCondition) (tenant : Tenant)
    (row : Dict) : Prop :=
  rc.requireOwner = true → OfTenant E s tenant.id row ∨
    ∃ entry ∈ rc.actionTenantFilter.getSlice actionRead, OfTenant E s entry.ID.expr row

/-! ## Scopes -/

section Scope

variable {D : Deployment} {E : SqlEngine} {s : Schema} {row : Dict} {auth : Authorization}
  {rc : ResourceCondition} {policy : Policy} {resourceID action : String}

omit [RegexpEngine] in
/-- A column restricted to some values has one of them. -/
theorem selects_restriction?_iff {key : String} {values : List String} (hne : values ≠ []) :
    Selects E (restriction? s key values) row ↔
      ∃ v ∈ values, Selects E (restriction? s key [v]) row := by
  rw [restriction?]
  simp only [restriction?]
  cases hproperty : s.getPropertyByID key with
  | error e =>
    obtain ⟨v, hv⟩ := List.exists_mem_of_ne_nil values hne
    exact iff_of_true (by simp [Selects]) ⟨v, hv, by simp [Selects]⟩
  | ok property =>
    have hany : ∀ truth : String → Kleene.Truth, Kleene.Truth.any (values.map truth) = .tt ↔
        ∃ v ∈ values, Kleene.Truth.any ([v].map truth) = .tt := by
      intro truth
      simp only [Kleene.Truth.any_eq_tt, List.mem_map, exists_exists_and_eq_and,
        List.mem_singleton, exists_eq_left, exists_eq_left']
    simp only [hne, if_false, List.cons_ne_nil, Selects, List.forall_mem_singleton, Sqlizer.eval,
      parseBoolean]
    split
    · simpa only [SqlEngine.holdsEq, List.map_map] using hany _
    · exact hany _

/-- What asks for an identifier and nothing else. -/
abbrev idFilter (resourceID : String) : GoMap FilterVal :=
  (∅ : GoMap FilterVal).insert "id" (.value (.str resourceID))

/-- A row meets a scope when it has the identifier and meets the restrictions of its columns. -/
theorem filtered_scope_iff :
    D.Filtered s (extendFilterByTenantAndDomain s (idFilter resourceID) action rc auth) row ↔
      D.Filtered s (idFilter resourceID) row ∧
      Selects D.server.toSqlEngine (restriction? s domainIDKey
        (rc.getTenantAndDomainFilters action auth).2) row ∧
      Selects D.server.toSqlEngine (restriction? s tenantIDKey
        (rc.getTenantAndDomainFilters action auth).1) row := by
  have hfresh : ∀ key, key ≠ "id" → key ∉ idFilter resourceID := fun key hne hmem ↦
    ((AList.mem_insert _).mp hmem).elim hne (AList.notMem_empty _)
  have hclause : ∀ clause, addFilterToQuery s (idFilter resourceID) = .ok clause →
      (Selects D.server.toSqlEngine (scopeClause s action rc auth ++ clause) row ↔
        Selects D.server.toSqlEngine clause row ∧
        Selects D.server.toSqlEngine (restriction? s domainIDKey
          (rc.getTenantAndDomainFilters action auth).2) row ∧
        Selects D.server.toSqlEngine (restriction? s tenantIDKey
          (rc.getTenantAndDomainFilters action auth).1) row) := by
    intro clause _
    rw [scopeClause, Selects, List.forall_mem_append, List.forall_mem_append, and_comm]
    rfl
  rw [DB.Filtered, addFilterToQuery_scope (hfresh _ (by decide)) (hfresh _ (by decide))
    (AList.lookup_insert_ne (by decide))]
  constructor
  · rintro ⟨_, hmap, hsel⟩
    obtain ⟨clause, hid, rfl⟩ := Go.map_eq_ok.mp hmap
    obtain ⟨hselid, hrest⟩ := (hclause clause hid).mp hsel
    exact ⟨⟨clause, hid, hselid⟩, hrest⟩
  · rintro ⟨⟨clause, hid, hselid⟩, hrest⟩
    exact ⟨_, Go.map_eq_ok.mpr ⟨clause, hid, rfl⟩, (hclause clause hid).mpr ⟨hselid, hrest⟩⟩

theorem mem_scope {key : String}
    (h : key ∈ extendFilterByTenantAndDomain s (idFilter resourceID) action rc auth) :
    key = domainIDKey ∨ key = tenantIDKey ∨ key = "id" := by
  rcases mem_restrictTo h with h | h
  · exact .inl h
  · refine .inr ((mem_restrictTo h).imp_right fun h ↦ ?_)
    exact ((AList.mem_insert _).mp h).resolve_right (AList.notMem_empty _)

/-- What meets the filter of a policy meets its scope. -/
theorem filtered_scope_of_policy {filter : GoMap FilterVal}
    (hfilter : getFilterFromPolicy auth resourceID s policy action = .ok filter)
    (h : D.Filtered s filter row) : D.Filtered s (extendFilterByTenantAndDomain s
      (idFilter resourceID) action policy.currentResourceCondition auth) row := by
  obtain ⟨scope, hscope⟩ : ∃ scope, scope = extendFilterByTenantAndDomain s
      (idFilter resourceID) action policy.currentResourceCondition auth := ⟨_, rfl⟩
  rw [getFilterFromPolicy, ResourceCondition.addCustomFilters, addCustomFilters.eq_def,
    ← hscope] at hfilter
  rw [← hscope]
  split at hfilter
  · obtain rfl := Except.ok.inj hfilter
    exact h
  · next block hblock =>
    -- the entry of the block comes on top of the scope
    obtain ⟨filters, -, hfilters⟩ := Go.bind_eq_ok.mp hfilter
    obtain rfl := Except.ok.inj hfilters
    have hkey : block.filterType.key ∉ scope ∧ block.filterType.key ≠ boolCondition := by
      rw [hscope]
      cases block.filterType <;> exact ⟨fun hmem ↦ absurd (mem_scope hmem) (by decide), by decide⟩
    have hlist : GoMap.toList (scope.insert block.filterType.key (.elems filters)) =
        (block.filterType.key, .elems filters) :: scope.toList := by
      rw [GoMap.toList, AList.entries_insert_of_notMem hkey.1]
      rfl
    obtain ⟨_, hclause, hsel⟩ := h
    rw [addFilterToQuery, hlist, addKeys] at hclause
    obtain ⟨part, -, hclause⟩ := Go.bind_eq_ok.mp hclause
    obtain ⟨clause, hrest, hparts⟩ := Go.bind_eq_ok.mp hclause
    obtain rfl := Except.ok.inj hparts
    refine ⟨clause, ?_, fun part hmem ↦ hsel part (List.mem_cons_of_mem _ hmem)⟩
    rw [addFilterToQuery, ← hrest]
    exact addKeys_congr (AList.lookup_insert_ne hkey.2.symm).symm _

end Scope

/-! ## The two filters of an update -/

variable {D : Deployment} {s : Schema} {row : Dict} {auth : Authorization} {policy : Policy}
  {resourceID : String} {db : Database} {tenant : Tenant} {domain : Domain} {roles : List Role}

/-- What an update fetches, under any locking policy. -/
theorem fetchForUpdate_eq_ok {resource : Dict} (hkeyed : D.Keyed s resourceID db) :
    fetchForUpdate D auth policy s resourceID db = .ok resource ↔
      ∃ row ∈ D.rowsUnder db s resourceID,
        D.Filtered s (updateScope auth policy s resourceID) row ∧
          readForUpdate D s db row = .ok resource := by
  have hscope : AsksFor (updateScope auth policy s resourceID) resourceID := asksFor_scope
  simp only [fetchForUpdate, readForUpdate]
  cases s.getLockingPolicy "update" with
  | error fault =>
    refine iff_of_false (fun h ↦ by cases h) ?_
    rintro ⟨_, -, -, h⟩
    cases h
  | ok lockPolicy =>
    simp only [Go.ok_bind]
    cases lockPolicy with
    | noLocking => exact DB.fetch_eq_ok hkeyed hscope
    | lockRelatedResources => exact DB.lockFetch_eq_ok rfl hkeyed hscope
    | skipRelatedResources => exact DB.lockFetch_eq_ok rfl hkeyed hscope

/-- The row of the identifier is found when it is within the scope. -/
theorem findsForUpdate_iff_filtered (hkeyed : D.Keyed s resourceID db)
    (hrow : row ∈ D.rowsUnder db s resourceID) :
    FindsForUpdate D auth policy s resourceID db row ↔
      ((∃ resource, readForUpdate D s db row = .ok resource) →
        D.Filtered s (updateScope auth policy s resourceID) row) := by
  constructor
  · rintro h ⟨resource, hread⟩
    obtain ⟨row', hrow', hfiltered, -⟩ := (fetchForUpdate_eq_ok hkeyed).mp (h resource hread)
    rwa [hkeyed row hrow row' hrow']
  · exact fun h resource hread ↦
      (fetchForUpdate_eq_ok hkeyed).mpr ⟨row, hrow, h ⟨resource, hread⟩, hread⟩

/-- The tenants of a caller with `is_owner` are its own and those of the entries. -/
theorem selects_tenants_iff {E : SqlEngine} {rc : ResourceCondition} {action : String} :
    Selects E (restriction? s tenantIDKey
        (rc.getTenantAndDomainFilters action (.tenantScoped tenant domain roles)).1) row ↔
      (rc.requireOwner = true → OfTenant E s tenant.id row ∨
        ∃ entry ∈ rc.actionTenantFilter.getSlice action, OfTenant E s entry.ID.expr row) := by
  cases howner : rc.requireOwner with
  | false =>
    have hnone : (rc.getTenantAndDomainFilters action (.tenantScoped tenant domain roles)).1 =
        [] := by
      rw [ResourceCondition.getTenantAndDomainFilters, ResourceCondition.requireTenantCheck, howner]
      split <;> rfl
    rw [hnone, restriction?]
    split <;> simp [Selects]
  | true =>
    have htenants : (rc.getTenantAndDomainFilters action (.tenantScoped tenant domain roles)).1 =
        (rc.actionTenantFilter.getSlice action).map (·.ID.expr) ++ [tenant.id] := by
      rw [ResourceCondition.getTenantAndDomainFilters, ResourceCondition.requireTenantCheck, howner]
      rfl
    rw [htenants, selects_restriction?_iff (by simp), forall_prop_of_true rfl]
    simp only [List.mem_append, List.mem_map, List.mem_singleton, or_and_right, exists_or,
      exists_eq_left, exists_exists_and_eq_and]
    exact or_comm

/-- The domains are the same for every action. -/
theorem getTenantAndDomainFilters_snd (rc : ResourceCondition) (action action' : String)
    (auth : Authorization) : (rc.getTenantAndDomainFilters action auth).2 =
      (rc.getTenantAndDomainFilters action' auth).2 := by
  cases auth <;> rw [ResourceCondition.getTenantAndDomainFilters,
    ResourceCondition.getTenantAndDomainFilters] <;> split <;> rfl

/-- **When an update finds the row that it has said to exist.**  For every policy, caller of a
tenant and row under the identifier that meets the filter for updating: the update finds the row
exactly when the row is the caller's or an entry for reading lets its tenant in, unless the row
cannot be read at all. -/
theorem findsForUpdate_iff (hkeyed : D.Keyed s resourceID db)
    (hrow : row ∈ D.rowsUnder db s resourceID)
    (hexists : ExistsForUpdate D (.tenantScoped tenant domain roles) policy s resourceID row) :
    FindsForUpdate D (.tenantScoped tenant domain roles) policy s resourceID db row ↔
      ((∃ resource, readForUpdate D s db row = .ok resource) →
        OwnedForReading D.server.toSqlEngine s policy.currentResourceCondition tenant row) := by
  obtain ⟨filter, hfilter, hfiltered⟩ := hexists
  obtain ⟨hid, hdomain, -⟩ := filtered_scope_iff.mp (filtered_scope_of_policy hfilter hfiltered)
  rw [findsForUpdate_iff_filtered hkeyed hrow, updateScope, filtered_scope_iff, OwnedForReading,
    getTenantAndDomainFilters_snd _ actionRead actionUpdate, selects_tenants_iff]
  simp only [hid, hdomain, true_and]

/-! ## A tenant that lends its servers -/

/-- A policy for all actions on the caller's own servers, and for updating those of another
tenant. -/
def lendingPolicy : Value := .map [("id", .str "lend"), ("principal", .str "Member"),
  ("action", .str "*"), ("effect", .str "allow"),
  ("resource", .map [("path", .str "/v2.0/servers")]),
  ("condition", .list [.str "is_owner", .map [("type", .str "belongs_to"),
    ("action", .str actionUpdate), ("tenant_id", .str "acme-2")]])]

/-- A server of another tenant. -/
def lentServer : Dict :=
  GoMap.ofList [("id", .str "s3"), (tenantIDKey, .str "acme-2"), ("state", .str "UP")]

/-- A server of the caller and one of another tenant. -/
def lentServers : Database := fun _ ↦ ⟨[upServer, lentServer], by decide⟩

/-- The check that a row meets the filter for updating. -/
def existsForUpdate (D : Deployment) (auth : Authorization) (policy : Policy) (s : Schema)
    (resourceID : String) (row : Dict) : Go Bool := do
  let filter ← getFilterFromPolicy auth resourceID s policy actionUpdate
  let clause ← addFilterToQuery s filter
  .ok (decide (Selects D.server.toSqlEngine clause row))

theorem ExistsForUpdate.of_eq_ok
    (h : existsForUpdate D auth policy s resourceID row = .ok true) :
    ExistsForUpdate D auth policy s resourceID row := by
  obtain ⟨filter, hfilter, h⟩ := Go.bind_eq_ok.mp h
  obtain ⟨clause, hclause, h⟩ := Go.bind_eq_ok.mp h
  exact ⟨filter, hfilter, clause, hclause, of_decide_eq_true (Except.ok.inj h)⟩

omit [RegexpEngine] in
/-- The caller's own server. -/
theorem findsForUpdate_own : letI := Re2.engine
    ∃ policy, newPolicy lendingPolicy = .ok policy ∧
      (FindsForUpdate (serverDeployment policy) member policy serverSchema "s1" lentServers
          upServer ↔
        ((∃ resource, readForUpdate (serverDeployment policy) serverSchema lentServers upServer =
            .ok resource) →
          OwnedForReading exactEngine serverSchema policy.currentResourceCondition
            ⟨"acme-1", "one"⟩ upServer)) := by
  let _ := Re2.engine
  obtain ⟨policy, hpolicy, hkeyed, hrow, hexists⟩ : ∃ policy,
      newPolicy lendingPolicy = .ok policy ∧
        (serverDeployment policy).Keyed serverSchema "s1" lentServers ∧
        upServer ∈ (serverDeployment policy).rowsUnder lentServers serverSchema "s1" ∧
        existsForUpdate (serverDeployment policy) member policy serverSchema "s1" upServer =
          .ok true := Go.exists_of_map_decide (by decide +kernel)
  exact ⟨policy, hpolicy, findsForUpdate_iff hkeyed hrow (.of_eq_ok hexists)⟩

omit [RegexpEngine] in
/-- A server that the caller may update and not read exists for the update, and is not found by
it. -/
theorem not_findsForUpdate_lent : letI := Re2.engine
    ∃ policy, newPolicy lendingPolicy = .ok policy ∧
      ExistsForUpdate (serverDeployment policy) member policy serverSchema "s3" lentServer ∧
      lentServer ∈ (serverDeployment policy).rowsUnder lentServers serverSchema "s3" ∧
      fetchForUpdate (serverDeployment policy) member policy serverSchema "s3" lentServers =
        .error errResourceNotFound ∧
      ¬FindsForUpdate (serverDeployment policy) member policy serverSchema "s3" lentServers
        lentServer := by
  let _ := Re2.engine
  obtain ⟨policy, hpolicy, hexists, hrow, hfetch, hread⟩ : ∃ policy,
      newPolicy lendingPolicy = .ok policy ∧
        existsForUpdate (serverDeployment policy) member policy serverSchema "s3" lentServer =
          .ok true ∧
        lentServer ∈ (serverDeployment policy).rowsUnder lentServers serverSchema "s3" ∧
        fetchForUpdate (serverDeployment policy) member policy serverSchema "s3" lentServers =
          .error errResourceNotFound ∧
        readForUpdate (serverDeployment policy) serverSchema lentServers lentServer =
          .ok lentServer := Go.exists_of_map_decide (by decide +kernel)
  refine ⟨policy, hpolicy, .of_eq_ok hexists, hrow, hfetch, fun h ↦ ?_⟩
  rw [h _ hread] at hfetch
  cases hfetch

end Gohan
