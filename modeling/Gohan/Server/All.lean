import Gohan.Server.Admission

/-!
# `/_all`

`GET /_all` lists the resources of every schema the caller has a read policy for.  It goes its own
way to the database: the filter is the one made from the query parameters, and neither the scope of
the policy nor its `and` and `or` blocks are added to it.  Only what is done to the rows afterwards
is the same as in a plural GET, the property conditions and the hiding of properties.

`getAll_within_plural_iff` says when the answer shows nothing beyond what the plural GETs of the
schemas show.  It holds the rows `/_all` lists, those that have what the parameters ask for and pass
the property conditions, against what a plural GET asks of the request (`TakesRequest`) and of a row
(`AdmitsRow`); and it says which policies and queries make that come to the same in every database.
-/

set_option autoImplicit false

namespace Gohan

variable [RegexpEngine]

/-- What `/_all` finds for one schema, if the caller has a policy for it. -/
def getAllOf (D : Deployment) (db : Database) (auth : Authorization) (queryParameters : UrlQuery)
    (s : Schema) : Go (Option (List Dict)) :=
  match policyValidate actionRead s.getPluralURL auth D.policies with
  | none => .ok none
  | some (policy, _) => do
    let (list, _) ← getResources D db s (filterFromQueryParameter s queryParameters)
      queryParameters none
    let data ← applyPolicyForResources policy list
    .ok (some data)

/-- The loop over the schemas: what is assigned to `responses`, schema by schema. -/
def getAllLoop (D : Deployment) (db : Database) (auth : Authorization)
    (queryParameters : UrlQuery) : List Schema → Go (List (Schema × List Dict))
  | [] => .ok []
  | s :: schemas => do
    let data ← getAllOf D db auth queryParameters s
    let entries ← getAllLoop D db auth queryParameters schemas
    .ok ((data.map fun data ↦ (s, data)).toList ++ entries)

/-- The handler of `/_all`, over the schemas in the order they are visited. -/
def getAll (D : Deployment) (db : Database) (auth : Authorization) (queryParameters : UrlQuery) :
    Go (List (Schema × List Dict)) :=
  getAllLoop D db auth queryParameters D.schemas

/-- The map that is served: the lists under the names of the tables. -/
def responses (D : Deployment) (entries : List (Schema × List Dict)) : GoMap (List Dict) :=
  GoMap.ofList (entries.map fun e ↦ (e.1.getDbTableName D.legacy, e.2))

variable {D : Deployment} {db : Database} {auth : Authorization} {queryParameters : UrlQuery}

/-- **What is served** under a name was found for a schema with this table. -/
theorem exists_entry_of_responses {entries : List (Schema × List Dict)} {name : String}
    {data : List Dict} (h : (responses D entries).lookup name = some data) :
    ∃ s, (s, data) ∈ entries ∧ s.getDbTableName D.legacy = name := by
  obtain ⟨e, he, hlookup⟩ := List.exists_of_mem_map (GoMap.mem_of_lookup_ofList h)
  cases hlookup
  exact ⟨e.1, he, rfl⟩

theorem getAllLoop_eq_ok {schemas : List Schema} {entries : List (Schema × List Dict)}
    (h : getAllLoop D db auth queryParameters schemas = .ok entries) :
    (∀ s ∈ schemas, ∃ data, getAllOf D db auth queryParameters s = .ok data) ∧
      ∀ e, e ∈ entries ↔
        e.1 ∈ schemas ∧ getAllOf D db auth queryParameters e.1 = .ok (some e.2) := by
  induction schemas generalizing entries with
  | nil => cases h; simp
  | cons s schemas ih =>
    simp only [getAllLoop, Go.bind_eq_ok] at h
    obtain ⟨data, hdata, rest, hrest, ⟨⟩⟩ := h
    obtain ⟨hall, hmem⟩ := ih hrest
    refine ⟨List.forall_mem_cons.mpr ⟨⟨data, hdata⟩, hall⟩, fun e ↦ ?_⟩
    rw [List.mem_append, hmem, List.mem_cons]
    constructor
    · rintro (he | ⟨hs, he⟩)
      · obtain ⟨d, hd, rfl⟩ := Option.map_eq_some_iff.mp (Option.mem_toList.mp he)
        exact ⟨.inl rfl, hd ▸ hdata⟩
      · exact ⟨.inr hs, he⟩
    · rintro ⟨hs | hs, he⟩
      · rw [hs, hdata] at he
        cases he
        exact .inl (by rw [← hs]; simp)
      · exact .inr ⟨hs, he⟩

/-! ## What a plural GET returns -/

/-- The plural GET returns a resource. -/
def Returned (D : Deployment) (db : Database) (auth : Authorization) (queryParameters : UrlQuery)
    (s : Schema) (resource : Dict) : Prop :=
  ∃ list total, getMultipleResources D db auth s queryParameters = .ok (list, total) ∧
    resource ∈ list

/-- A row of the table of a schema that the plural GET admits. -/
def AdmittedIn (D : Deployment) (db : Database) (auth : Authorization) (queryParameters : UrlQuery)
    (s : Schema) (policy : Policy) (row : Dict) : Prop :=
  row ∈ (db (s.getDbTableName D.legacy)).rows ∧
    AdmitsRow D.server.toSqlEngine s auth policy queryParameters row

/-- No property condition panics on a row that the plural GET admits. -/
def NoPanic (D : Deployment) (db : Database) (auth : Authorization) (queryParameters : UrlQuery)
    (s : Schema) (policy : Policy) (columns : Columns) : Prop :=
  ∀ row, AdmittedIn D db auth queryParameters s policy row →
    ∃ allowed, readAllowed policy (rowView D db s queryParameters columns row) = .ok allowed

/-- What is shown of a row. -/
def shownOf (D : Deployment) (db : Database) (queryParameters : UrlQuery) (s : Schema)
    (policy : Policy) (columns : Columns) (row : Dict) : Dict :=
  policy.removeHiddenProperty (rowView D db s queryParameters columns row)

/-- **What a plural GET without a page returns**: the request is taken, no property condition
panics, and the resource is what is shown of a row that is admitted and may be read. -/
theorem returned_iff {s : Schema} {policy : Policy} {role : Role} {columns : Columns}
    (hpolicy : policyValidate actionRead s.getPluralURL auth D.policies = some (policy, role))
    (hcolumns : requestedColumns D s queryParameters = .ok columns)
    (hunpaged : Unpaged queryParameters) {resource : Dict} :
    Returned D db auth queryParameters s resource ↔
      TakesRequest s policy queryParameters ∧ NoPanic D db auth queryParameters s policy columns ∧
        ∃ row, AdmittedIn D db auth queryParameters s policy row ∧
          canRead policy (rowView D db s queryParameters columns row) = true ∧
          shownOf D db queryParameters s policy columns row = resource := by
  rw [← listRequest_isOk_iff hpolicy hcolumns hunpaged]
  have hview : ∀ r, listRequest D auth s queryParameters = .ok r →
      r.policy = policy ∧ r.columns = columns := fun r hr ↦
    ⟨ListRequest.policy_eq hpolicy hr,
      Except.ok.inj ((listRequest_eq_ok hr).2.2.1.symm.trans hcolumns)⟩
  have hselected : ∀ r, listRequest D auth s queryParameters = .ok r → ∀ row,
      row ∈ D.selected (db (s.getDbTableName D.legacy)).rows (r.select s auth).clause ↔
        AdmittedIn D db auth queryParameters s policy row := by
    intro r hr row
    rw [DB.mem_selected, AdmittedIn, ← (hview r hr).1, ← selects_request_iff hr,
      ListRequest.select, selects_listClause]
  constructor
  · rintro ⟨list, total, hget, hmem⟩
    rw [getMultipleResources_eq, Go.bind_eq_ok] at hget
    obtain ⟨r, hr, hanswer⟩ := hget
    obtain ⟨rfl, rfl⟩ := hview r hr
    obtain ⟨hlimit, hoffset⟩ := hunpaged.paginator (listRequest_eq_ok hr).2.1
    split at hanswer
    · obtain ⟨hdecided, rfl, -⟩ := (ListRequest.answer_of_unpaged hlimit hoffset).mp hanswer
      obtain ⟨row, hrow, hshown⟩ := List.mem_map.mp hmem
      obtain ⟨hreadable, hquery⟩ := ListRequest.mem_readableInOrder.mp hrow
      obtain ⟨hadmitted, hcan⟩ := List.mem_filter.mp hreadable
      have hselects : row ∈ D.selected (db (s.getDbTableName D.legacy)).rows
          (r.select s auth).clause := by
        rw [ListRequest.selected_eq]
        exact List.mem_filter.mpr ⟨hadmitted, decide_eq_true hquery⟩
      exact ⟨⟨r, hr⟩, fun row hrow ↦ hdecided row ((hselected r hr row).mpr hrow),
        row, (hselected r hr row).mp hselects, hcan, hshown⟩
    · cases hanswer
  · rintro ⟨⟨r, hr⟩, hdecided, row, hrow, hcan, hshown⟩
    obtain ⟨rfl, rfl⟩ := hview r hr
    obtain ⟨hlimit, hoffset⟩ := hunpaged.paginator (listRequest_eq_ok hr).2.1
    have haccepts : D.accepts (r.select s auth) = true := by
      simp [DB.accepts, ListRequest.select, hoffset]
    have hanswer := (@ListRequest.answer_of_unpaged _ D auth s queryParameters r db _ _ hlimit
      hoffset).mpr ⟨fun row hrow ↦ hdecided row ((hselected r hr row).mp hrow), rfl, rfl⟩
    have hget := getMultipleResources_eq D db auth s queryParameters
    rw [hr] at hget
    simp only [bind, Except.bind, if_pos haccepts, hanswer] at hget
    have hselects := (hselected r hr row).mpr hrow
    rw [ListRequest.selected_eq] at hselects
    obtain ⟨hadmitted, hquery⟩ := List.mem_filter.mp hselects
    exact ⟨_, _, hget, List.mem_map.mpr ⟨row, ListRequest.mem_readableInOrder.mpr
      ⟨List.mem_filter.mpr ⟨hadmitted, hcan⟩, of_decide_eq_true hquery⟩, hshown⟩⟩

/-! ## What `/_all` returns -/

/-- A row of the table of a schema that has what the parameters ask for: `/_all` finds it. -/
def Found (D : Deployment) (db : Database) (queryParameters : UrlQuery) (s : Schema) (row : Dict) :
    Prop :=
  row ∈ (db (s.getDbTableName D.legacy)).rows ∧ ∀ key, Asked s queryParameters key →
    ParameterEquals D.server.toSqlEngine s queryParameters row key

/-- What `/_all` finds for a schema, when it finds something. -/
theorem mem_of_getAllOf {s : Schema} {data : List Dict}
    (h : getAllOf D db auth queryParameters s = .ok (some data)) :
    ∃ policy role columns, policyValidate actionRead s.getPluralURL auth D.policies =
        some (policy, role) ∧ requestedColumns D s queryParameters = .ok columns ∧
      (∀ row, Found D db queryParameters s row → ∃ allowed,
        readAllowed policy (rowView D db s queryParameters columns row) = .ok allowed) ∧
      ∀ resource, resource ∈ data ↔ ∃ row, Found D db queryParameters s row ∧
        canRead policy (rowView D db s queryParameters columns row) = true ∧
        shownOf D db queryParameters s policy columns row = resource := by
  rw [getAllOf] at h
  split at h
  · cases h
  · next policy role hpolicy =>
    simp only [Go.bind_eq_ok, getResources, DB.list, DB.buildSelect, listContextHelper] at h
    obtain ⟨lt, ⟨q, ⟨columns, hcolumns, clause, hclause, ⟨⟩⟩, hlist⟩, data', hdata, ⟨⟩⟩ := h
    rw [DB.executeCountingSelect_eq] at hlist
    have haccepts : D.accepts ⟨columns, clause, none, none, 0⟩ = true := by simp [DB.accepts]
    rw [if_pos haccepts] at hlist
    cases hlist
    have hfound : ∀ row, row ∈ D.page (db (s.getDbTableName D.legacy)).rows
        ⟨columns, clause, none, none, 0⟩ ↔ Found D db queryParameters s row := by
      intro row
      rw [DB.page_of_unpaged rfl rfl, DB.mem_ordered, DB.mem_selected,
        selects_filterFromQueryParameter hclause]
      rfl
    obtain ⟨hdecided, rfl⟩ := applyPolicyForResources_eq_ok.mp hdata
    refine ⟨policy, role, columns, hpolicy, hcolumns, fun row hrow ↦ ?_, fun resource ↦ ?_⟩
    · have hview := hdecided _ (List.mem_map.mpr ⟨row, (hfound row).mpr hrow, rfl⟩)
      rwa [Option.isSome_map] at hview
    · simp only [Option.isSome_map, List.filter_map, List.mem_map, List.mem_filter, hfound]
      constructor
      · rintro ⟨_, ⟨row, ⟨hrow, hcan⟩, rfl⟩, rfl⟩
        exact ⟨row, hrow, hcan, rfl⟩
      · rintro ⟨row, hrow, hcan, rfl⟩
        exact ⟨_, ⟨row, ⟨hrow, hcan⟩, rfl⟩, rfl⟩

/-- **What `/_all` leaves out does not matter for a schema**: when the caller has a policy, and a
row is found that may be read, then the plural GET takes the request, no property condition panics
on a row it admits, and it admits the row, or another one that may be read and looks the same. -/
def CoveredByPlural (D : Deployment) (db : Database) (auth : Authorization)
    (queryParameters : UrlQuery) (s : Schema) : Prop :=
  ∀ policy role columns row,
    policyValidate actionRead s.getPluralURL auth D.policies = some (policy, role) →
    requestedColumns D s queryParameters = .ok columns →
    Found D db queryParameters s row →
    canRead policy (rowView D db s queryParameters columns row) = true →
    TakesRequest s policy queryParameters ∧ NoPanic D db auth queryParameters s policy columns ∧
      ∃ row', AdmittedIn D db auth queryParameters s policy row' ∧
        canRead policy (rowView D db s queryParameters columns row') = true ∧
        shownOf D db queryParameters s policy columns row' =
          shownOf D db queryParameters s policy columns row

/-- The policy and the query leave nothing out: no scope and no block, no text to search for, no
`any_of` and no parameter that the policy hides. -/
structure Unrestricted (s : Schema) (auth : Authorization) (policy : Policy)
    (queryParameters : UrlQuery) : Prop where
  domain : s.hasPropertyID domainIDKey = true →
    (policy.currentResourceCondition.getTenantAndDomainFilters actionRead auth).2 = []
  tenant : s.hasPropertyID tenantIDKey = true →
    (policy.currentResourceCondition.getTenantAndDomainFilters actionRead auth).1 = []
  block : policy.currentResourceCondition.actionFilter = none
  search : searchedColumns s queryParameters = []
  allOf : isAnyOf queryParameters = false
  visible : ∀ key, Asked s queryParameters key →
    policy.resource.PropertiesFilter.validate key = true

/-- **Where nothing is left out**, a plural GET admits the rows that `/_all` finds. -/
theorem Unrestricted.admits_iff {E : SqlEngine} {s : Schema} {policy : Policy} {row : Dict}
    (h : Unrestricted s auth policy queryParameters) :
    AdmitsRow E s auth policy queryParameters row ↔
      ∀ key, Asked s queryParameters key → ParameterEquals E s queryParameters row key := by
  have hasked : AskedFor E s policy queryParameters row ↔
      ∀ key, Asked s queryParameters key → ParameterEquals E s queryParameters row key := by
    simp only [AskedFor, h.allOf, Bool.false_eq_true, if_false, Shown, ParameterHolds, h.search,
      List.not_mem_nil]
    exact ⟨fun hall key hkey ↦ hall key ⟨hkey, h.visible key hkey⟩,
      fun hall key hkey ↦ hall key hkey.1⟩
  rw [← hasked]
  refine ⟨AdmitsRow.asked, fun hrow ↦ ⟨fun hhas hne ↦ absurd (h.domain hhas) hne,
    fun hhas hne ↦ absurd (h.tenant hhas) hne, ?_, hrow⟩⟩
  rw [h.block]
  exact fun P hP ↦ absurd hP List.not_mem_nil

/-- **When `/_all` shows nothing beyond the plural GETs.**  For every query without a page that
`/_all` answers: each resource it returns under a schema is returned by the plural GET of the
schema, if and only if for each schema what `/_all` leaves out does not matter.  That is so in every
database where the policies and the query leave nothing out. -/
theorem getAll_within_plural_iff (hunpaged : Unpaged queryParameters)
    {entries : List (Schema × List Dict)} (h : getAll D db auth queryParameters = .ok entries) :
    ((∀ e ∈ entries, ∀ resource ∈ e.2, Returned D db auth queryParameters e.1 resource) ↔
      ∀ s ∈ D.schemas, CoveredByPlural D db auth queryParameters s) ∧
    ((∀ s ∈ D.schemas, ∀ policy role,
        policyValidate actionRead s.getPluralURL auth D.policies = some (policy, role) →
          TakesRequest s policy queryParameters ∧ Unrestricted s auth policy queryParameters) →
      ∀ e ∈ entries, ∀ resource ∈ e.2, Returned D db auth queryParameters e.1 resource) := by
  obtain ⟨hanswered, hentries⟩ := getAllLoop_eq_ok h
  refine ⟨⟨?_, fun hcovered e he resource hresource ↦ ?_⟩, fun hfree e he resource hresource ↦ ?_⟩
  · intro hreturned s hs policy role columns row hpolicy hcolumns hrow hcan
    obtain ⟨found, hfound⟩ := hanswered s hs
    cases found with
    | none =>
      rw [getAllOf, hpolicy] at hfound
      simp [Go.bind_eq_ok] at hfound
    | some data =>
      obtain ⟨policy', role', columns', hpolicy', hcolumns', -, hdata⟩ := mem_of_getAllOf hfound
      cases hpolicy.symm.trans hpolicy'
      cases hcolumns.symm.trans hcolumns'
      have hmem := (hentries (s, data)).mpr ⟨hs, hfound⟩
      rw [← returned_iff hpolicy hcolumns hunpaged]
      exact hreturned _ hmem _ ((hdata _).mpr ⟨row, hrow, hcan, rfl⟩)
  · obtain ⟨hs, hfound⟩ := (hentries e).mp he
    obtain ⟨policy, role, columns, hpolicy, hcolumns, -, hdata⟩ := mem_of_getAllOf hfound
    obtain ⟨row, hrow, hcan, rfl⟩ := (hdata resource).mp hresource
    rw [returned_iff hpolicy hcolumns hunpaged]
    exact hcovered e.1 hs policy role columns row hpolicy hcolumns hrow hcan
  · obtain ⟨hs, hfound⟩ := (hentries e).mp he
    obtain ⟨policy, role, columns, hpolicy, hcolumns, hdecided, hdata⟩ := mem_of_getAllOf hfound
    obtain ⟨row, ⟨hmem, hasked⟩, hcan, rfl⟩ := (hdata resource).mp hresource
    obtain ⟨htakes, hfree⟩ := hfree e.1 hs policy role hpolicy
    rw [returned_iff hpolicy hcolumns hunpaged]
    exact ⟨htakes, fun row hrow ↦ hdecided row ⟨hrow.1, hfree.admits_iff.mp hrow.2⟩,
      row, ⟨hmem, hfree.admits_iff.mpr hasked⟩, hcan, rfl⟩

/-! ## The servers of another tenant -/

/-- A policy that lets members read their own servers. -/
def ownPolicy : Value := .map [("id", .str "own"), ("principal", .str "Member"),
  ("action", .str "read"), ("effect", .str "allow"),
  ("resource", .map [("path", .str "/v2.0/servers")]), ("condition", .list [.str "is_owner"])]

/-- A server of another tenant. -/
def foreignServer : Dict :=
  GoMap.ofList [("id", .str "s9"), (tenantIDKey, .str "acme-2"), ("state", .str "UP")]

/-- A database with a server of another tenant. -/
def foreignServers : Database := fun _ ↦ ⟨[foreignServer], by decide⟩

omit [RegexpEngine] in
/-- The comparison for a caller whose only server is its own, and for a policy that leaves nothing
out. -/
theorem getAll_within_plural_own : letI := Re2.engine
    (∃ policy entries, newPolicy ownPolicy = .ok policy ∧
      getAll (serverDeployment policy) oneServer member ∅ = .ok entries ∧
      ((∀ e ∈ entries, ∀ resource ∈ e.2,
          Returned (serverDeployment policy) oneServer member ∅ e.1 resource) ↔
        ∀ s ∈ (serverDeployment policy).schemas,
          CoveredByPlural (serverDeployment policy) oneServer member ∅ s)) ∧
    ∃ policy entries, newPolicy upPolicy = .ok policy ∧
      getAll (serverDeployment policy) twoServers member ∅ = .ok entries ∧
      ∀ e ∈ entries, ∀ resource ∈ e.2,
        Returned (serverDeployment policy) twoServers member ∅ e.1 resource := by
  let _ := Re2.engine
  constructor
  · have hanswers : ∃ policy, newPolicy ownPolicy = .ok policy ∧
        (getAll (serverDeployment policy) oneServer member ∅).isOk = true :=
      Go.exists_of_map_decide (by decide +kernel)
    obtain ⟨policy, hpolicy, hok⟩ := hanswers
    cases hentries : getAll (serverDeployment policy) oneServer member ∅ with
    | error e => rw [hentries] at hok; cases hok
    | ok entries =>
      exact ⟨policy, entries, hpolicy, hentries, (getAll_within_plural_iff ⟨rfl, rfl⟩ hentries).1⟩
  · have hanswers : ∃ policy, newPolicy upPolicy = .ok policy ∧
        (getAll (serverDeployment policy) twoServers member ∅).isOk = true ∧
          policy.currentResourceCondition.getTenantAndDomainFilters actionRead member = ([], []) ∧
          policy.currentResourceCondition.actionFilter.isNone = true :=
      Go.exists_of_map_decide (by decide +kernel)
    obtain ⟨policy, hpolicy, hok, hscope, hblock⟩ := hanswers
    have hnone := Option.isNone_iff_eq_none.mp hblock
    cases hentries : getAll (serverDeployment policy) twoServers member ∅ with
    | error e => rw [hentries] at hok; cases hok
    | ok entries =>
      refine ⟨policy, entries, hpolicy, hentries,
        (getAll_within_plural_iff ⟨rfl, rfl⟩ hentries).2 fun s hs policy' role hvalid ↦ ?_⟩
      obtain rfl := List.mem_singleton.mp hs
      have hsame : policy' = policy := by
        rw [serverDeployment, policyValidate, policyValidateLoop] at hvalid
        split at hvalid
        · split at hvalid
          · cases hvalid
          · exact (congrArg Prod.fst (Option.some.inj hvalid)).symm
        · cases hvalid
      subst hsame
      exact ⟨⟨fun _ hkey ↦ absurd hkey (AList.notMem_empty _), by decide, .inl rfl,
          fun _ hmem ↦ absurd hmem List.not_mem_nil, fun _ hmem ↦ absurd hmem List.not_mem_nil,
          by rw [hnone]; trivial⟩,
        ⟨fun _ ↦ by rw [hscope], fun _ ↦ by rw [hscope], hnone, rfl, rfl,
          fun _ hkey ↦ absurd hkey.1 (AList.notMem_empty _)⟩⟩

omit [RegexpEngine] in
/-- `/_all` returns the server of another tenant, the plural GET does not. -/
theorem getAll_returns_foreign : letI := Re2.engine
    ∃ policy entries, newPolicy ownPolicy = .ok policy ∧
      getAll (serverDeployment policy) foreignServers member ∅ = .ok entries ∧
      ¬ ∀ e ∈ entries, ∀ resource ∈ e.2,
        Returned (serverDeployment policy) foreignServers member ∅ e.1 resource := by
  let _ := Re2.engine
  have hanswers : ∃ policy, newPolicy ownPolicy = .ok policy ∧
      (getAll (serverDeployment policy) foreignServers member ∅).map (·.map (·.2)) =
        .ok [[foreignServer]] ∧
      getMultipleResources (serverDeployment policy) foreignServers member serverSchema ∅ =
        .ok ([], 0) :=
    Go.exists_of_map_decide (by decide +kernel)
  obtain ⟨policy, hpolicy, hall, hplural⟩ := hanswers
  obtain ⟨entries, hentries, hdata⟩ := Go.map_eq_ok.mp hall
  refine ⟨policy, entries, hpolicy, hentries, fun hreturned ↦ ?_⟩
  obtain ⟨e, rest, rfl, hforeign, -⟩ := List.map_eq_cons_iff.mp hdata
  have hs : e.1 = serverSchema := List.mem_singleton.mp
    (((getAllLoop_eq_ok hentries).2 e).mp List.mem_cons_self).1
  obtain ⟨list, total, hget, hmem⟩ := hreturned e List.mem_cons_self foreignServer
    (by rw [hforeign]; exact List.mem_singleton_self _)
  rw [hs, hplural] at hget
  cases hget
  cases hmem

end Gohan
