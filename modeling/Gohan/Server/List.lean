import Gohan.Db.Select
import Gohan.Schema.CustomFilter
import Gohan.Schema.Policy
import Gohan.Schema.PropertyCondition

/-!
# Listing resources

`GetMultipleResources` answers the plural GET of a schema.  It finds the caller's policy, makes a
filter, a page and view options from the query, has the rows listed and applies the policy to what
comes back.

A row has to pass in four places, one after another:

* the *scope*: the tenants and domains the condition of the policy lets the caller read;
* the *custom filter*: the `and` and `or` blocks of the condition;
* the *query*: what the caller asks for, as far as the policy shows the properties it names;
* the *property conditions* of the policy for reading, held against the decoded resource.

The first three are in the `WHERE` clause (`addFilterToQuery_listFilter` takes it apart), so the
order, the page and the total are about the rows that pass them.  The fourth is applied afterwards
and drops resources from the page.  Extensions are left out: none is registered.
-/

set_option autoImplicit false

namespace Gohan

/-! ## The parameters of the query -/

/-- `escapeSpecialChars`, for a `LIKE` pattern. -/
def escapeSpecialChars (value : String) : String :=
  String.ofList (value.toList.flatMap fun c ↦ if c ∈ ['\\', '_', '%'] then ['\\', c] else [c])

/-- `NewSearchField`. -/
def newSearchField (value : String) : FilterVal := .search ("%" ++ escapeSpecialChars value ++ "%")

/-- `FilterFromQueryParameter`. -/
def filterFromQueryParameter (s : Schema) (queryParameters : UrlQuery) : GoMap FilterVal :=
  (queryParameters.filterKeys s.hasPropertyID).mapValues fun value ↦ .value (.strs value)

/-- The loop of `modifySearchFields` over the columns to search in. -/
def addSearchFields (queryParameters : UrlQuery) :
    List String → GoMap FilterVal → Go (GoMap FilterVal)
  | [], filter => .ok filter
  | column :: columns, filter =>
    match queryParameters.lookup column with
    | some (value :: _) =>
      addSearchFields queryParameters columns (filter.insert column (newSearchField value))
    | some [] => .panicf "runtime error: index out of range"
    | none => .errorf "search value for `%s` not available in URL " [.str column]

/-- `modifySearchFields`. -/
def modifySearchFields (s : Schema) (queryParameters : UrlQuery) (filter : GoMap FilterVal) :
    Go (GoMap FilterVal) :=
  match queryParameters.lookup "search_field" with
  | some searchFilters =>
    if s.isSubstringSearchEnabled then addSearchFields queryParameters searchFilters filter
    else .ok filter
  | none => .ok filter

/-- The `parseBool` of the package: what is not a boolean reads as the default. -/
def Resources.parseBool (s : String) (d : Bool) : Bool :=
  if ["1", "t", "T", "TRUE", "true", "True"].contains s then true
  else if ["0", "f", "F", "FALSE", "false", "False"].contains s then false
  else d

/-- Does the query ask for any of its filters to hold, and not for all of them? -/
def isAnyOf (queryParameters : UrlQuery) : Bool :=
  match queryParameters.lookup "any_of" with
  | some [anyOf] => Resources.parseBool anyOf false
  | _ => false

/-- `applyAnyOfFilter`. -/
def applyAnyOfFilter (propertiesFilter : GoMap FilterVal) (queryParameters : UrlQuery) :
    FilterElem :=
  let filters := propertiesFilter.toList.map fun e ↦ FilterElem.eqTo e.1 e.2
  if isAnyOf queryParameters then .maybeEmptyOrFilter filters else .maybeEmptyAndFilter filters

/-- `listOptionsFromQueryParameter`. -/
def listOptionsFromQueryParameter (v : UrlQuery) : ViewOptions where
  Details := Resources.parseBool (v.getFirst "_details") true
  Fields := v.lookup "_fields"

/-- The parameters that are not about a property. -/
def reservedParameters : List String :=
  ["sort_key", "sort_order", "limit", "offset", "search_field", "any_of", "_details", "_fields"]

/-- `verifyQueryParams`: what is left when the known parameters are deleted has to be nothing. -/
def verifyQueryParams (s : Schema) (queryParameters : UrlQuery) : Go Unit :=
  let rest := queryParameters.filterKeys fun key ↦
    !s.hasPropertyID key && !reservedParameters.contains key
  if rest.entries = [] then .ok ()
  else .errorf "Unrecognized query parameters: %v"
    [.map (rest.toList.map fun e ↦ (e.1, .strs e.2))]

/-! ## The filter -/

variable [RegexpEngine]

/-- Enter the values a column is restricted to, if there are any and the schema has the column. -/
def restrictTo (s : Schema) (key : String) (values : List String) (filter : GoMap FilterVal) :
    GoMap FilterVal :=
  if s.hasPropertyID key = true ∧ values ≠ [] then filter.insert key (.value (.strs values))
  else filter

/-- `extendFilterByTenantAndDomain`. -/
def extendFilterByTenantAndDomain (s : Schema) (filter : GoMap FilterVal) (action : String)
    (rc : ResourceCondition) (auth : Authorization) : GoMap FilterVal :=
  let (tenantFilter, domainFilter) := rc.getTenantAndDomainFilters action auth
  restrictTo s domainIDKey domainFilter (restrictTo s tenantIDKey tenantFilter filter)

/-- What the query asks for, without the properties the policy hides. -/
def queryFilter (policy : Policy) (s : Schema) (queryParameters : UrlQuery) : Go FilterElem := do
  let propertiesFilter ← modifySearchFields s queryParameters
    (filterFromQueryParameter s queryParameters)
  .ok (applyAnyOfFilter (policy.removeHiddenProperty propertiesFilter) queryParameters)

/-- The blocks of the condition, or the filter that lets everything through. -/
def customFilter (policy : Policy) (s : Schema) (auth : Authorization) : Go FilterElem := do
  let customFilters ← policy.currentResourceCondition.addCustomFilters s ∅ auth
  .ok (if customFilters.entries = [] then .true else customFilters.toList)

/-- The filter of a plural GET. -/
def listFilter (policy : Policy) (s : Schema) (auth : Authorization) (queryParameters : UrlQuery) :
    Go (GoMap FilterVal) := do
  let propertiesFilter ← queryFilter policy s queryParameters
  let customFilters ← customFilter policy s auth
  .ok (extendFilterByTenantAndDomain s
    ((∅ : GoMap FilterVal).insert andCondition (.elems [propertiesFilter, customFilters]))
    actionRead policy.currentResourceCondition auth)

/-! ## Listing -/

/-- A server: the SQL layer and the policies that are loaded. -/
structure Deployment extends DB where
  policies : List Policy

/-- `LoadPolicy`. -/
def loadPolicy (D : Deployment) (action path : String) (auth : Authorization) : Go Policy :=
  match policyValidate action path auth D.policies with
  | some (policy, _) => .ok policy
  | none => .errorf "No matching policy: %s %s" [.str action, .str path]

/-- `GetResources`, with the view options of the request. -/
def getResources (D : Deployment) (db : Database) (s : Schema) (filter : GoMap FilterVal)
    (queryParameters : UrlQuery) (paginator : Option Paginator) : Go (List Dict × ℕ) :=
  D.list db s filter (some (listOptionsFromQueryParameter queryParameters)) paginator

/-- Do the property conditions let the caller read a resource?  Their error is the answer, a panic
is not. -/
def readAllowed (policy : Policy) (resource : Dict) : Go Bool :=
  match policy.currentResourceCondition.applyPropertyConditionFilter actionRead resource none with
  | .ok () => .ok true
  | .error (.error _ _) => .ok false
  | .error (.panic format args) => .panicf format args

/-- `ApplyPolicyForResources`, on the list of the response. -/
def applyPolicyForResources (policy : Policy) : List Dict → Go (List Dict)
  | [] => .ok []
  | resource :: resources => do
    let allowed ← readAllowed policy resource
    let data ← applyPolicyForResources policy resources
    .ok (if allowed then policy.removeHiddenProperty resource :: data else data)

/-- `GetMultipleResources`: the list of the response, and the total of the context. -/
def getMultipleResources (D : Deployment) (db : Database) (auth : Authorization) (s : Schema)
    (queryParameters : UrlQuery) : Go (List Dict × ℕ) := do
  let policy ← loadPolicy D actionRead s.getPluralURL auth
  let filter ← listFilter policy s auth queryParameters
  let paginator ← Paginator.fromURLQuery s queryParameters
  verifyQueryParams s queryParameters
  let (list, total) ← getResources D db s filter queryParameters (some paginator)
  let data ← applyPolicyForResources policy list
  .ok (data, total)

/-! ## The clause, taken apart -/

/-- The predicate a column is restricted by. -/
def restriction? (s : Schema) (key : String) (values : List String) : List Sqlizer :=
  match s.getPropertyByID key with
  | .ok property =>
    if values = [] then [] else [.eq key (parseBoolean property.type (.strs values))]
  | .error _ => []

/-- The scope: the predicates on the tenant and domain columns. -/
def scopeClause (s : Schema) (action : String) (rc : ResourceCondition) (auth : Authorization) :
    List Sqlizer :=
  let (tenantFilter, domainFilter) := rc.getTenantAndDomainFilters action auth
  restriction? s domainIDKey domainFilter ++ restriction? s tenantIDKey tenantFilter

omit [RegexpEngine] in
/-- The loop looks at the map it runs over for `__bool__` only. -/
theorem addKeys_congr {s : Schema} {filter filter' : GoMap FilterVal}
    (h : filter.lookup boolCondition = filter'.lookup boolCondition)
    (entries : List (String × FilterVal)) :
    addKeys s filter entries = addKeys s filter' entries := by
  induction entries with
  | nil => rfl
  | cons e entries ih =>
    obtain ⟨key, value⟩ := e
    rw [addKeys, addKeys, ih, addKey, addKey, h]

omit [RegexpEngine] in
/-- Restricting a column that is not in the filter yet adds its predicate to the clause. -/
theorem addFilterToQuery_restrictTo {s : Schema} {key : String} (values : List String)
    {filter : GoMap FilterVal} (hkey : key ≠ orCondition ∧ key ≠ andCondition ∧ key ≠ boolCondition)
    (hfresh : key ∉ filter) (hbool : filter.lookup boolCondition = none) :
    addFilterToQuery s (restrictTo s key values filter) =
      (addFilterToQuery s filter).map (restriction? s key values ++ ·) := by
  obtain ⟨hor, hand, hne⟩ := hkey
  have hid : (addFilterToQuery s filter).map ([] ++ ·) = addFilterToQuery s filter := by
    cases addFilterToQuery s filter <;> rfl
  rw [restrictTo, restriction?]
  cases hhas : s.hasPropertyID key with
  | false =>
    have herr : (s.getPropertyByID key).isOk = false := by rw [Schema.isOk_getPropertyByID, hhas]
    cases hp : s.getPropertyByID key with
    | ok p => rw [hp] at herr; exact absurd herr (by simp [Except.isOk, Except.toBool])
    | error e => simpa using hid.symm
  | true =>
    obtain ⟨p, hp, -⟩ := Schema.getPropertyByID_of_has hhas
    rw [hp]
    by_cases hvalues : values = []
    · simpa [hvalues] using hid.symm
    · have hlookup : (filter.insert key (.value (.strs values))).lookup boolCondition = none := by
        rw [AList.lookup_insert_ne hne.symm, hbool]
      have hlist : GoMap.toList (filter.insert key (.value (.strs values))) =
          (key, .value (.strs values)) :: filter.toList := by
        rw [GoMap.toList, AList.entries_insert_of_notMem hfresh]; rfl
      rw [if_pos ⟨rfl, hvalues⟩, addFilterToQuery, hlist, addKeys,
        addKeys_congr (hlookup.trans hbool.symm)]
      simp only [addKey, hor, hand, if_false, hlookup, hp, hvalues, bind, Except.bind,
        addFilterToQuery]
      cases addKeys s filter filter.toList <;> rfl

omit [RegexpEngine] in
theorem mem_restrictTo {s : Schema} {key : String} {values : List String}
    {filter : GoMap FilterVal} {k : String} (h : k ∈ restrictTo s key values filter) :
    k = key ∨ k ∈ filter := by
  rw [restrictTo] at h
  split at h
  · rwa [AList.mem_insert] at h
  · exact .inr h

/-- The scope is added to the clause of a filter that says nothing of tenants and domains. -/
theorem addFilterToQuery_scope {s : Schema} {filter : GoMap FilterVal} {action : String}
    {rc : ResourceCondition} {auth : Authorization} (htenant : tenantIDKey ∉ filter)
    (hdomain : domainIDKey ∉ filter) (hbool : filter.lookup boolCondition = none) :
    addFilterToQuery s (extendFilterByTenantAndDomain s filter action rc auth) =
      (addFilterToQuery s filter).map (scopeClause s action rc auth ++ ·) := by
  rw [extendFilterByTenantAndDomain, scopeClause, addFilterToQuery_restrictTo _ (by decide),
    addFilterToQuery_restrictTo _ (by decide) htenant hbool]
  · cases addFilterToQuery s filter <;> simp [Except.map]
  · intro h
    rcases mem_restrictTo h with h | h
    · exact absurd h (by decide)
    · exact hdomain h
  · rw [restrictTo]
    split
    · rw [AList.lookup_insert_ne (by decide), hbool]
    · exact hbool

/-- The predicates of two filters that are to hold together. -/
def bothParts (s : Schema) (p c : FilterElem) : Go (Sqlizer × Sqlizer) := do
  let a ← partOf s p
  let b ← partOf s c
  .ok (a, b)

/-- **The clause of a plural GET**: the scope, and the query and the custom filter together. -/
theorem addFilterToQuery_listFilter (s : Schema) (rc : ResourceCondition) (auth : Authorization)
    (p c : FilterElem) : addFilterToQuery s (extendFilterByTenantAndDomain s
        ((∅ : GoMap FilterVal).insert andCondition (.elems [p, c])) actionRead rc auth) =
      (bothParts s p c).map fun (a, b) ↦ scopeClause s actionRead rc auth ++ [.and [a, b]] := by
  have hbase : addFilterToQuery s ((∅ : GoMap FilterVal).insert andCondition (.elems [p, c])) =
      (bothParts s p c).map fun (a, b) ↦ [.and [a, b]] := by
    have hlist : GoMap.toList ((∅ : GoMap FilterVal).insert andCondition (.elems [p, c])) =
        [(andCondition, .elems [p, c])] := rfl
    rw [addFilterToQuery, hlist]
    simp only [addKeys, addKey, andCondition, orCondition, addElems, addToFilter_cons, bothParts]
    cases partOf s p with
    | error e => rfl
    | ok a => cases partOf s c <;> rfl
  have hfresh {key : String} (h : key ≠ andCondition) :
      key ∉ (∅ : GoMap FilterVal).insert andCondition (.elems [p, c]) := by
    rw [AList.mem_insert]
    rintro (rfl | hmem)
    · exact h rfl
    · exact AList.notMem_empty _ hmem
  rw [addFilterToQuery_scope (hfresh (by decide)) (hfresh (by decide)) rfl, hbase]
  cases bothParts s p c <;> rfl

omit [RegexpEngine] in
/-- The rows the clause selects. -/
theorem selects_listClause {E : SqlEngine} {scope : List Sqlizer} {a b : Sqlizer} {row : Dict} :
    Selects E (scope ++ [.and [a, b]]) row ↔
      Selects E scope row ∧ b.eval E row = .tt ∧ a.eval E row = .tt := by
  rw [Selects, List.forall_mem_append, List.forall_mem_singleton, eval_and, ← Selects,
    List.forall_mem_cons, List.forall_mem_singleton, and_comm (a := a.eval E row = .tt)]

/-! ## What the policy lets through -/

/-- The property conditions let the caller read the resource. -/
def canRead (policy : Policy) (resource : Dict) : Bool :=
  (policy.currentResourceCondition.applyPropertyConditionFilter actionRead resource none).isOk

theorem readAllowed_eq_ok {policy : Policy} {resource : Dict} {allowed : Bool} :
    readAllowed policy resource = .ok allowed → canRead policy resource = allowed := by
  rw [readAllowed, canRead]
  split
  · next h => rw [h]; rintro ⟨⟩; rfl
  · next h => rw [h]; rintro ⟨⟩; rfl
  · next h => intro hok; exact absurd hok (Go.panicf_ne_ok _ _ _)

theorem readAllowed_eq_ok_true {policy : Policy} {resource : Dict} :
    readAllowed policy resource = .ok true ↔ canRead policy resource = true := by
  refine ⟨readAllowed_eq_ok, fun h ↦ ?_⟩
  rw [canRead] at h
  rw [readAllowed]
  split
  · rfl
  · next herr => rw [herr] at h; cases h
  · next herr => rw [herr] at h; cases h

/-- **What is left of a list**: the resources the caller can read, without the hidden properties,
provided that no check panics. -/
theorem applyPolicyForResources_eq_ok {policy : Policy} {resources data : List Dict} :
    applyPolicyForResources policy resources = .ok data ↔
      (∀ resource ∈ resources, ∃ allowed, readAllowed policy resource = .ok allowed) ∧
        data = (resources.filter (canRead policy)).map policy.removeHiddenProperty := by
  induction resources generalizing data with
  | nil => simp [applyPolicyForResources, eq_comm]
  | cons resource resources ih =>
    rw [applyPolicyForResources, List.forall_mem_cons, Go.bind_eq_ok]
    simp only [Go.bind_eq_ok, ih, Except.ok.injEq]
    constructor
    · rintro ⟨allowed, hallowed, _, ⟨hrest, rfl⟩, rfl⟩
      refine ⟨⟨⟨allowed, hallowed⟩, hrest⟩, ?_⟩
      rw [List.filter_cons, readAllowed_eq_ok hallowed]
      split <;> rfl
    · rintro ⟨⟨⟨allowed, hallowed⟩, hrest⟩, rfl⟩
      refine ⟨allowed, hallowed, _, ⟨hrest, rfl⟩, ?_⟩
      rw [List.filter_cons, readAllowed_eq_ok hallowed]
      split <;> rfl

/-- The policy does the same to two lists whose resources it decides alike and shows alike. -/
theorem applyPolicyForResources_congr {policy : Policy} {resources resources' : List Dict}
    (h : List.Forall₂ (fun resource resource' ↦
      readAllowed policy resource = readAllowed policy resource' ∧
        (readAllowed policy resource = .ok true →
          policy.removeHiddenProperty resource = policy.removeHiddenProperty resource'))
      resources resources') :
    applyPolicyForResources policy resources = applyPolicyForResources policy resources' := by
  induction h with
  | nil => rfl
  | cons hhead _ ih =>
    obtain ⟨hverdict, hshown⟩ := hhead
    rw [applyPolicyForResources, applyPolicyForResources, ← hverdict, ih]
    cases hallowed : readAllowed policy _ with
    | error e => rfl
    | ok allowed =>
      cases allowed with
      | false => rfl
      | true => rw [hshown hallowed]

/-! ## What a request comes to -/

/-- The columns a request asks for. -/
def requestedColumns (D : Deployment) (s : Schema) (queryParameters : UrlQuery) : Go Columns :=
  let sc := listContextHelper s ∅ (some (listOptionsFromQueryParameter queryParameters)) none
  makeColumns D.schemas sc.fields sc.join (D.schemas.length + 1) s

/-- The resource a row is decoded to, with the fields the request asks for. -/
def rowView (D : Deployment) (db : Database) (s : Schema) (queryParameters : UrlQuery)
    (columns : Columns) (row : Dict) : Dict :=
  D.resourceOf db s (queryParameters.lookup "_fields").isSome columns row

/-- What a plural GET asks of the database, once it is accepted. -/
structure ListRequest where
  policy : Policy
  paginator : Paginator
  columns : Columns
  query : Sqlizer
  custom : Sqlizer

/-- The part of a plural GET before the database is asked. -/
def listRequest (D : Deployment) (auth : Authorization) (s : Schema) (queryParameters : UrlQuery) :
    Go ListRequest := do
  let policy ← loadPolicy D actionRead s.getPluralURL auth
  let p ← queryFilter policy s queryParameters
  let c ← customFilter policy s auth
  let paginator ← Paginator.fromURLQuery s queryParameters
  verifyQueryParams s queryParameters
  let columns ← requestedColumns D s queryParameters
  let (query, custom) ← bothParts s p c
  .ok { policy, paginator, columns, query, custom }

namespace ListRequest

/-- The tenants and domains the caller may read. -/
def scope (r : ListRequest) (s : Schema) (auth : Authorization) : List Sqlizer :=
  scopeClause s actionRead r.policy.currentResourceCondition auth

/-- The query that is sent. -/
def select (r : ListRequest) (s : Schema) (auth : Authorization) : SelectQuery where
  columns := r.columns
  clause := r.scope s auth ++ [.and [r.query, r.custom]]
  order := r.paginator.order? s
  limit := r.paginator.limit?
  offset := r.paginator.Offset

/-- The resource a row is decoded to. -/
def view (r : ListRequest) (D : Deployment) (db : Database) (s : Schema)
    (queryParameters : UrlQuery) (row : Dict) : Dict :=
  rowView D db s queryParameters r.columns row

/-- The answer: the page, as far as the policy lets it through, and the total. -/
def answer (r : ListRequest) (D : Deployment) (db : Database) (auth : Authorization) (s : Schema)
    (queryParameters : UrlQuery) : Go (List Dict × ℕ) := do
  let q := r.select s auth
  let rows := (db (s.getDbTableName D.legacy)).rows
  let data ← applyPolicyForResources r.policy
    ((D.page rows q).map (r.view D db s queryParameters))
  .ok (data, if r.paginator.Offset != 0 || r.paginator.Limit != maxUint64
    then (D.selected rows q.clause).length else (D.page rows q).length)

end ListRequest

/-- Listing with the filter of a plural GET. -/
theorem getResources_listFilter (D : Deployment) (db : Database) (auth : Authorization) (s : Schema)
    (queryParameters : UrlQuery) (policy : Policy) (p c : FilterElem) (pg : Paginator) :
    getResources D db s (extendFilterByTenantAndDomain s
        ((∅ : GoMap FilterVal).insert andCondition (.elems [p, c])) actionRead
        policy.currentResourceCondition auth) queryParameters (some pg) =
      requestedColumns D s queryParameters >>= fun columns ↦
        bothParts s p c >>= fun ab ↦
          let r : ListRequest := ⟨policy, pg, columns, ab.1, ab.2⟩
          let rows := (db (s.getDbTableName D.legacy)).rows
          if D.accepts (r.select s auth) then
            .ok ((D.page rows (r.select s auth)).map (r.view D db s queryParameters),
              if pg.Offset != 0 || pg.Limit != maxUint64
                then (D.selected rows (r.select s auth).clause).length
                else (D.page rows (r.select s auth)).length)
          else .errorf "near \"OFFSET\": syntax error" := by
  simp only [getResources, DB.list, DB.buildSelect, listContextHelper, addFilterToQuery_listFilter,
    requestedColumns]
  cases makeColumns D.schemas
      ((listOptionsFromQueryParameter queryParameters).Fields.map (·.map (normField · s.id)))
      (listOptionsFromQueryParameter queryParameters).Details (D.schemas.length + 1) s with
  | error e => rfl
  | ok columns =>
    cases bothParts s p c with
    | error e => rfl
    | ok ab =>
      simp only [Except.map, bind, Except.bind, DB.executeCountingSelect_eq, Option.isSome_map]
      rfl

/-- A plural GET is its request, accepted by the server, and the answer to it. -/
theorem getMultipleResources_eq (D : Deployment) (db : Database) (auth : Authorization) (s : Schema)
    (queryParameters : UrlQuery) : getMultipleResources D db auth s queryParameters =
      listRequest D auth s queryParameters >>= fun r ↦
        if D.accepts (r.select s auth) then r.answer D db auth s queryParameters
        else .errorf "near \"OFFSET\": syntax error" := by
  rw [getMultipleResources, listRequest]
  simp only [listFilter, bind_assoc, Go.ok_bind]
  refine bind_congr fun policy ↦ bind_congr fun p ↦ bind_congr fun c ↦ bind_congr fun pg ↦
    bind_congr fun _ ↦ ?_
  rw [getResources_listFilter]
  simp only [bind_assoc]
  refine bind_congr fun columns ↦ bind_congr fun ab ↦ ?_
  cases D.accepts (ListRequest.select ⟨policy, pg, columns, ab.1, ab.2⟩ s auth) with
  | true => rfl
  | false => rfl

end Gohan
