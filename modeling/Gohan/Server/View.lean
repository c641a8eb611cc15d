import Gohan.Db.Projection
import Gohan.Server.DeleteRace
import Gohan.Server.Noninterference

/-!
# View options

The parameters `_fields` and `_details` say what of a resource is to be in the answer.  They are
passed to the database, so the property conditions of a policy are held against what is left of a
resource, not against the resource.

* `view_partOf` — as long as the properties that the conditions name are the same in both, the same
  resources are found, and of each the part that was asked for is shown.  `sameInView_of_asks`: it
  is enough to ask for these properties.
* `fields_drop_row` — a condition about a property that is not asked for rejects the resource.

`getSingleResource_eq` puts the view where it belongs, after the row is fetched; a list does the
same with the rows of its page.
-/

set_option autoImplicit false

namespace Gohan

open List (Forall₂)
open DeleteRace (singlePath)

/-! ## Queries without a view -/

/-- The query without the parameters about the view. -/
def UrlQuery.withoutView (q : UrlQuery) : UrlQuery := (q.erase "_fields").erase "_details"

namespace UrlQuery

variable {q : UrlQuery} {key : String}

theorem lookup_withoutView (hfields : key ≠ "_fields") (hdetails : key ≠ "_details") :
    q.withoutView.lookup key = q.lookup key := by
  rw [withoutView, AList.lookup_erase_ne hdetails, AList.lookup_erase_ne hfields]

theorem getFirst_withoutView (hfields : key ≠ "_fields") (hdetails : key ≠ "_details") :
    q.withoutView.getFirst key = q.getFirst key := by
  rw [getFirst, getFirst, GoMap.getSlice, GoMap.getSlice, lookup_withoutView hfields hdetails]

theorem filterKeys_withoutView {p : String → Bool} (hfields : p "_fields" = false)
    (hdetails : p "_details" = false) : q.withoutView.filterKeys p = q.filterKeys p := by
  refine AList.ext ?_
  show ((q.entries.kerase "_fields").kerase "_details").filter (fun e ↦ p e.1) =
    q.entries.filter fun e ↦ p e.1
  rw [GoMap.filter_kerase, hdetails, if_neg Bool.false_ne_true, GoMap.filter_kerase, hfields,
    if_neg Bool.false_ne_true]

theorem withoutView_options : listOptionsFromQueryParameter q.withoutView = ⟨true, none⟩ := by
  have hdetails : q.withoutView.lookup "_details" = none := AList.lookup_erase _ _
  have hfields : q.withoutView.lookup "_fields" = none := by
    rw [withoutView, AList.lookup_erase_ne (by decide)]
    exact AList.lookup_erase _ _
  rw [listOptionsFromQueryParameter, getFirst, GoMap.getSlice, hdetails, hfields]
  rfl

theorem isAnyOf_withoutView : isAnyOf q.withoutView = isAnyOf q := by
  rw [isAnyOf, isAnyOf, lookup_withoutView (by decide) (by decide)]

theorem fromURLQuery_withoutView (s : Schema) :
    Paginator.fromURLQuery s q.withoutView = Paginator.fromURLQuery s q := by
  have hlimit := @getFirst_withoutView q "limit" (by decide) (by decide)
  have hoffset := @getFirst_withoutView q "offset" (by decide) (by decide)
  have hkey := @getFirst_withoutView q "sort_key" (by decide) (by decide)
  have horder := @getFirst_withoutView q "sort_order" (by decide) (by decide)
  simp only [Paginator.fromURLQuery, Paginator.parseLimit, Paginator.parseOffset,
    Paginator.sortKey, Paginator.sortOrder, hlimit, hoffset, hkey, horder]

/-- A search that finds its values without the view finds them with it. -/
theorem addSearchFields_withoutView {columns : List String} {filter filter' : GoMap FilterVal}
    (h : addSearchFields q.withoutView columns filter = .ok filter') :
    addSearchFields q columns filter = .ok filter' := by
  induction columns generalizing filter with
  | nil => exact h
  | cons column columns ih =>
    have hkeep {value : List String} (hvalue : q.withoutView.lookup column = some value) :
        q.lookup column = some value := by
      have hfields : column ≠ "_fields" := by
        rintro rfl
        rw [withoutView, AList.lookup_erase_ne (by decide), AList.lookup_erase] at hvalue
        exact absurd hvalue (by simp)
      have hdetails : column ≠ "_details" := by
        rintro rfl
        rw [withoutView, AList.lookup_erase] at hvalue
        exact absurd hvalue (by simp)
      rwa [lookup_withoutView hfields hdetails] at hvalue
    unfold addSearchFields at h ⊢
    split at h
    · next hvalue =>
      rw [hkeep hvalue]
      exact ih h
    · exact absurd h (Go.panicf_ne_ok _ _ _)
    · exact absurd h (Go.errorf_ne_ok _ _ _)

theorem verifyQueryParams_withoutView (s : Schema) :
    verifyQueryParams s q.withoutView = verifyQueryParams s q := by
  rw [verifyQueryParams, verifyQueryParams, filterKeys_withoutView]
  · exact Bool.and_eq_false_iff.mpr (.inr (by decide))
  · exact Bool.and_eq_false_iff.mpr (.inr (by decide))

theorem queryFilter_withoutView [RegexpEngine] {s : Schema} {policy : Policy} {p : FilterElem}
    (hfields : s.hasPropertyID "_fields" = false) (hdetails : s.hasPropertyID "_details" = false)
    (h : queryFilter policy s q.withoutView = .ok p) : queryFilter policy s q = .ok p := by
  obtain ⟨filter, hfilter, h⟩ := Go.bind_eq_ok.mp h
  refine Go.bind_eq_ok.mpr ⟨filter, ?_, ?_⟩
  · rw [filterFromQueryParameter, filterKeys_withoutView hfields hdetails, modifySearchFields,
      lookup_withoutView (by decide) (by decide)] at hfilter
    rw [modifySearchFields]
    split at hfilter
    · split at hfilter
      · next henabled => exact (if_pos henabled).trans (addSearchFields_withoutView hfilter)
      · next henabled => exact (if_neg henabled).trans hfilter
    · exact hfilter
  · rwa [applyAnyOfFilter, isAnyOf_withoutView] at h

end UrlQuery

/-! ## Resources with a view -/

section

variable {s : Schema} {skipNil : Bool} {columns : Columns} {data : Dict} {key : String}

/-- The part of a new resource is the new resource of the part. -/
theorem lookup_newResource_part (hparent : s.parentPropertyID ∉ columns.relations)
    (hnil : data.lookup s.parentPropertyID ≠ some .nil) :
    (newResource s (columns.part skipNil data ∅)).lookup key =
      (columns.part skipNil (newResource s data) ∅).lookup key := by
  by_cases hkey : s.parent ≠ "" ∧ key = s.parentPropertyID
  · obtain rfl := hkey.2
    rw [lookup_newResource, if_pos hkey, Columns.lookup_part_of_notMem_relations hparent,
      Columns.lookup_part_of_notMem_relations hparent, lookup_newResource, if_pos hkey]
    cases hlookup : data.lookup s.parentPropertyID with
    | none => cases columns.asks s.parentPropertyID <;> rfl
    | some v =>
      have hv : v ≠ .nil := fun heq ↦ hnil (heq ▸ hlookup)
      have hkept : Columns.kept skipNil (some v) = some v := by simp [Columns.kept, hv]
      rw [hkept]
      cases columns.asks s.parentPropertyID <;> rfl
  · rw [lookup_newResource, if_neg hkey]
    refine Columns.lookup_part_congr ?_ rfl
    rw [lookup_newResource, if_neg hkey]

/-- The part of a resource without the hidden properties. -/
theorem lookup_filterKeys_part {p : String → Bool} :
    ((columns.part skipNil data ∅).filterKeys p).lookup key =
      (columns.part skipNil (data.filterKeys p) ∅).lookup key := by
  rw [GoMap.lookup_filterKeys]
  split
  · next hshown =>
    refine Columns.lookup_part_congr ?_ rfl
    rw [GoMap.lookup_filterKeys, if_pos hshown]
  · next hhidden =>
    have hnone : (data.filterKeys p).lookup key = none := by
      rw [GoMap.lookup_filterKeys, if_neg hhidden]
    rw [Columns.lookup_part_of_none hnone]
    rfl

end

/-! ## Requests with a view -/

variable [RegexpEngine]

/-- A query asks for `columns'`, and without its view for `columns`. -/
structure Views (D : Deployment) (s : Schema) (q : UrlQuery) (columns columns' : Columns) :
    Prop where
  whole : requestedColumns D s q.withoutView = .ok columns
  asked : requestedColumns D s q = .ok columns'
  /-- A query for no column is refused before it is sent. -/
  any : columns'.any = true
  /-- Names are unambiguous. -/
  distinct : columns.Distinct
  /-- The identifier of the parent is a column, and it is not NULL. -/
  parent : s.parentPropertyID ∉ columns.relations ∧ columns.canBeNull s.parentPropertyID = false
  /-- The parameters are not taken for properties. -/
  fields : s.hasPropertyID "_fields" = false
  details : s.hasPropertyID "_details" = false

namespace Views

variable {D : Deployment} {s : Schema} {q : UrlQuery} {columns columns' : Columns}

theorem thins (h : Views D s q columns columns') : Columns.Thins columns columns' := by
  have hwhole := h.whole
  rw [requestedColumns, UrlQuery.withoutView_options] at hwhole
  obtain ⟨thinner, hthinner, hthins⟩ := Columns.exists_makeColumns hwhole
  obtain rfl := Except.ok.inj (hthinner.symm.trans h.asked)
  exact hthins

theorem all (h : Views D s q columns columns') : columns.all = true := by
  have hwhole := h.whole
  rw [requestedColumns, UrlQuery.withoutView_options] at hwhole
  exact Columns.all_makeColumns hwhole

/-- Without fields the view has all columns. -/
theorem all_asked (h : Views D s q columns columns')
    (hfields : (q.lookup "_fields").isSome = false) : columns'.all = true := by
  have hasked := h.asked
  rw [Option.isSome_eq_false_iff, Option.isNone_iff_eq_none] at hfields
  rw [requestedColumns, listOptionsFromQueryParameter, hfields] at hasked
  exact Columns.all_makeColumns hasked

variable {db : Database} {row : Dict} {key : String}

/-- What is decoded of a row with a view is part of what is decoded without it. -/
theorem decode_eq (h : Views D s q columns columns') :
    D.decode db (q.lookup "_fields").isSome columns' row ∅ =
      columns'.part (q.lookup "_fields").isSome (D.decode db false columns row ∅) ∅ :=
  DB.decode_eq_part h.thins (DB.decodes_decode h.distinct h.all fun _ _ ↦ AList.lookup_empty _)
    h.all_asked _

theorem rowView_withoutView :
    rowView D db s q.withoutView columns row = newResource s (D.decode db false columns row ∅) := by
  have hfields : q.withoutView.lookup "_fields" = none := by
    rw [UrlQuery.withoutView, AList.lookup_erase_ne (by decide)]
    exact AList.lookup_erase _ _
  rw [rowView, hfields]
  rfl

theorem lookup_rowView (h : Views D s q columns columns') :
    (rowView D db s q columns' row).lookup key =
      (columns'.part (q.lookup "_fields").isSome (rowView D db s q.withoutView columns row)
        ∅).lookup key := by
  rw [rowView_withoutView, rowView, DB.resourceOf, h.decode_eq]
  exact lookup_newResource_part (fun hmem ↦ h.parent.1 (h.thins.relations_subset hmem))
    (DB.lookup_decode_ne_nil h.parent.2 h.parent.1 (by simp))

/-- **What is shown with a view is part of what is shown without it.** -/
theorem lookup_shown (h : Views D s q columns columns') (policy : Policy) :
    (policy.removeHiddenProperty (rowView D db s q columns' row)).lookup key =
      (columns'.part (q.lookup "_fields").isSome
        (policy.removeHiddenProperty (rowView D db s q.withoutView columns row)) ∅).lookup key := by
  refine Eq.trans ?_ lookup_filterKeys_part
  rw [Policy.removeHiddenProperty, PropertyFilter.removeHiddenKeysFromMap, GoMap.lookup_filterKeys,
    GoMap.lookup_filterKeys, h.lookup_rowView]

/-- A column that is asked for, and that is no related resource, is the same in the view. -/
theorem get_rowView (h : Views D s q columns columns') (hkey : key ∉ columns.relations)
    (hasks : columns'.asks key = true) :
    (rowView D db s q columns' row).get key =
      (rowView D db s q.withoutView columns row).get key := by
  rw [GoMap.get, GoMap.get, h.lookup_rowView, Columns.lookup_part_of_notMem_relations
    (fun hmem ↦ hkey (h.thins.relations_subset hmem)), if_pos hasks]
  cases (rowView D db s q.withoutView columns row).lookup key with
  | none => rfl
  | some v =>
    by_cases hv : v = .nil
    · subst hv
      cases (q.lookup "_fields").isSome <;> rfl
    · have hkept : Columns.kept (q.lookup "_fields").isSome (some v) = some v := by
        simp [Columns.kept, hv]
      rw [hkept]
      rfl

end Views

/-! ## What the conditions see -/

/-- The properties that the conditions of an action name are the same in two resources. -/
def ResourceCondition.SeesSame (p : ResourceCondition) (action : String) (data data' : Dict) :
    Prop :=
  ∀ filter ∈ p.actionPropertyConditionFilter.getSlice action, ∀ e ∈ filter,
    data.get e.1 = data'.get e.1

omit [RegexpEngine] in
theorem applyFilter_congr {data data' : Dict} {filter : List (String × Value)}
    (h : ∀ e ∈ filter, data.get e.1 = data'.get e.1) :
    applyFilter data none filter = applyFilter data' none filter := by
  induction filter with
  | nil => rfl
  | cons e filter ih =>
    rw [List.forall_mem_cons] at h
    obtain ⟨key, allowed⟩ := e
    unfold applyFilter
    rw [h.1, ih h.2]

omit [RegexpEngine] in
theorem applyFilters_congr {data data' : Dict} {filters : List (List (String × Value))}
    (h : ∀ filter ∈ filters, ∀ e ∈ filter, data.get e.1 = data'.get e.1) :
    applyFilters data none filters = applyFilters data' none filters := by
  induction filters with
  | nil => rfl
  | cons filter filters ih =>
    rw [List.forall_mem_cons] at h
    rw [applyFilters, applyFilters, applyFilter_congr h.1, ih h.2]

namespace ResourceCondition.SeesSame

variable {policy : Policy} {data data' : Dict}

theorem applyPropertyConditionFilter_eq {p : ResourceCondition} {action : String}
    (h : p.SeesSame action data data') :
    p.applyPropertyConditionFilter action data none =
      p.applyPropertyConditionFilter action data' none := applyFilters_congr h

theorem readAllowed_eq (h : policy.currentResourceCondition.SeesSame actionRead data data') :
    readAllowed policy data = readAllowed policy data' := by
  rw [readAllowed, readAllowed, h.applyPropertyConditionFilter_eq]

end ResourceCondition.SeesSame

/-! ## One resource -/

/-- `ApplyPolicyForResource`. -/
def applyPolicyForResource (policy : Policy) (resource : Dict) : Go Dict := do
  policy.currentResourceCondition.applyPropertyConditionFilter actionRead resource none
  .ok (policy.removeHiddenProperty resource)

/-- `GetSingleResource`. -/
def getSingleResource (D : Deployment) (db : Database) (auth : Authorization) (s : Schema)
    (resourceID : String) (q : UrlQuery) : Go Dict := do
  let policy ← loadPolicy D actionRead (singlePath s resourceID) auth
  let filter ← getFilterFromPolicy auth resourceID s policy actionRead
  let resource ← DB.firstOf "Failed to fetch %s: %s"
    (D.list db s filter (some (listOptionsFromQueryParameter q)) none)
  applyPolicyForResource policy resource

/-- The row that is fetched, with the policy. -/
def fetchedRow (D : Deployment) (db : Database) (auth : Authorization) (s : Schema)
    (resourceID : String) : Go (Policy × Dict) := do
  let policy ← loadPolicy D actionRead (singlePath s resourceID) auth
  let filter ← getFilterFromPolicy auth resourceID s policy actionRead
  let row ← DB.firstOf "Failed to fetch %s: %s" ((addFilterToQuery s filter).map fun clause ↦
    let rows := D.selected (db (s.getDbTableName D.legacy)).rows clause
    (rows, rows.length))
  .ok (policy, row)

omit [RegexpEngine] in
theorem firstOf_map {failure : String} (f : Dict → Dict) (result : Go (List Dict × ℕ)) :
    DB.firstOf failure (result.map fun found ↦ (found.1.map f, found.2)) =
      (DB.firstOf failure result).map f := by
  rcases result with (_ | _) | ⟨_ | _, _⟩ <;> rfl

section

variable {D : Deployment} {db : Database} {auth : Authorization} {s : Schema} {resourceID : String}
  {q : UrlQuery} {columns : Columns}

/-- What a query without a page lists. -/
theorem list_eq (hcolumns : requestedColumns D s q = .ok columns) (filter : GoMap FilterVal) :
    D.list db s filter (some (listOptionsFromQueryParameter q)) none =
      (addFilterToQuery s filter).map fun clause ↦
        let rows := D.selected (db (s.getDbTableName D.legacy)).rows clause
        (rows.map (rowView D db s q columns), rows.length) := by
  rw [requestedColumns] at hcolumns
  simp only [listContextHelper] at hcolumns
  simp only [DB.list, DB.buildSelect, listContextHelper, hcolumns, Go.ok_bind]
  cases addFilterToQuery s filter with
  | error fault => rfl
  | ok clause =>
    rw [Go.ok_bind, Go.ok_bind, DB.executeCountingSelect_eq]
    have hpage : D.page (db (s.getDbTableName D.legacy)).rows ⟨columns, clause, none, none, 0⟩ =
        D.selected (db (s.getDbTableName D.legacy)).rows clause := DB.page_of_unpaged rfl rfl _
    simp only [hpage, Option.isSome_map]
    rfl

/-- A view makes a difference only after the row is fetched. -/
theorem getSingleResource_eq (hcolumns : requestedColumns D s q = .ok columns) :
    getSingleResource D db auth s resourceID q =
      fetchedRow D db auth s resourceID >>= fun fetched ↦
        applyPolicyForResource fetched.1 (rowView D db s q columns fetched.2) := by
  rw [getSingleResource, fetchedRow]
  simp only [bind_assoc]
  refine bind_congr fun policy ↦ bind_congr fun filter ↦ ?_
  have hlist : D.list db s filter (some (listOptionsFromQueryParameter q)) none =
      ((addFilterToQuery s filter).map fun clause ↦
        let rows := D.selected (db (s.getDbTableName D.legacy)).rows clause
        (rows, rows.length)).map fun found ↦
          (found.1.map (rowView D db s q columns), found.2) := by
    rw [list_eq hcolumns]
    cases addFilterToQuery s filter <;> rfl
  rw [hlist, firstOf_map]
  cases DB.firstOf "Failed to fetch %s: %s" ((addFilterToQuery s filter).map fun clause ↦
      let rows := D.selected (db (s.getDbTableName D.legacy)).rows clause
      (rows, rows.length)) <;> rfl

end

/-! ## What a view changes -/

section

variable {D : Deployment} {db : Database} {auth : Authorization} {s : Schema} {q : UrlQuery}
  {columns columns' : Columns}

/-- A request with a view is the request without it, for other columns. -/
theorem Views.listRequest_eq_ok (h : Views D s q columns columns') {r : ListRequest}
    (hr : listRequest D auth s q.withoutView = .ok r) :
    r.columns = columns ∧ listRequest D auth s q = .ok { r with columns := columns' } := by
  simp only [listRequest, Go.bind_eq_ok] at hr
  obtain ⟨policy, hpolicy, p, hp, c, hc, pg, hpg, _, hverify, whole, hwhole, ab, hab, ⟨⟩⟩ := hr
  obtain rfl := Except.ok.inj (hwhole.symm.trans h.whole)
  rw [UrlQuery.fromURLQuery_withoutView] at hpg
  rw [UrlQuery.verifyQueryParams_withoutView] at hverify
  refine ⟨rfl, ?_⟩
  simp only [listRequest, Go.bind_eq_ok]
  exact ⟨policy, hpolicy, p, UrlQuery.queryFilter_withoutView h.fields h.details hp, c, hc, pg, hpg,
    _, hverify, columns', h.asked, ab, hab, rfl⟩

/-- The rows on the page of a request. -/
def ListRequest.pageRows (r : ListRequest) (D : Deployment) (db : Database) (auth : Authorization)
    (s : Schema) : List Dict :=
  D.page (db (s.getDbTableName D.legacy)).rows (r.select s auth)

/-- The conditions of a policy see the same of a row with the view and without. -/
def SameInView (D : Deployment) (db : Database) (s : Schema) (q : UrlQuery)
    (columns columns' : Columns) (policy : Policy) (row : Dict) : Prop :=
  policy.currentResourceCondition.SeesSame actionRead (rowView D db s q.withoutView columns row)
    (rowView D db s q columns' row)

/-- One resource is the part of another one that a query asks for. -/
def PartOf (q : UrlQuery) (columns' : Columns) (resource view : Dict) : Prop :=
  ∀ key, view.lookup key =
    (columns'.part (q.lookup "_fields").isSome resource ∅).lookup key

/-- The conditions see the same if what they name is asked for. -/
theorem sameInView_of_asks (h : Views D s q columns columns') {policy : Policy} {row : Dict}
    (hasks : ∀ filter ∈ policy.currentResourceCondition.actionPropertyConditionFilter.getSlice
      actionRead, ∀ e ∈ filter, e.1 ∉ columns.relations ∧ columns'.asks e.1 = true) :
    SameInView D db s q columns columns' policy row := fun filter hfilter e he ↦
  (h.get_rowView (hasks filter hfilter e he).1 (hasks filter hfilter e he).2).symm

/-- A list with a view. -/
theorem applyPolicyForResources_view (h : Views D s q columns columns') {policy : Policy}
    {rows : List Dict} (hsame : ∀ row ∈ rows, SameInView D db s q columns columns' policy row)
    {list : List Dict}
    (hlist : applyPolicyForResources policy (rows.map (rowView D db s q.withoutView columns)) =
      .ok list) : ∃ view,
      applyPolicyForResources policy (rows.map (rowView D db s q columns')) = .ok view ∧
        Forall₂ (PartOf q columns') list view := by
  induction rows generalizing list with
  | nil =>
    obtain rfl := Except.ok.inj hlist
    exact ⟨[], rfl, .nil⟩
  | cons row rows ih =>
    rw [List.forall_mem_cons] at hsame
    rw [List.map_cons, applyPolicyForResources, hsame.1.readAllowed_eq] at hlist
    obtain ⟨allowed, hallowed, hlist⟩ := Go.bind_eq_ok.mp hlist
    obtain ⟨rest, hrest, hlist⟩ := Go.bind_eq_ok.mp hlist
    obtain rfl := Except.ok.inj hlist
    obtain ⟨view, hview, hparts⟩ := ih hsame.2 hrest
    refine ⟨if allowed then policy.removeHiddenProperty (rowView D db s q columns' row) :: view
      else view, ?_, ?_⟩
    · rw [List.map_cons, applyPolicyForResources, hallowed, Go.ok_bind, hview, Go.ok_bind]
    · cases allowed with
      | false => exact hparts
      | true => exact .cons (fun _ ↦ h.lookup_shown policy) hparts

/-- One resource with a view: the same error, or the part of the same resource. -/
theorem applyPolicyForResource_view (h : Views D s q columns columns') {policy : Policy}
    {row : Dict} (hsame : SameInView D db s q columns columns' policy row) :
    (∃ fault, applyPolicyForResource policy (rowView D db s q.withoutView columns row) =
        .error fault ∧
      applyPolicyForResource policy (rowView D db s q columns' row) = .error fault) ∨
    ∃ resource view,
      applyPolicyForResource policy (rowView D db s q.withoutView columns row) = .ok resource ∧
      applyPolicyForResource policy (rowView D db s q columns' row) = .ok view ∧
        PartOf q columns' resource view := by
  rw [applyPolicyForResource, applyPolicyForResource, hsame.applyPropertyConditionFilter_eq]
  cases policy.currentResourceCondition.applyPropertyConditionFilter actionRead
      (rowView D db s q columns' row) none with
  | error fault => exact .inl ⟨fault, rfl, rfl⟩
  | ok _ => exact .inr ⟨_, _, rfl, rfl, fun _ ↦ h.lookup_shown policy⟩

/-- **A view shows parts of the same resources.**  For every deployment, caller, database, schema
and query: if the conditions of the policy see the same of the rows on the page, a list with a view
is the list without it, with the part that is asked for in each place; and if they see the same of
the row that is fetched, a resource is found with a view exactly when it is found without, and the
part of it is shown. -/
theorem view_partOf (h : Views D s q columns columns') (db : Database) (auth : Authorization) :
    (∀ r, listRequest D auth s q.withoutView = .ok r →
      (∀ row ∈ r.pageRows D db auth s, SameInView D db s q columns columns' r.policy row) →
        ∀ list total, getMultipleResources D db auth s q.withoutView = .ok (list, total) →
          ∃ view, getMultipleResources D db auth s q = .ok (view, total) ∧
            list.length = view.length ∧ Forall₂ (PartOf q columns') list view) ∧
    ∀ resourceID, (∀ policy row, fetchedRow D db auth s resourceID = .ok (policy, row) →
        SameInView D db s q columns columns' policy row) →
      ((∃ resource, getSingleResource D db auth s resourceID q.withoutView = .ok resource) ↔
        ∃ view, getSingleResource D db auth s resourceID q = .ok view) ∧
      ∀ resource view, getSingleResource D db auth s resourceID q.withoutView = .ok resource →
        getSingleResource D db auth s resourceID q = .ok view →
          PartOf q columns' resource view := by
  constructor
  · intro r hr hsame list total hlist
    obtain ⟨hcolumns, hrequest⟩ := h.listRequest_eq_ok hr
    rw [getMultipleResources_eq, hr, Go.ok_bind] at hlist
    split at hlist
    · next haccepts =>
      obtain ⟨data, hdata, hlist⟩ := Go.bind_eq_ok.mp hlist
      obtain ⟨rfl, rfl⟩ := Prod.mk.inj (Except.ok.inj hlist)
      subst hcolumns
      obtain ⟨view, hview, hparts⟩ := applyPolicyForResources_view h hsame hdata
      refine ⟨view, ?_, hparts.length_eq, hparts⟩
      rw [getMultipleResources_eq, hrequest, Go.ok_bind]
      exact (if_pos haccepts).trans (Go.bind_eq_ok.mpr ⟨view, hview, rfl⟩)
    · exact absurd hlist (Go.errorf_ne_ok _ _ _)
  · intro resourceID hsame
    rw [getSingleResource_eq h.whole, getSingleResource_eq h.asked]
    cases hfetched : fetchedRow D db auth s resourceID with
    | error fault => simp [bind, Except.bind]
    | ok fetched =>
      rw [Go.ok_bind, Go.ok_bind]
      rcases applyPolicyForResource_view h (hsame fetched.1 fetched.2 hfetched) with
        ⟨fault, hwhole, hview⟩ | ⟨resource, view, hwhole, hview, hpart⟩
      · rw [hwhole, hview]
        simp
      · rw [hwhole, hview]
        refine ⟨⟨fun _ ↦ ⟨_, rfl⟩, fun _ ↦ ⟨_, rfl⟩⟩, fun a b ha hb ↦ ?_⟩
        obtain rfl := Except.ok.inj ha
        obtain rfl := Except.ok.inj hb
        exact hpart

end

/-- The identifier and the state. -/
def idAndState : UrlQuery := GoMap.ofList [("_fields", ["id", "state"])]

theorem views_idAndState (policy : Policy) :
    Views (serverDeployment policy) serverSchema idAndState
      (.plain { id := "id" } true (.plain { id := tenantIDKey } true
        (.plain { id := "state" } true .done)))
      (.plain { id := "id" } true (.plain { id := tenantIDKey } false
        (.plain { id := "state" } true .done))) where
  whole := rfl
  asked := rfl
  any := rfl
  distinct := ⟨by decide, by decide, by decide, trivial⟩
  parent := ⟨by decide, rfl⟩
  fields := rfl
  details := rfl

omit [RegexpEngine] in
/-- A view with the state, which the condition is about. -/
theorem view_partOf_upServer : letI := Re2.engine
    ∃ policy, newPolicy upPolicy = .ok policy ∧
      let columns := Columns.plain { id := "id" } true (.plain { id := tenantIDKey } false
        (.plain { id := "state" } true .done))
      ∃ view, getMultipleResources (serverDeployment policy) oneServer member serverSchema
          idAndState = .ok (view, 1) ∧ [upServer].length = view.length ∧
        Forall₂ (PartOf idAndState columns) [upServer] view := by
  let _ := Re2.engine
  have hpolicy : ∃ policy, newPolicy upPolicy = .ok policy ∧
      (getMultipleResources (serverDeployment policy) oneServer member serverSchema
        idAndState.withoutView = .ok ([upServer], 1) ∧
      (listRequest (serverDeployment policy) member serverSchema idAndState.withoutView).map
        (·.policy.currentResourceCondition.actionPropertyConditionFilter.getSlice actionRead) =
          .ok [[("state", .str "UP")]]) := Go.exists_of_map_decide (by decide +kernel)
  obtain ⟨policy, hpolicy, hlist, hnamed⟩ := hpolicy
  have h := views_idAndState policy
  refine ⟨policy, hpolicy, ?_⟩
  cases hr : listRequest (serverDeployment policy) member serverSchema idAndState.withoutView with
  | error fault =>
    rw [hr] at hnamed
    cases hnamed
  | ok r =>
    rw [hr] at hnamed
    have hmatches : r.policy.currentResourceCondition.actionPropertyConditionFilter.getSlice
        actionRead = [[("state", .str "UP")]] := Except.ok.inj hnamed
    refine (view_partOf h oneServer member).1 r hr (fun row _ ↦ sameInView_of_asks h ?_) _ _ hlist
    rw [hmatches]
    decide

/-- A port with the network it is in, under a name that the port has too. -/
def namedPortSchema : Schema where
  id := "port"
  singular := "port"
  plural := "ports"
  url := "/v2.0/ports"
  properties := [{ id := "id" }, { id := "note", nullable := true },
    { id := "network_id", relation := "network", relationProperty := "name" }, { id := "name" }]

/-- Networks, of which nothing but the identifier is known. -/
def plainNetworkSchema : Schema where
  id := "network"
  singular := "network"
  plural := "networks"
  url := "/v2.0/networks"
  properties := [{ id := "id" }]

/-- A policy that lets members read the ports. -/
def portPolicy : Value := .map [("id", .str "ports"), ("principal", .str "Member"),
  ("action", .str "read"), ("effect", .str "allow"),
  ("resource", .map [("path", .str "/v2.0/ports")])]

/-- A server with ports and networks, and one policy. -/
def portDeployment (policy : Policy) : Deployment where
  schemas := [namedPortSchema, plainNetworkSchema]
  server := exactServer
  policies := [policy]

/-- A port without a note, in a network. -/
def onePort : Database := fun name ↦
  if name = "networks" then ⟨[GoMap.ofList [("id", .str "red")]], by decide⟩
  else ⟨[GoMap.ofList [("id", .str "p1"), ("network_id", .str "red"), ("name", .str "blue")]],
    by decide⟩

/-- The notes and the names in a list. -/
def notesAndNames (list : Go (List Dict × ℕ)) : Go (List (Option Value × Option Value)) :=
  list.map fun found ↦ found.1.map fun resource ↦ (resource.lookup "note", resource.lookup "name")

omit [RegexpEngine] in
/-- Without a view the server is shown, and without its state it is not: the condition is held
against what was asked for.  A note that is not there is shown as NULL, and left out when it is
asked for by name.  And a network hides behind the name of its port, until the name is left out. -/
theorem fields_drop_row : letI := Re2.engine
    (∃ policy, newPolicy upPolicy = .ok policy ∧
      let D := serverDeployment policy
      getMultipleResources D oneServer member serverSchema ∅ = .ok ([upServer], 1) ∧
        getMultipleResources D oneServer member serverSchema
          (GoMap.ofList [("_fields", ["id"])]) = .ok ([], 1) ∧
        getSingleResource D oneServer member serverSchema "s1" ∅ = .ok upServer ∧
        (getSingleResource D oneServer member serverSchema "s1"
          (GoMap.ofList [("_fields", ["id"])])).isOk = false) ∧
    ∃ policy, newPolicy portPolicy = .ok policy ∧
      let D := portDeployment policy
      notesAndNames (getMultipleResources D onePort member namedPortSchema ∅) =
          .ok [(some .nil, some (.str "blue"))] ∧
        notesAndNames (getMultipleResources D onePort member namedPortSchema
          (GoMap.ofList [("_fields", ["id", "note", "network.id"])])) =
            .ok [(none, some (.map [("id", .str "red")]))] := by
  let _ := Re2.engine
  exact ⟨Go.exists_of_map_decide (by decide +kernel), Go.exists_of_map_decide (by decide +kernel)⟩

end Gohan
