import Gohan.Db.Custom
import Gohan.Server.List

/-!
# What a list depends on

Two databases are compared through one plural GET.  The rows that pass the scope and the custom
filter (`admittedRows`) are all that the order, the page and the total are about, because both are
part of the `WHERE` clause; the query itself looks at columns the policy shows only
(`columns_query_visible`).  So rows outside never matter, and hidden columns only where the sort key
or a property condition names one.

The property conditions are different: they are held against the resources after the page is cut.
A row they reject still counts, and takes a place on its page.  Only where there is no page, and
only the list, depends on the readable rows alone.
-/

set_option autoImplicit false

namespace Gohan

open List (Forall₂)

/-! ## The columns a query looks at -/

/-- A filter for one column looks at this column. -/
theorem columns_partOf_eqTo {s : Schema} {key : String} {value : FilterVal} {part : Sqlizer}
    (h : partOf s (.eqTo key value) = .ok part) : part.columns = [key] := by
  have hpart : partOf s (.eqTo key value) = restriction s (.eqTo key value) := rfl
  rw [hpart, restriction, Go.bind_eq_ok] at h
  obtain ⟨k, hk, h⟩ := h
  cases hk
  rw [Go.bind_eq_ok] at h
  obtain ⟨property, -, h⟩ := h
  cases value with
  | search text => cases h; rfl
  | value v =>
    have hcomp : comparison (.eqTo key (.value v)) key (parseBoolean property.type v) =
      .ok (.eq key (parseBoolean property.type v)) := rfl
    cases hcomp.symm.trans h
    rfl
  | elems filters => exact absurd h (Go.errorf_ne_ok _ _ _)

/-- Filters for single columns look at these columns. -/
theorem columns_addToFilter {s : Schema} {entries : List (String × FilterVal)}
    {parts : List Sqlizer}
    (h : addToFilter s (entries.map fun e ↦ FilterElem.eqTo e.1 e.2) = .ok parts) :
    partColumns parts = entries.map (·.1) := by
  induction entries generalizing parts with
  | nil => cases h; rfl
  | cons e entries ih =>
    rw [List.map_cons, addToFilter_cons, Go.bind_eq_ok] at h
    obtain ⟨part, hpart, h⟩ := h
    cases hrest : addToFilter s (entries.map fun e ↦ FilterElem.eqTo e.1 e.2) with
    | error e => rw [hrest] at h; cases h
    | ok rest =>
      rw [hrest] at h
      cases h
      rw [partColumns, columns_partOf_eqTo hpart, ih hrest]
      rfl

/-- Whether all of the filters are to hold or any, only their columns are looked at. -/
theorem columns_partOf_applyAnyOfFilter {s : Schema} {filter : GoMap FilterVal}
    {queryParameters : UrlQuery} {part : Sqlizer}
    (h : partOf s (applyAnyOfFilter filter queryParameters) = .ok part) :
    ∀ column ∈ part.columns, column ∈ filter.toList.map (·.1) := by
  rw [applyAnyOfFilter] at h
  match hentries : filter.toList with
  | [] =>
    rw [hentries] at h
    split at h <;> cases h <;> simp [Sqlizer.columns]
  | [e] =>
    rw [hentries] at h
    have hone : partOf s (.eqTo e.1 e.2) = .ok part := by split at h <;> exact h
    simp [columns_partOf_eqTo hone]
  | e :: e' :: entries =>
    rw [hentries] at h
    have hmany : ∃ parts, addToFilter s ((e :: e' :: entries).map fun e ↦ .eqTo e.1 e.2) =
        .ok parts ∧ part.columns = partColumns parts := by
      split at h
      · obtain ⟨parts, hparts, rfl⟩ := Go.map_eq_ok.mp ((partOf_or s _).symm.trans h)
        exact ⟨parts, hparts, rfl⟩
      · obtain ⟨parts, hparts, rfl⟩ := Go.map_eq_ok.mp ((partOf_and s _).symm.trans h)
        exact ⟨parts, hparts, rfl⟩
    obtain ⟨parts, hparts, hcols⟩ := hmany
    rw [hcols, columns_addToFilter hparts]
    exact fun _ hcol ↦ hcol

variable [RegexpEngine]

/-- The request of a plural GET, taken apart. -/
theorem listRequest_eq_ok {D : Deployment} {auth : Authorization} {s : Schema}
    {queryParameters : UrlQuery} {r : ListRequest}
    (h : listRequest D auth s queryParameters = .ok r) :
    loadPolicy D actionRead s.getPluralURL auth = .ok r.policy ∧
      Paginator.fromURLQuery s queryParameters = .ok r.paginator ∧
      requestedColumns D s queryParameters = .ok r.columns ∧
      (∃ p, queryFilter r.policy s queryParameters = .ok p ∧ partOf s p = .ok r.query) ∧
      ∃ c, customFilter r.policy s auth = .ok c ∧ partOf s c = .ok r.custom := by
  simp only [listRequest, bothParts, Go.bind_eq_ok] at h
  obtain ⟨policy, hpolicy, p, hp, c, hc, pg, hpg, _, -, columns, hcolumns, ab, hab, ⟨⟩⟩ := h
  obtain ⟨a, ha, b, hb, ⟨⟩⟩ := hab
  exact ⟨hpolicy, hpg, hcolumns, ⟨p, hp, ha⟩, c, hc, hb⟩

/-- **The query of a request looks at no hidden column.** -/
theorem columns_query_visible {D : Deployment} {auth : Authorization} {s : Schema}
    {queryParameters : UrlQuery} {r : ListRequest}
    (h : listRequest D auth s queryParameters = .ok r) :
    ∀ column ∈ r.query.columns, r.policy.resource.PropertiesFilter.validate column = true := by
  obtain ⟨-, -, -, ⟨p, hp, hpart⟩, -⟩ := listRequest_eq_ok h
  rw [queryFilter, Go.bind_eq_ok] at hp
  obtain ⟨filter, -, ⟨⟩⟩ := hp
  intro column hcolumn
  have hmem := columns_partOf_applyAnyOfFilter hpart column hcolumn
  rw [Policy.removeHiddenProperty, PropertyFilter.removeHiddenKeysFromMap,
    GoMap.map_fst_toList, ← AList.mem_keys] at hmem
  exact GoMap.of_mem_filterKeys hmem

/-! ## Two databases -/

namespace ListRequest

/-- The rows that pass the scope and the custom filter. -/
def admittedRows (r : ListRequest) (D : Deployment) (db : Database) (auth : Authorization)
    (s : Schema) : List Dict :=
  (db (s.getDbTableName D.legacy)).rows.filter fun row ↦
    decide (Selects D.server.toSqlEngine (r.scope s auth) row) &&
      decide (r.custom.eval D.server.toSqlEngine row = .tt)

/-- Those of them whose resource the property conditions let the caller read. -/
def readableRows (r : ListRequest) (D : Deployment) (db : Database) (auth : Authorization)
    (s : Schema) (queryParameters : UrlQuery) : List Dict :=
  (r.admittedRows D db auth s).filter fun row ↦
    canRead r.policy (r.view D db s queryParameters row)

/-- Two rows, of two databases, are the same to the caller: in the columns the policy shows and in
the sort key, in what the property conditions say of them, and, where these let the caller read
them, in the resource that is shown. -/
structure SameToCaller (r : ListRequest) (D : Deployment) (db db' : Database) (s : Schema)
    (queryParameters : UrlQuery) (row row' : Dict) : Prop where
  /-- The columns the policy shows. -/
  columns : ∀ column, r.policy.resource.PropertiesFilter.validate column = true →
    row.get column = row'.get column
  /-- The column the list is ordered by, which the policy may hide. -/
  sortKey : row.get r.paginator.Key = row'.get r.paginator.Key
  /-- The verdict of the property conditions, which may be about hidden properties. -/
  verdict : readAllowed r.policy (r.view D db s queryParameters row) =
    readAllowed r.policy (r.view D db' s queryParameters row')
  /-- What is shown of the resource, with the resources it refers to. -/
  shown : readAllowed r.policy (r.view D db s queryParameters row) = .ok true →
    r.policy.removeHiddenProperty (r.view D db s queryParameters row) =
      r.policy.removeHiddenProperty (r.view D db' s queryParameters row')

variable {D : Deployment} {auth : Authorization} {s : Schema} {queryParameters : UrlQuery}
  {r : ListRequest} {db db' : Database}

/-- Without details, what is shown of a resource follows from the columns that are: two rows that
agree on these, on the sort key and on the verdict are the same to the caller. -/
theorem SameToCaller.of_columns (hr : listRequest D auth s queryParameters = .ok r)
    (hdetails : (listOptionsFromQueryParameter queryParameters).Details = false) {row row' : Dict}
    (columns : ∀ column, r.policy.resource.PropertiesFilter.validate column = true →
      row.get column = row'.get column)
    (sortKey : row.get r.paginator.Key = row'.get r.paginator.Key)
    (verdict : readAllowed r.policy (r.view D db s queryParameters row) =
      readAllowed r.policy (r.view D db' s queryParameters row')) :
    r.SameToCaller D db db' s queryParameters row row' where
  columns := columns
  sortKey := sortKey
  verdict := verdict
  shown _ := by
    have hcolumns := (listRequest_eq_ok hr).2.2.1
    rw [requestedColumns, listContextHelper, hdetails] at hcolumns
    have hplain := isPlain_makeColumns hcolumns
    exact DB.filterKeys_newResource s (DB.filterKeys_decode columns db db' _ hplain rfl)

/-- The rows of a request are the admitted rows the query is true of. -/
theorem selected_eq (r : ListRequest) (D : Deployment) (db : Database) (auth : Authorization)
    (s : Schema) : D.selected (db (s.getDbTableName D.legacy)).rows (r.select s auth).clause =
      (r.admittedRows D db auth s).filter fun row ↦
        decide (r.query.eval D.server.toSqlEngine row = .tt) := by
  rw [DB.selected, admittedRows, List.filter_filter]
  refine List.filter_congr fun row _ ↦ ?_
  rw [← Bool.decide_and, ← Bool.decide_and, decide_eq_decide, select, selects_listClause]
  tauto

/-- The query is true of both of two related rows or of neither. -/
theorem forall₂_filter_query (hr : listRequest D auth s queryParameters = .ok r)
    {rows rows' : List Dict} (h : Forall₂ (r.SameToCaller D db db' s queryParameters) rows rows') :
    Forall₂ (r.SameToCaller D db db' s queryParameters)
      (rows.filter fun row ↦ decide (r.query.eval D.server.toSqlEngine row = .tt))
      (rows'.filter fun row ↦ decide (r.query.eval D.server.toSqlEngine row = .tt)) := by
  refine List.rel_filter (fun row row' hsame ↦ ?_) h
  have heval := @eval_congr D.server.toSqlEngine row row' r.query fun column hcolumn ↦
    hsame.columns column (columns_query_visible hr column hcolumn)
  beta_reduce
  rw [heval]

/-- Related rows come in the same order. -/
theorem forall₂_ordered {rows rows' : List Dict}
    (h : Forall₂ (r.SameToCaller D db db' s queryParameters) rows rows') :
    Forall₂ (r.SameToCaller D db db' s queryParameters)
      (D.ordered (r.select s auth).order rows) (D.ordered (r.select s auth).order rows') := by
  rw [select, Paginator.order?]
  split
  · refine Selection.forall₂_insertionSort (fun a b a' b' ha hb ↦ ?_) h
    rw [DB.before, DB.before, ha.sortKey, hb.sortKey]
  · exact h

/-- **Two databases with the same admitted rows give the same answer.** -/
theorem answer_congr (hr : listRequest D auth s queryParameters = .ok r)
    (h : Forall₂ (r.SameToCaller D db db' s queryParameters) (r.admittedRows D db auth s)
      (r.admittedRows D db' auth s)) :
    r.answer D db auth s queryParameters = r.answer D db' auth s queryParameters := by
  have hselected := forall₂_filter_query hr h
  rw [← selected_eq, ← selected_eq] at hselected
  have hpage : Forall₂ (r.SameToCaller D db db' s queryParameters)
      (D.page (db (s.getDbTableName D.legacy)).rows (r.select s auth))
      (D.page (db' (s.getDbTableName D.legacy)).rows (r.select s auth)) :=
    Selection.forall₂_cut _ _ (forall₂_ordered hselected)
  have hdata : applyPolicyForResources r.policy
      ((D.page (db (s.getDbTableName D.legacy)).rows (r.select s auth)).map
        (r.view D db s queryParameters)) =
      applyPolicyForResources r.policy
        ((D.page (db' (s.getDbTableName D.legacy)).rows (r.select s auth)).map
          (r.view D db' s queryParameters)) := by
    refine applyPolicyForResources_congr ?_
    rw [List.forall₂_map_left_iff, List.forall₂_map_right_iff]
    exact hpage.imp fun row row' hsame ↦ ⟨hsame.verdict, hsame.shown⟩
  rw [answer, answer, hdata, hselected.length_eq, hpage.length_eq]

/-- No check of a row the request selects panics. -/
def Decided (r : ListRequest) (D : Deployment) (db : Database) (auth : Authorization) (s : Schema)
    (queryParameters : UrlQuery) : Prop :=
  ∀ row ∈ D.selected (db (s.getDbTableName D.legacy)).rows (r.select s auth).clause,
    ∃ allowed, readAllowed r.policy (r.view D db s queryParameters row) = .ok allowed

/-- The readable rows the query is true of, in order. -/
def readableInOrder (r : ListRequest) (D : Deployment) (db : Database) (auth : Authorization)
    (s : Schema) (queryParameters : UrlQuery) : List Dict :=
  D.ordered (r.select s auth).order ((r.readableRows D db auth s queryParameters).filter fun row ↦
    decide (r.query.eval D.server.toSqlEngine row = .tt))

theorem mem_readableInOrder {row : Dict} :
    row ∈ r.readableInOrder D db auth s queryParameters ↔
      row ∈ r.readableRows D db auth s queryParameters ∧
        r.query.eval D.server.toSqlEngine row = .tt := by
  rw [readableInOrder, DB.mem_ordered, List.mem_filter, decide_eq_true_eq]

/-- **Without a page, the list is made of the readable rows**, and the total counts the rows that
are selected. -/
theorem answer_of_unpaged {list : List Dict} {total : ℕ} (hlimit : r.paginator.Limit = maxUint64)
    (hoffset : r.paginator.Offset = 0) :
    r.answer D db auth s queryParameters = .ok (list, total) ↔
      r.Decided D db auth s queryParameters ∧
        list = (r.readableInOrder D db auth s queryParameters).map
          (fun row ↦ r.policy.removeHiddenProperty (r.view D db s queryParameters row)) ∧
        total =
          (D.selected (db (s.getDbTableName D.legacy)).rows (r.select s auth).clause).length := by
  have hpage : D.page (db (s.getDbTableName D.legacy)).rows (r.select s auth) =
      D.ordered (r.select s auth).order
        (D.selected (db (s.getDbTableName D.legacy)).rows (r.select s auth).clause) :=
    DB.page_of_unpaged hoffset (if_pos hlimit) _
  have hkept : (D.ordered (r.select s auth).order
      (D.selected (db (s.getDbTableName D.legacy)).rows (r.select s auth).clause)).filter
        (fun row ↦ canRead r.policy (r.view D db s queryParameters row)) =
      r.readableInOrder D db auth s queryParameters := by
    rw [selected_eq, DB.filter_ordered, List.filter_comm]
    rfl
  rw [answer, Go.bind_eq_ok]
  simp only [applyPolicyForResources_eq_ok, List.forall_mem_map, hpage, DB.mem_ordered,
    DB.length_ordered, hlimit, hoffset, bne_self_eq_false, Bool.or_self, Bool.false_eq_true,
    if_false, Except.ok.injEq, Prod.mk.injEq, List.filter_map]
  constructor
  · rintro ⟨_, ⟨hdecided, rfl⟩, rfl, rfl⟩
    refine ⟨hdecided, ?_, rfl⟩
    rw [← hkept, List.map_map]
    rfl
  · rintro ⟨hdecided, rfl, rfl⟩
    refine ⟨_, ⟨hdecided, rfl⟩, ?_, rfl⟩
    rw [← hkept, List.map_map]
    rfl

/-- **Without a page, two databases with the same readable rows give the same list.** -/
theorem list_congr (hr : listRequest D auth s queryParameters = .ok r)
    (hlimit : r.paginator.Limit = maxUint64) (hoffset : r.paginator.Offset = 0)
    (h : Forall₂ (r.SameToCaller D db db' s queryParameters)
      (r.readableRows D db auth s queryParameters) (r.readableRows D db' auth s queryParameters))
    {list list' : List Dict} {total total' : ℕ}
    (hlist : r.answer D db auth s queryParameters = .ok (list, total))
    (hlist' : r.answer D db' auth s queryParameters = .ok (list', total')) : list = list' := by
  rw [((answer_of_unpaged hlimit hoffset).mp hlist).2.1,
    ((answer_of_unpaged hlimit hoffset).mp hlist').2.1, ← List.forall₂_eq_eq_eq,
    List.forall₂_map_left_iff, List.forall₂_map_right_iff]
  have hsame := @forall₂_ordered _ _ auth _ _ _ _ _ _ _ (forall₂_filter_query hr h)
  have hreadable : ∀ row ∈ r.readableInOrder D db auth s queryParameters,
      canRead r.policy (r.view D db s queryParameters row) = true := fun row hrow ↦
    (List.mem_filter.mp (mem_readableInOrder.mp hrow).1).2
  exact ((List.forall₂_and_left _ _).mpr ⟨hreadable, hsame⟩).imp fun row row' hboth ↦
    hboth.2.shown (readAllowed_eq_ok_true.mpr hboth.1)

end ListRequest

/-- The query asks for no page. -/
def Unpaged (queryParameters : UrlQuery) : Prop :=
  queryParameters.getFirst "limit" = "" ∧ queryParameters.getFirst "offset" = ""

omit [RegexpEngine] in
theorem Unpaged.paginator {queryParameters : UrlQuery} (h : Unpaged queryParameters) {s : Schema}
    {pg : Paginator} (hpg : Paginator.fromURLQuery s queryParameters = .ok pg) :
    pg.Limit = maxUint64 ∧ pg.Offset = 0 := by
  simp only [Paginator.fromURLQuery, Paginator.parseLimit, Paginator.parseOffset, h.1, h.2, if_true,
    Go.bind_eq_ok] at hpg
  obtain ⟨limit, ⟨⟩, offset, ⟨⟩, _, -, _, -, ⟨⟩⟩ := hpg
  exact ⟨rfl, rfl⟩

/-- **What a plural GET depends on.**  For every deployment, caller, schema and query, and for any
two databases:

* if their admitted rows are the same to the caller, one by one in the order of the table, the list
  and the total are the same;
* if only their readable rows are, and the query asks for no page, the list is the same. -/
theorem list_noninterference (D : Deployment) (auth : Authorization) (s : Schema)
    (queryParameters : UrlQuery) (db db' : Database) :
    ((∀ r, listRequest D auth s queryParameters = .ok r →
        Forall₂ (r.SameToCaller D db db' s queryParameters) (r.admittedRows D db auth s)
          (r.admittedRows D db' auth s)) →
      getMultipleResources D db auth s queryParameters =
        getMultipleResources D db' auth s queryParameters) ∧
    (Unpaged queryParameters →
      (∀ r, listRequest D auth s queryParameters = .ok r →
        Forall₂ (r.SameToCaller D db db' s queryParameters)
          (r.readableRows D db auth s queryParameters)
          (r.readableRows D db' auth s queryParameters)) →
      ∀ list total list' total',
        getMultipleResources D db auth s queryParameters = .ok (list, total) →
        getMultipleResources D db' auth s queryParameters = .ok (list', total') →
          list = list') := by
  rw [getMultipleResources_eq, getMultipleResources_eq]
  cases hr : listRequest D auth s queryParameters with
  | error e =>
    refine ⟨fun _ ↦ rfl, fun _ _ _ _ _ _ hlist ↦ ?_⟩
    cases hlist
  | ok r =>
    simp only [bind, Except.bind]
    refine ⟨fun h ↦ ?_, fun hunpaged h list total list' total' hlist hlist' ↦ ?_⟩
    · rw [ListRequest.answer_congr hr (h r rfl)]
    · obtain ⟨hlimit, hoffset⟩ := hunpaged.paginator (listRequest_eq_ok hr).2.1
      split at hlist
      · next haccepts =>
        rw [if_pos haccepts] at hlist'
        exact ListRequest.list_congr hr hlimit hoffset (h r rfl) hlist hlist'
      · cases hlist

/-! ## A rejected row counts -/

/-- A server whose order is that of the texts, with NULL first. -/
def exactServer : SqlServer where
  toSqlEngine := exactEngine
  le a b := decide (a.maybeString ≤ b.maybeString)
  le_total a b := by simpa using String.le_total a.maybeString b.maybeString
  le_trans a b c hab hbc := by
    simp only [decide_eq_true_eq] at hab hbc ⊢
    exact String.le_trans hab hbc

/-- A policy that lets members read the servers that are up. -/
def upPolicy : Value := .map [("id", .str "up"), ("principal", .str "Member"),
  ("action", .str "read"), ("effect", .str "allow"),
  ("resource", .map [("path", .str "/v2.0/servers")]),
  ("condition", .list [.map [("type", .str "property"), ("match", .map [("state", .str "UP")])]])]

/-- A server that is up. -/
def upServer : Dict :=
  GoMap.ofList [("id", .str "s1"), (tenantIDKey, .str "acme-1"), ("state", .str "UP")]

/-- A server that is down. -/
def downServer : Dict :=
  GoMap.ofList [("id", .str "s2"), (tenantIDKey, .str "acme-1"), ("state", .str "DOWN")]

/-- A database with one server. -/
def oneServer : Database := fun _ ↦ ⟨[upServer], by decide⟩

/-- The same database with a second server, which the caller cannot read. -/
def twoServers : Database := fun _ ↦ ⟨[upServer, downServer], by decide⟩

/-- The deployment with the servers and one policy. -/
def serverDeployment (policy : Policy) : Deployment where
  schemas := [serverSchema]
  server := exactServer
  policies := [policy]

omit [RegexpEngine] in
/-- The caller can read the same rows of both databases and gets the same list, but the total tells
it how many rows there are. -/
theorem total_counts_rejected : letI := Re2.engine
    ∃ policy, newPolicy upPolicy = .ok policy ∧
      let D := serverDeployment policy
      (listRequest D member serverSchema ∅).map
          (·.readableRows D oneServer member serverSchema ∅) = .ok [upServer] ∧
        (listRequest D member serverSchema ∅).map
          (·.readableRows D twoServers member serverSchema ∅) = .ok [upServer] ∧
        getMultipleResources D oneServer member serverSchema ∅ = .ok ([upServer], 1) ∧
        getMultipleResources D twoServers member serverSchema ∅ = .ok ([upServer], 2) :=
  let _ := Re2.engine
  Go.exists_of_map_decide (by decide +kernel)

end Gohan
