import Gohan.Logic.Paging
import Gohan.Server.Noninterference

/-!
# Reading a list page by page

A client that reads a long list asks for `limit` resources at the offsets 0, `limit`, and so on.
The statement for a page says what to order by, and the page is cut from the rows in this order.

What the order does not decide is up to the database, and it may decide differently for every page.
The statement orders by the sort key alone, so rows with one sort key may change places between two
pages.  Then the pages have every row once if no two rows with one sort key are on different pages,
and a client cannot rely on it otherwise (`pages_perm_selected_iff`).

`math.MaxUint64` stands for no limit, and then no `LIMIT` is written.  An `OFFSET` is written
whenever there is one, and neither MySQL nor SQLite knows an `OFFSET` without a `LIMIT`.
-/

set_option autoImplicit false

namespace Gohan

/-! ## Statements -/

/-- The databases that statements are written for. -/
inductive Dialect where
  | mysql
  | sqlite

/-- The largest number after `LIMIT` and `OFFSET`: MySQL reads one without a sign, SQLite one
with. -/
def Dialect.largest : Dialect → ℕ
  | mysql => 18446744073709551615
  | sqlite => 9223372036854775807

/-- The end of the statement: `LIMIT n`, `LIMIT n OFFSET m` or nothing. -/
structure Dialect.WellFormed (d : Dialect) (q : SelectQuery) : Prop where
  limit_of_offset : q.offset ≠ 0 → q.limit ≠ none
  limit_le : ∀ n, q.limit = some n → n ≤ d.largest
  offset_le : q.offset ≤ d.largest

/-- What comes out are the rows a paginator asks for, however they were put in order. -/
def IsWindow (pg : Paginator) (q : SelectQuery) : Prop :=
  ∀ rows : List Dict, rows.length ≤ maxUint64 →
    Selection.cut q.offset q.limit rows = (rows.drop pg.Offset).take pg.Limit

namespace Paginator

/-- The numbers are written where they have to be, and are not too large. -/
structure Writable (pg : Paginator) : Prop where
  limit_of_offset : pg.Offset ≠ 0 → pg.Limit ≠ maxUint64
  limit_le : pg.Limit ≠ maxUint64 → pg.Limit ≤ Dialect.sqlite.largest
  offset_le : pg.Offset ≤ Dialect.sqlite.largest

/-- The same list from another offset on. -/
def pageOf (pg : Paginator) (k : ℕ) : Paginator := { pg with Offset := k * pg.Limit }

theorem optionKey_eq_ok {s : Schema} {key : String} (h : optionKey s key = .ok ())
    (hne : key ≠ "") :
    s.hasPropertyID key = true := by
  rw [optionKey] at h
  split at h
  · cases h
  · next hnot =>
    by_contra hkey
    exact hnot ⟨hne, by simpa using hkey⟩

/-- A paginator of a query orders by a property of the schema. -/
theorem order?_of_fromURLQuery {s : Schema} {values : UrlQuery} {pg : Paginator}
    (h : fromURLQuery s values = .ok pg) : pg.order? s = some (pg.Key, pg.Order == "desc") := by
  simp only [fromURLQuery, Go.bind_eq_ok] at h
  obtain ⟨limit, -, offset, -, ⟨⟩, hkey, ⟨⟩, -, ⟨⟩⟩ := h
  have hne : sortKey values ≠ "" := by
    rw [sortKey]
    split
    · decide
    · next hne => exact hne
  rw [order?, if_pos ⟨hne, optionKey_eq_ok hkey hne⟩]

end Paginator

namespace DB

variable {D : DB}

/-- What `ORDER BY` asks for. -/
def rowOrder (D : DB) : Option (String × Bool) → Dict → Dict → Prop
  | none, _, _ => True
  | some (key, desc), a, b => D.before key desc a b

instance (order : Option (String × Bool)) : Std.Total (D.rowOrder order) where
  total a b := by
    cases order with
    | none => exact .inl trivial
    | some o => exact Std.Total.total (r := D.before o.1 o.2) a b

instance (order : Option (String × Bool)) : IsTrans Dict (D.rowOrder order) where
  trans a b c hab hbc := by
    cases order with
    | none => trivial
    | some o => exact IsTrans.trans (r := D.before o.1 o.2) a b c hab hbc

/-- An answer to a query that honours its clauses, on the rows of the table. -/
def Honours (D : DB) (rows : List Dict) (q : SelectQuery) (answer : List Dict) : Prop :=
  ∃ l, Paging.Orders (D.rowOrder q.order) (D.selected rows q.clause) l ∧
    answer = Selection.cut q.offset q.limit l

theorem orders_ordered (order : Option (String × Bool)) (rows : List Dict) :
    Paging.Orders (D.rowOrder order) rows (D.ordered order rows) := by
  cases order with
  | none => exact ⟨.refl rows, List.pairwise_of_forall fun _ _ ↦ trivial⟩
  | some o =>
    obtain ⟨key, desc⟩ := o
    exact ⟨List.perm_insertionSort _ _, List.pairwise_insertionSort (D.before key desc) rows⟩

/-- **The pages that `List` makes the resources of** are such answers. -/
theorem honours_page (rows : List Dict) (q : SelectQuery) : D.Honours rows q (D.page rows q) :=
  ⟨_, orders_ordered q.order _, rfl⟩

theorem buildSelect_paginator {s : Schema} {filter : GoMap FilterVal}
    {options : Option ViewOptions} {pg : Paginator} {q : SelectQuery} {clause : List Sqlizer}
    (hclause : addFilterToQuery s filter = .ok clause)
    (h : D.buildSelect s (listContextHelper s filter options (some pg)) = .ok q) :
    q.clause = clause ∧ q.order = pg.order? s ∧ q.limit = pg.limit? ∧ q.offset = pg.Offset := by
  cases options with
  | none =>
    obtain ⟨columns, -, h⟩ := Go.bind_eq_ok.mp h
    obtain ⟨clause', hclause', h⟩ := Go.bind_eq_ok.mp h
    cases hclause.symm.trans hclause'
    cases h
    exact ⟨rfl, rfl, rfl, rfl⟩
  | some options =>
    obtain ⟨columns, -, h⟩ := Go.bind_eq_ok.mp h
    obtain ⟨clause', hclause', h⟩ := Go.bind_eq_ok.mp h
    cases hclause.symm.trans hclause'
    cases h
    exact ⟨rfl, rfl, rfl, rfl⟩

end DB

/-! ## Windows -/

theorem isWindow {pg : Paginator} {q : SelectQuery} (hlimit : q.limit = pg.limit?)
    (hoffset : q.offset = pg.Offset) : IsWindow pg q := by
  intro rows hrows
  rw [hlimit, hoffset, Paginator.limit?]
  split
  · next hmax =>
    show rows.drop pg.Offset = (rows.drop pg.Offset).take pg.Limit
    rw [hmax, List.take_of_length_le]
    rw [List.length_drop]
    omega
  · rfl

/-- **The statement is well-formed for both databases, and has the window that is asked for, exactly
when there is a limit to write with an offset and both fit into 64 bits with a sign.** -/
theorem wellFormed_iff {pg : Paginator} {q : SelectQuery} (hlimit : q.limit = pg.limit?)
    (hoffset : q.offset = pg.Offset) :
    (∀ d : Dialect, d.WellFormed q ∧ IsWindow pg q) ↔ pg.Writable := by
  have hnone : q.limit = none ↔ pg.Limit = maxUint64 := by
    rw [hlimit, Paginator.limit?]
    split <;> simp [*]
  have hsome (n : ℕ) : q.limit = some n ↔ pg.Limit ≠ maxUint64 ∧ n = pg.Limit := by
    rw [hlimit, Paginator.limit?]
    split
    · next hmax => simp [hmax]
    · next hmax => simp [hmax, eq_comm]
  constructor
  · intro h
    obtain ⟨hwell, -⟩ := h .sqlite
    refine ⟨fun hne ↦ ?_, fun hne ↦ hwell.limit_le _ ((hsome _).mpr ⟨hne, rfl⟩), ?_⟩
    · rw [Ne, ← hnone]
      exact hwell.limit_of_offset (hoffset ▸ hne)
    · exact hoffset ▸ hwell.offset_le
  · intro h d
    have hlarge : Dialect.sqlite.largest ≤ d.largest := by cases d <;> decide
    refine ⟨⟨fun hne ↦ ?_, fun n hn ↦ ?_, ?_⟩, isWindow hlimit hoffset⟩
    · rw [Ne, hnone]
      exact h.limit_of_offset (hoffset ▸ hne)
    · obtain ⟨hne, rfl⟩ := (hsome n).mp hn
      exact (h.limit_le hne).trans hlarge
    · rw [hoffset]
      exact h.offset_le.trans hlarge

/-! ## All pages -/

/-- **However the database answers, the pages have every selected row once, exactly when no two rows
with one sort key are on different pages.** -/
theorem pages_perm_selected_iff {D : DB} {s : Schema} {filter : GoMap FilterVal}
    {options : Option ViewOptions} {clause : List Sqlizer} {pg : Paginator} {K : ℕ}
    {values : ℕ → UrlQuery} {q : ℕ → SelectQuery} {rows : List Dict}
    (hids : (rows.map (·.get "id")).Nodup) (hsize : rows.length ≤ maxUint64)
    (hclause : addFilterToQuery s filter = .ok clause)
    (hvalues : ∀ k < K, Paginator.fromURLQuery s (values k) = .ok (pg.pageOf k))
    (hq : ∀ k < K,
      D.buildSelect s (listContextHelper s filter options (some (pg.pageOf k))) = .ok (q k))
    (hcover : (D.selected rows clause).length ≤ K * pg.Limit) :
    (∀ answers : ℕ → List Dict, (∀ k < K, D.Honours rows (q k) (answers k)) →
      ((List.range K).flatMap answers).Perm (D.selected rows clause)) ↔
      ∀ k, Paging.Splits (D.before pg.Key (pg.Order == "desc"))
        (D.ordered (some (pg.Key, pg.Order == "desc")) (D.selected rows clause))
          (k * pg.Limit) := by
  let order := some (pg.Key, pg.Order == "desc")
  have hselected : (D.selected rows clause).length ≤ maxUint64 :=
    (List.length_filter_le _ _).trans hsize
  have hnodup : (D.selected rows clause).Nodup := (hids.of_map).filter _
  -- the answer for a page is a window of the rows in some order
  have hwindow (k : ℕ) (hk : k < K) (answer : List Dict) :
      D.Honours rows (q k) answer ↔
        ∃ l, Paging.Orders (D.rowOrder order) (D.selected rows clause) l ∧
          answer = Paging.window (k * pg.Limit) pg.Limit l := by
    obtain ⟨hqclause, hqorder, hqlimit, hqoffset⟩ := DB.buildSelect_paginator hclause (hq k hk)
    have hqorder : (q k).order = order :=
      hqorder.trans (Paginator.order?_of_fromURLQuery (hvalues k hk))
    rw [DB.Honours, hqclause, hqorder]
    refine exists_congr fun l ↦ and_congr_right fun hl ↦ ?_
    have hcut := isWindow hqlimit hqoffset l (hl.perm.length_eq.trans_le hselected)
    rw [hcut]
    rfl
  refine Iff.trans ?_
    (Paging.pages_perm_iff (DB.orders_ordered order (D.selected rows clause)) hnodup hcover)
  constructor
  · intro h ls hls
    exact h _ fun k hk ↦ (hwindow k hk _).mpr ⟨ls k, hls k, rfl⟩
  · intro h answers hanswers
    have hchoose (k : ℕ) : ∃ l, Paging.Orders (D.rowOrder order) (D.selected rows clause) l ∧
        (k < K → answers k = Paging.window (k * pg.Limit) pg.Limit l) := by
      by_cases hk : k < K
      · obtain ⟨l, hl, hanswer⟩ := (hwindow k hk _).mp (hanswers k hk)
        exact ⟨l, hl, fun _ ↦ hanswer⟩
      · exact ⟨_, DB.orders_ordered order _, fun hlt ↦ absurd hlt hk⟩
    choose ls hls hanswer using hchoose
    have hsame : (List.range K).flatMap answers = Paging.pages pg.Limit K ls :=
      List.flatMap_congr fun k hk ↦ hanswer k (List.mem_range.mp hk)
    rw [hsame]
    exact h ls hls

/-- **Reading a list page by page**: what the pages have, and what the statement of one is. -/
theorem list_pages_iff (D : DB) (db : Database) (s : Schema) (filter : GoMap FilterVal)
    (options : Option ViewOptions) {clause : List Sqlizer}
    (hids : ((db (s.getDbTableName D.legacy)).rows.map (·.get "id")).Nodup)
    (hsize : (db (s.getDbTableName D.legacy)).rows.length ≤ maxUint64)
    (hclause : addFilterToQuery s filter = .ok clause) :
    (∀ (pg : Paginator) (K : ℕ) (values : ℕ → UrlQuery) (q : ℕ → SelectQuery),
      (∀ k < K, Paginator.fromURLQuery s (values k) = .ok (pg.pageOf k)) →
      (∀ k < K,
        D.buildSelect s (listContextHelper s filter options (some (pg.pageOf k))) = .ok (q k)) →
      (D.selected (db (s.getDbTableName D.legacy)).rows clause).length ≤ K * pg.Limit →
      ((∀ answers : ℕ → List Dict,
          (∀ k < K, D.Honours (db (s.getDbTableName D.legacy)).rows (q k) (answers k)) →
            ((List.range K).flatMap answers).Perm
              (D.selected (db (s.getDbTableName D.legacy)).rows clause)) ↔
        ∀ k, Paging.Splits (D.before pg.Key (pg.Order == "desc"))
          (D.ordered (some (pg.Key, pg.Order == "desc"))
            (D.selected (db (s.getDbTableName D.legacy)).rows clause)) (k * pg.Limit))) ∧
    ∀ (values : UrlQuery) (pg : Paginator) (q : SelectQuery),
      Paginator.fromURLQuery s values = .ok pg →
      D.buildSelect s (listContextHelper s filter options (some pg)) = .ok q →
        ((∀ d : Dialect, d.WellFormed q ∧ IsWindow pg q) ↔ pg.Writable) := by
  constructor
  · intro pg K values q hvalues hq hcover
    exact pages_perm_selected_iff hids hsize hclause hvalues hq hcover
  · intro values pg q _ hq
    obtain ⟨-, -, hlimit, hoffset⟩ := DB.buildSelect_paginator hclause hq
    exact wellFormed_iff hlimit hoffset

/-! ## Two servers of one tenant -/

/-- Two servers, and nothing that decides between them but the identifier. -/
def listedServers : DB where
  schemas := [serverSchema]
  server := exactServer

/-- One resource at an offset, by a sort key. -/
def oneAt (key : String) (offset : String) : UrlQuery :=
  GoMap.ofList [("sort_key", [key]), ("limit", ["1"]), ("offset", [offset])]

/-- The page of two that begins at an offset. -/
def pageValues (key : String) (k : ℕ) : UrlQuery := oneAt key (if k = 0 then "0" else "1")

/-- The first of them, in the order of a key. -/
def firstBy (key : String) : Paginator := ⟨key, "asc", 1, 0⟩

/-- The statement for a page. -/
def pageQuery (key : String) (k : ℕ) : SelectQuery where
  columns := .plain { id := "id" } true
    (.plain { id := tenantIDKey } true (.plain { id := "state" } true .done))
  clause := []
  order := some (key, false)
  limit := some 1
  offset := k

theorem pageValues_eq {key : String} (hkey : key = "id" ∨ key = tenantIDKey) {k : ℕ} (hk : k < 2) :
    Paginator.fromURLQuery serverSchema (pageValues key k) = .ok ((firstBy key).pageOf k) := by
  rcases (show k = 0 ∨ k = 1 by omega) with rfl | rfl <;> rcases hkey with rfl | rfl <;> rfl

theorem pageQuery_eq {key : String} (hkey : key = "id" ∨ key = tenantIDKey) {k : ℕ} (hk : k < 2) :
    listedServers.buildSelect serverSchema
      (listContextHelper serverSchema ∅ none (some ((firstBy key).pageOf k))) =
        .ok (pageQuery key k) := by
  rcases (show k = 0 ∨ k = 1 by omega) with rfl | rfl <;> rcases hkey with rfl | rfl <;> rfl

/-- By the tenant, either server may come first. -/
theorem orders_tenants {l : List Dict} (h : l.Perm [upServer, downServer]) :
    Paging.Orders (listedServers.rowOrder (some (tenantIDKey, false)))
      [upServer, downServer] l := by
  refine ⟨h, List.pairwise_of_forall_mem_list fun a ha b hb ↦ ?_⟩
  have ha := h.mem_iff.mp ha
  have hb := h.mem_iff.mp hb
  simp only [List.mem_cons, List.not_mem_nil, or_false] at ha hb
  show listedServers.before tenantIDKey false a b
  rcases ha with rfl | rfl <;> rcases hb with rfl | rfl <;> decide +kernel

/-- By the tenant the first server may be on both pages, and an offset may stand alone. -/
theorem not_list_pages :
    (¬∀ (D : DB) (db : Database) (s : Schema) (filter : GoMap FilterVal)
      (options : Option ViewOptions) (clause : List Sqlizer) (pg : Paginator) (K : ℕ)
      (values : ℕ → UrlQuery) (q : ℕ → SelectQuery),
      ((db (s.getDbTableName D.legacy)).rows.map (·.get "id")).Nodup →
      (db (s.getDbTableName D.legacy)).rows.length ≤ maxUint64 →
      addFilterToQuery s filter = .ok clause →
      (∀ k < K, Paginator.fromURLQuery s (values k) = .ok (pg.pageOf k)) →
      (∀ k < K,
        D.buildSelect s (listContextHelper s filter options (some (pg.pageOf k))) = .ok (q k)) →
      (D.selected (db (s.getDbTableName D.legacy)).rows clause).length ≤ K * pg.Limit →
      ∀ answers : ℕ → List Dict,
        (∀ k < K, D.Honours (db (s.getDbTableName D.legacy)).rows (q k) (answers k)) →
          ((List.range K).flatMap answers).Perm
            (D.selected (db (s.getDbTableName D.legacy)).rows clause)) ∧
    ¬∀ (D : DB) (s : Schema) (filter : GoMap FilterVal) (options : Option ViewOptions)
      (values : UrlQuery) (pg : Paginator) (q : SelectQuery),
      Paginator.fromURLQuery s values = .ok pg →
      D.buildSelect s (listContextHelper s filter options (some pg)) = .ok q →
        ∀ d : Dialect, d.WellFormed q ∧ IsWindow pg q := by
  constructor
  · intro h
    have hkey : tenantIDKey = "id" ∨ tenantIDKey = tenantIDKey := .inr rfl
    have hperm := h listedServers twoServers serverSchema ∅ none [] (firstBy tenantIDKey) 2
      (pageValues tenantIDKey) (pageQuery tenantIDKey) (by decide +kernel) (by decide +kernel) rfl
      (fun k hk ↦ pageValues_eq hkey hk) (fun k hk ↦ pageQuery_eq hkey hk) (by decide +kernel)
      (fun _ ↦ [upServer]) fun k hk ↦ by
        rcases (show k = 0 ∨ k = 1 by omega) with rfl | rfl
        · exact ⟨[upServer, downServer], orders_tenants (.refl _), rfl⟩
        · exact ⟨[downServer, upServer], orders_tenants (.swap _ _ _), rfl⟩
    have hmem : downServer ∈ (List.range 2).flatMap fun _ ↦ [upServer] :=
      hperm.mem_iff.mpr (by decide +kernel)
    revert hmem
    decide +kernel
  · intro h
    have hwell := (h listedServers serverSchema ∅ none (GoMap.ofList [("offset", ["1"])])
      ⟨"id", "asc", maxUint64, 1⟩ { pageQuery "id" 1 with limit := none } rfl rfl .mysql).1
    exact hwell.limit_of_offset (by decide) rfl

/-- By the identifier no page end lies between two servers of one key, so every server is on one
page, whatever the database answers. -/
theorem pages_by_id :
    (∀ k, Paging.Splits (listedServers.before "id" false) [upServer, downServer] (k * 1)) ∧
    ∀ answers : ℕ → List Dict, (∀ k < 2,
      listedServers.Honours [upServer, downServer] (pageQuery "id" k) (answers k)) →
        ((List.range 2).flatMap answers).Perm [upServer, downServer] := by
  have hkey : "id" = "id" ∨ "id" = tenantIDKey := .inl rfl
  have hsplits (k : ℕ) :
      Paging.Splits (listedServers.before "id" false) [upServer, downServer] (k * 1) := by
    rcases (show k = 0 ∨ k = 1 ∨ 2 ≤ k by omega) with rfl | rfl | hk
    · intro a ha
      cases ha
    · intro a ha c hc
      rw [List.mem_singleton.mp ha, List.mem_singleton.mp hc]
      decide +kernel
    · intro a _ c hc
      rw [List.drop_eq_nil_of_le (by simpa using hk)] at hc
      cases hc
  obtain ⟨hpages, -⟩ := list_pages_iff listedServers twoServers serverSchema ∅ none
    (by decide +kernel) (by decide +kernel) (show addFilterToQuery serverSchema ∅ = .ok [] from rfl)
  exact ⟨hsplits, (hpages (firstBy "id") 2 (pageValues "id") (pageQuery "id")
    (fun k hk ↦ pageValues_eq hkey hk) (fun k hk ↦ pageQuery_eq hkey hk)
    (by decide +kernel)).mpr hsplits⟩

end Gohan
