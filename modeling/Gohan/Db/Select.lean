import Gohan.Db.Where
import Gohan.Logic.Selection

/-!
# Queries

A list of resources is read with one `SELECT`: the columns of the table, and with `join` those of
the resources it refers to, the rows the filter selects, in the order the paginator asks for, and
from these the page.  Each row is decoded into the data of a resource.

What the database decides by itself is `SqlServer`: how it compares values and orders them, and
whether it takes an `OFFSET` that has no `LIMIT`.  A row holds under each column what the handler of
the property's type makes of the driver's value.  Without an order, or for rows of equal keys, the
rows come in the order of the table.

The columns are collected from the schemas before the query is sent, following one schema to the
next, so `makeColumns` is where a missing schema or an endless chain of relations is fatal, and what
it returns (`Columns`) is a finite tree that decoding follows.
-/

set_option autoImplicit false

namespace Gohan

/-- The database server. -/
structure SqlServer extends SqlEngine where
  /-- The order of `ORDER BY … asc`. -/
  le : Value → Value → Bool
  le_total : ∀ a b, le a b = true ∨ le b a = true
  le_trans : ∀ a b c, le a b = true → le b c = true → le a c = true
  /-- Does it accept an `OFFSET` without a `LIMIT`? -/
  offsetAlone : Bool := false

/-- The rows of a table, in the order of the table.  The identifier is the primary key. -/
structure Table where
  rows : List Dict
  id_ne_nil : ∀ row ∈ rows, row.get "id" ≠ .nil

/-- The contents of a database, by the name of the table. -/
abbrev Database := String → Table

/-- What the SQL layer knows besides the contents: the registered schemas, the configuration flag
`database/legacy` and the server. -/
structure DB where
  schemas : List Schema
  legacy : Bool := true
  server : SqlServer

/-! ## Pages -/

/-- `url.Values`. -/
abbrev UrlQuery := GoMap (List String)

/-- `values.Get(key)`: the first value, or the empty string. -/
def UrlQuery.getFirst (values : UrlQuery) (key : String) : String :=
  ((values.getSlice key).head?).getD ""

/-- `math.MaxUint64`, which stands for no limit. -/
def maxUint64 : ℕ := 18446744073709551615

/-- The sort key, the order, and the piece of the list that is asked for. -/
structure Paginator where
  Key : String
  Order : String
  Limit : ℕ
  Offset : ℕ

/-- The loop of `strconv.ParseUint` over the digits of a decimal number of 64 bits. -/
def parseDigits (s : String) : ℕ → List Char → Go ℕ
  | n, [] => .ok n
  | n, c :: cs =>
    if !c.isDigit then .errorf "strconv.ParseUint: parsing %q: invalid syntax" [.str s]
    else
      let next := 10 * n + (c.toNat - '0'.toNat)
      if next > maxUint64 then .errorf "strconv.ParseUint: parsing %q: value out of range" [.str s]
      else parseDigits s next cs

/-- `strconv.ParseUint(s, 10, 64)`. -/
def parseUint (s : String) : Go ℕ :=
  match s.toList with
  | [] => .errorf "strconv.ParseUint: parsing %q: invalid syntax" [.str s]
  | cs => parseDigits s 0 cs

namespace Paginator

/-- `OptionKey`: a sort key has to be a property. -/
def optionKey (s : Schema) (key : String) : Go Unit :=
  if key ≠ "" ∧ s.hasPropertyID key = false then
    .errorf "Schema %s has no property %s which can used as sorting key" [.str s.id, .str key]
  else .ok ()

/-- `OptionOrder`: up, or down. -/
def optionOrder (order : String) : Go Unit :=
  if order ≠ "" ∧ order ≠ "asc" ∧ order ≠ "desc" then
    .errorf "Unknown sort order %s" [.str order]
  else .ok ()

/-- The sort key a query asks for. -/
def sortKey (values : UrlQuery) : String :=
  if values.getFirst "sort_key" = "" then "id" else values.getFirst "sort_key"

/-- The order that the parameters ask for, upwards by default. -/
def sortOrder (values : UrlQuery) : String :=
  if values.getFirst "sort_order" = "" then "asc" else values.getFirst "sort_order"

/-- The limit that the parameters ask for.  Without one there is none. -/
def parseLimit (values : UrlQuery) : Go ℕ :=
  if values.getFirst "limit" = "" then .ok maxUint64 else parseUint (values.getFirst "limit")

/-- The offset that the parameters ask for. -/
def parseOffset (values : UrlQuery) : Go ℕ :=
  if values.getFirst "offset" = "" then .ok 0 else parseUint (values.getFirst "offset")

/-- `FromURLQuery`. -/
def fromURLQuery (s : Schema) (values : UrlQuery) : Go Paginator := do
  let limit ← parseLimit values
  let offset ← parseOffset values
  optionKey s (sortKey values)
  optionOrder (sortOrder values)
  .ok ⟨sortKey values, sortOrder values, limit, offset⟩

end Paginator

/-! ## Columns -/

/-- The columns a query asks for, property by property: the column of the property, unless the
fields leave it out, and in a join the columns of the schema it refers to. -/
inductive Columns where
  | done
  | plain (property : Property) (included : Bool) (rest : Columns)
  | joined (property : Property) (related : Schema) (inner : Columns) (included : Bool)
      (rest : Columns)

/-- `normField`: a field with the schema it belongs to. -/
def normField (field schemaID : String) : String :=
  if field.toList.contains '.' then field else schemaID ++ "." ++ field

/-- Is the column of a property among the fields?  Without fields all are. -/
def includes (fields : Option (List String)) (s : Schema) (property : Property) : Bool :=
  match fields with
  | none => true
  | some names => names.contains (normField property.id s.id)

/-- The loop of `MakeColumns` over the properties of a schema. -/
def columnsOf (relatedColumns : Schema → Go Columns) (schemas : List Schema)
    (fields : Option (List String)) (join : Bool) (s : Schema) : List Property → Go Columns
  | [] => .ok .done
  | property :: properties =>
    if property.relationProperty ≠ "" ∧ join = true then
      match schemaByID schemas property.relation with
      | none => .panicf "missing schema %s" [.str property.relation]
      | some related => do
        let inner ← relatedColumns related
        let rest ← columnsOf relatedColumns schemas fields join s properties
        .ok (.joined property related inner (includes fields s property) rest)
    else do
      let rest ← columnsOf relatedColumns schemas fields join s properties
      .ok (.plain property (includes fields s property) rest)

/-- `MakeColumns`, to a depth.  A chain of relations that goes deeper than there are schemas goes
round in a circle, and the stack overflows. -/
def makeColumns (schemas : List Schema) (fields : Option (List String)) (join : Bool) :
    ℕ → Schema → Go Columns
  | 0, _ => .panicf "stack overflow"
  | depth + 1, s =>
    columnsOf (makeColumns schemas fields join depth) schemas fields join s s.properties

/-- What the loop makes of one property and the others. -/
theorem columnsOf_cons_eq_ok {relatedColumns : Schema → Go Columns} {schemas : List Schema}
    {fields : Option (List String)} {join : Bool} {s : Schema} {property : Property}
    {properties : List Property} {columns : Columns} :
    columnsOf relatedColumns schemas fields join s (property :: properties) = .ok columns ↔
      ∃ rest, columnsOf relatedColumns schemas fields join s properties = .ok rest ∧
        (¬(property.relationProperty ≠ "" ∧ join = true) ∧
            columns = .plain property (includes fields s property) rest ∨
          (property.relationProperty ≠ "" ∧ join = true) ∧ ∃ related inner,
            schemaByID schemas property.relation = some related ∧
            relatedColumns related = .ok inner ∧
            columns = .joined property related inner (includes fields s property) rest) := by
  rw [columnsOf]
  split
  · next hjoined =>
    cases schemaByID schemas property.relation with
    | none => simp [hjoined.1, hjoined.2]
    | some related =>
      simp only [Go.bind_eq_ok, Except.ok.injEq, Option.some.injEq]
      constructor
      · rintro ⟨inner, hinner, rest, hrest, rfl⟩
        exact ⟨rest, hrest, .inr ⟨hjoined, related, inner, rfl, hinner, rfl⟩⟩
      · rintro ⟨rest, hrest, ⟨hplain, -⟩ | ⟨-, _, inner, rfl, hinner, rfl⟩⟩
        · exact absurd hjoined hplain
        · exact ⟨inner, hinner, rest, hrest, rfl⟩
  · next hplain =>
    simp only [Go.bind_eq_ok, Except.ok.injEq]
    constructor
    · rintro ⟨rest, hrest, rfl⟩
      exact ⟨rest, hrest, .inl ⟨hplain, rfl⟩⟩
    · rintro ⟨rest, hrest, ⟨-, rfl⟩ | ⟨hjoined, -⟩⟩
      · exact ⟨rest, hrest, rfl⟩
      · exact absurd hjoined hplain

/-- No schema is joined. -/
def Columns.isPlain : Columns → Bool
  | .done => true
  | .plain _ _ rest => rest.isPlain
  | .joined _ _ _ _ _ => false

theorem isPlain_columnsOf {relatedColumns : Schema → Go Columns} {schemas : List Schema}
    {fields : Option (List String)} {s : Schema} {properties : List Property} {columns : Columns}
    (h : columnsOf relatedColumns schemas fields false s properties = .ok columns) :
    columns.isPlain = true := by
  induction properties generalizing columns with
  | nil => cases h; rfl
  | cons property properties ih =>
    obtain ⟨rest, hrest, ⟨-, rfl⟩ | ⟨hjoined, -⟩⟩ := columnsOf_cons_eq_ok.mp h
    · rw [Columns.isPlain, ih hrest]
    · exact absurd hjoined.2 Bool.false_ne_true

/-- Without a join no schema is. -/
theorem isPlain_makeColumns {schemas : List Schema} {fields : Option (List String)} {depth : ℕ}
    {s : Schema} {columns : Columns} (h : makeColumns schemas fields false depth s = .ok columns) :
    columns.isPlain = true := by
  cases depth with
  | zero => exact absurd h (Go.panicf_ne_ok _ _ _)
  | succ depth => exact isPlain_columnsOf h

/-! ## Decoding -/

/-- The row a column refers to; there is at most one, the identifier being the key. -/
def relatedRow (E : SqlEngine) (table : Table) (value : Value) : Dict :=
  (table.rows.find? fun row ↦ decide (E.eq value (row.get "id") = .tt)).getD ∅

/-- Enter the value of a column. -/
def decodeColumn (skipNil : Bool) (property : Property) (included : Bool) (row data : Dict) :
    Dict :=
  let value := if included then row.get property.id else .nil
  if value ≠ .nil ∨ (property.nullable = true ∧ skipNil = false) then data.insert property.id value
  else data

namespace DB

/-- `decode`, adding to the data of a resource. -/
def decode (D : DB) (db : Database) (skipNil : Bool) : Columns → Dict → Dict → Dict
  | .done, _, data => data
  | .plain property included rest, row, data =>
    D.decode db skipNil rest row (decodeColumn skipNil property included row data)
  | .joined property related inner included rest, row, data =>
    let data := decodeColumn skipNil property included row data
    let joined := relatedRow D.server.toSqlEngine (db (related.getDbTableName D.legacy))
      (row.get property.id)
    let relatedData := D.decode db skipNil inner joined ∅
    let data := if relatedData ≠ ∅ ∨ skipNil = false
      then data.insert property.relationProperty (.map relatedData.toList) else data
    D.decode db skipNil rest row data

end DB

/-- `NewResource`: the identifier of the parent is made a string. -/
def newResource (s : Schema) (properties : Dict) : Dict :=
  if s.parent = "" then properties
  else
    match properties.lookup s.parentPropertyID with
    | some parentID => properties.insert s.parentPropertyID (.str parentID.maybeString)
    | none => properties

/-! ## Queries -/

/-- Which fields of the resources are asked for, and whether related resources are. -/
structure ViewOptions where
  Details : Bool
  Fields : Option (List String)

/-- `selectContext`. -/
structure SelectContext where
  filter : GoMap FilterVal
  fields : Option (List String) := none
  join : Bool := false
  paginator : Option Paginator := none

/-- A query, as it is sent. -/
structure SelectQuery where
  columns : Columns
  clause : List Sqlizer
  /-- The column to order by, and whether in descending order. -/
  order : Option (String × Bool)
  limit : Option ℕ
  offset : ℕ

/-- `listContextHelper`. -/
def listContextHelper (s : Schema) (filter : GoMap FilterVal) (options : Option ViewOptions)
    (pg : Option Paginator) : SelectContext :=
  match options with
  | none => { filter, paginator := pg }
  | some options =>
    { filter, fields := options.Fields.map (·.map (normField · s.id)), join := options.Details,
      paginator := pg }

/-- The `ORDER BY` of a paginator. -/
def Paginator.order? (s : Schema) (pg : Paginator) : Option (String × Bool) :=
  if pg.Key ≠ "" ∧ s.hasPropertyID pg.Key = true then some (pg.Key, pg.Order == "desc") else none

/-- The `LIMIT` of a paginator. -/
def Paginator.limit? (pg : Paginator) : Option ℕ :=
  if pg.Limit = maxUint64 then none else some pg.Limit

/-- `isSelectPaginated`. -/
def SelectContext.isSelectPaginated (sc : SelectContext) : Bool :=
  match sc.paginator with
  | none => false
  | some pg => pg.Offset != 0 || pg.Limit != maxUint64

namespace DB

variable (D : DB)

/-- `buildSelect`. -/
def buildSelect (s : Schema) (sc : SelectContext) : Go SelectQuery := do
  let columns ← makeColumns D.schemas sc.fields sc.join (D.schemas.length + 1) s
  let clause ← addFilterToQuery s sc.filter
  match sc.paginator with
  | none => .ok { columns, clause, order := none, limit := none, offset := 0 }
  | some pg =>
    .ok { columns, clause, order := pg.order? s, limit := pg.limit?, offset := pg.Offset }

/-- Does the server take the query? -/
def accepts (q : SelectQuery) : Bool := q.offset == 0 || q.limit.isSome || D.server.offsetAlone

/-- The rows a clause selects. -/
def selected (rows : List Dict) (clause : List Sqlizer) : List Dict :=
  rows.filter fun row ↦ decide (Selects D.server.toSqlEngine clause row)

/-- Is a row to come before another one? -/
def before (key : String) (desc : Bool) (a b : Dict) : Prop :=
  (if desc then D.server.le (b.get key) (a.get key) else D.server.le (a.get key) (b.get key)) = true

instance (key : String) (desc : Bool) : DecidableRel (D.before key desc) := fun _ _ ↦
  inferInstanceAs (Decidable (_ = true))

/-- The rows in the order of a query. -/
def ordered (order : Option (String × Bool)) (rows : List Dict) : List Dict :=
  match order with
  | none => rows
  | some (key, desc) => rows.insertionSort (D.before key desc)

/-- The rows on the page of a query. -/
def page (rows : List Dict) (q : SelectQuery) : List Dict :=
  Selection.cut q.offset q.limit (D.ordered q.order (D.selected rows q.clause))

/-- The resource made of a row. -/
def resourceOf (db : Database) (s : Schema) (skipNil : Bool) (columns : Columns) (row : Dict) :
    Dict :=
  newResource s (D.decode db skipNil columns row ∅)

/-- `executeSelect`. -/
def executeSelect (db : Database) (s : Schema) (skipNil : Bool) (q : SelectQuery) :
    Go (List Dict) :=
  if D.accepts q then
    .ok ((D.page (db (s.getDbTableName D.legacy)).rows q).map
      (D.resourceOf db s skipNil q.columns))
  else .errorf "near \"OFFSET\": syntax error"

/-- `Count`: the selected rows that have an identifier. -/
def count (db : Database) (s : Schema) (clause : List Sqlizer) : ℕ :=
  (D.selected (db (s.getDbTableName D.legacy)).rows clause).countP fun row ↦ row.get "id" ≠ .nil

/-- `executeCountingSelect`. -/
def executeCountingSelect (db : Database) (s : Schema) (sc : SelectContext) (q : SelectQuery) :
    Go (List Dict × ℕ) := do
  let list ← D.executeSelect db s sc.fields.isSome q
  .ok (list, if sc.isSelectPaginated then D.count db s q.clause else list.length)

/-- `List`. -/
def list (db : Database) (s : Schema) (filter : GoMap FilterVal) (options : Option ViewOptions)
    (pg : Option Paginator) : Go (List Dict × ℕ) := do
  let sc := listContextHelper s filter options pg
  let q ← D.buildSelect s sc
  D.executeCountingSelect db s sc q

/-! ## Fetching and deleting -/

/-- `shouldJoin`. -/
def shouldJoin : LockPolicy → Go Bool
  | .lockRelatedResources => .ok true
  | .skipRelatedResources => .ok false
  | .noLocking => .panicf "Unexpected locking policy"

/-- `LockList` without view options and paginator.  What is locked makes no difference to what is
read. -/
def lockList (db : Database) (s : Schema) (filter : GoMap FilterVal) (lockPolicy : LockPolicy) :
    Go (List Dict × ℕ) := do
  let join ← shouldJoin lockPolicy
  let sc : SelectContext := { filter, join }
  let q ← D.buildSelect s sc
  D.executeCountingSelect db s sc q

/-- `fetchContextHelper` and `lockFetchContextHelper`, which differ in the text of the error. -/
def firstOf (failure : String) : Go (List Dict × ℕ) → Go Dict
  | .ok (resource :: _, _) => .ok resource
  | .ok ([], _) => .errorf "resource not found"
  | .error (.error _ _) => .errorf failure
  | .error (.panic format args) => .panicf format args

/-- `Fetch`, without view options. -/
def fetch (db : Database) (s : Schema) (filter : GoMap FilterVal) : Go Dict :=
  firstOf "Failed to fetch %s: %s" (D.list db s filter none none)

/-- `LockFetch`. -/
def lockFetch (db : Database) (s : Schema) (filter : GoMap FilterVal) (lockPolicy : LockPolicy) :
    Go Dict :=
  firstOf "Failed to fetch and lock %s: %s" (D.lockList db s filter lockPolicy)

/-- `Delete`: the rows with the identifier are gone. -/
def delete (db : Database) (s : Schema) (resourceID : String) : Database := fun name ↦
  if name = s.getDbTableName D.legacy then
    { rows := (db name).rows.filter fun row ↦
        decide (D.server.eq (row.get "id") (.str resourceID) ≠ .tt)
      id_ne_nil := fun row hrow ↦ (db name).id_ne_nil row (List.mem_of_mem_filter hrow) }
  else db name

/-! ## What a query returns -/

variable {D}

instance (key : String) (desc : Bool) : Std.Total (D.before key desc) where
  total a b := by
    cases desc with
    | false => exact D.server.le_total _ _
    | true => exact D.server.le_total _ _

instance (key : String) (desc : Bool) : IsTrans Dict (D.before key desc) where
  trans a b c hab hbc := by
    cases desc with
    | false => exact D.server.le_trans _ _ _ hab hbc
    | true => exact D.server.le_trans _ _ _ hbc hab

theorem filterKeys_decodeColumn {p : String → Bool} {row row' : Dict}
    (h : ∀ column, p column = true → row.get column = row'.get column) (skipNil : Bool)
    (property : Property) (included : Bool) {data data' : Dict}
    (hdata : data.filterKeys p = data'.filterKeys p) :
    (decodeColumn skipNil property included row data).filterKeys p =
      (decodeColumn skipNil property included row' data').filterKeys p := by
  simp only [decodeColumn]
  cases hp : p property.id with
  | true =>
    rw [h _ hp]
    generalize (if included = true then row'.get property.id else .nil) = value
    split
    · rw [GoMap.filterKeys_insert, GoMap.filterKeys_insert, hdata]
    · exact hdata
  | false =>
    -- whatever either row has in this column does not show
    have hhidden (value : Value) (data : Dict) :
        GoMap.filterKeys p (if value ≠ .nil ∨ property.nullable = true ∧ skipNil = false
          then data.insert property.id value else data) = data.filterKeys p := by
      split
      · rw [GoMap.filterKeys_insert, hp]; rfl
      · rfl
    rw [hhidden, hhidden, hdata]

/-- Of the decoded data, the part under some of the keys depends on these columns only, if no schema
is joined. -/
theorem filterKeys_decode {p : String → Bool} {row row' : Dict}
    (h : ∀ column, p column = true → row.get column = row'.get column) (db db' : Database)
    (skipNil : Bool) {columns : Columns} (hplain : columns.isPlain = true) {data data' : Dict}
    (hdata : data.filterKeys p = data'.filterKeys p) :
    (D.decode db skipNil columns row data).filterKeys p =
      (D.decode db' skipNil columns row' data').filterKeys p := by
  induction columns generalizing data data' with
  | done => exact hdata
  | plain property included rest ih =>
    rw [decode, decode]
    exact ih hplain (filterKeys_decodeColumn h skipNil property included hdata)
  | joined property related inner included rest _ _ => cases hplain

theorem filterKeys_newResource {p : String → Bool} (s : Schema) {data data' : Dict}
    (h : data.filterKeys p = data'.filterKeys p) :
    (newResource s data).filterKeys p = (newResource s data').filterKeys p := by
  have hlookup (hp : p s.parentPropertyID = true) :
      data.lookup s.parentPropertyID = data'.lookup s.parentPropertyID := by
    have := congrArg (AList.lookup s.parentPropertyID) h
    rwa [GoMap.lookup_filterKeys, GoMap.lookup_filterKeys, if_pos hp, if_pos hp] at this
  have hhidden (hp : p s.parentPropertyID = false) (data : Dict) (v : Value) :
      GoMap.filterKeys p (data.insert s.parentPropertyID v) = data.filterKeys p := by
    rw [GoMap.filterKeys_insert, hp]; rfl
  rw [newResource, newResource]
  split
  · exact h
  · cases hp : p s.parentPropertyID with
    | true =>
      rw [hlookup hp]
      split
      · rw [GoMap.filterKeys_insert, GoMap.filterKeys_insert, h]
      · exact h
    | false => split <;> split <;> simp only [hhidden hp, h]

theorem mem_selected {rows : List Dict} {clause : List Sqlizer} {row : Dict} :
    row ∈ D.selected rows clause ↔ row ∈ rows ∧ Selects D.server.toSqlEngine clause row := by
  simp [selected]

theorem mem_ordered {order : Option (String × Bool)} {rows : List Dict} {row : Dict} :
    row ∈ D.ordered order rows ↔ row ∈ rows := by
  cases order with
  | none => rfl
  | some o => exact List.mem_insertionSort _

theorem length_ordered (order : Option (String × Bool)) (rows : List Dict) :
    (D.ordered order rows).length = rows.length := by
  cases order with
  | none => rfl
  | some o => exact List.length_insertionSort _ _

/-- Keeping some of the rows commutes with ordering them. -/
theorem filter_ordered (p : Dict → Bool) (order : Option (String × Bool)) (rows : List Dict) :
    (D.ordered order rows).filter p = D.ordered order (rows.filter p) := by
  cases order with
  | none => rfl
  | some o => exact Selection.filter_insertionSort p rows

/-- Without a page, the rows of a query are those it selects, in order. -/
theorem page_of_unpaged {q : SelectQuery} (hoffset : q.offset = 0) (hlimit : q.limit = none)
    (rows : List Dict) : D.page rows q = D.ordered q.order (D.selected rows q.clause) := by
  rw [page, hoffset, hlimit, Selection.cut, List.drop_zero]

/-- The count counts the selected rows: all of them have an identifier. -/
theorem count_eq_length (db : Database) (s : Schema) (clause : List Sqlizer) :
    D.count db s clause = (D.selected (db (s.getDbTableName D.legacy)).rows clause).length := by
  rw [count, List.countP_eq_length]
  intro row hrow
  exact decide_eq_true ((db _).id_ne_nil row (mem_selected.mp hrow).1)

/-- What the server answers to a query: the resources on the page, and how many there are on all
pages. -/
theorem executeCountingSelect_eq (db : Database) (s : Schema) (sc : SelectContext)
    (q : SelectQuery) : D.executeCountingSelect db s sc q =
      let rows := (db (s.getDbTableName D.legacy)).rows
      if D.accepts q then
        .ok ((D.page rows q).map (D.resourceOf db s sc.fields.isSome q.columns),
          if sc.isSelectPaginated then (D.selected rows q.clause).length
            else (D.page rows q).length)
      else .errorf "near \"OFFSET\": syntax error" := by
  rw [executeCountingSelect, executeSelect]
  split
  · simp only [bind, Except.bind, count_eq_length, List.length_map]
  · rfl

end DB

end Gohan
