import Gohan.Db.Join
import Gohan.Server.Paging

/-!
# Queries with joins

`List` and `LockList` with all that they send: the columns and the joins by their aliases, the
predicates, the order and the page.  The database joins a row with all the rows that match it, and
with NULLs where none does, before it puts them in order and cuts out the page; a row of the result
is scanned into a map, in which a later column of one name replaces an earlier one, and `decode`
looks up its names there.

A statement builder refuses a statement without columns, and a database one in which two tables have
one alias, or with a page it cannot read.
-/

set_option autoImplicit false

namespace Gohan.Join

/-! ## Statements -/

/-- A statement, as it is sent. -/
structure Statement where
  columns : List SelectColumn
  table : String
  joins : List JoinClause
  clause : List Sqlizer
  order : Option (String × Bool)
  limit : Option ℕ
  offset : ℕ

namespace Statement

/-- What a statement says besides columns and joins. -/
def query (st : Statement) : SelectQuery where
  columns := .done
  clause := st.clause
  order := st.order
  limit := st.limit
  offset := st.offset

/-- The names of the tables in a statement. -/
def tableNames (st : Statement) : List String := st.table :: st.joins.map (·.aliasName)

/-- Does a database take the statement? -/
structure Accepted (d : Dialect) (st : Statement) : Prop where
  nodup : st.tableNames.Nodup
  wellFormed : d.WellFormed st.query

theorem accepted_iff {d : Dialect} {st : Statement} :
    Accepted d st ↔ st.tableNames.Nodup ∧ (st.offset ≠ 0 → st.limit ≠ none) ∧
      (∀ n ∈ st.limit, n ≤ d.largest) ∧ st.offset ≤ d.largest :=
  ⟨fun h ↦ ⟨h.nodup, h.wellFormed.limit_of_offset, h.wellFormed.limit_le, h.wellFormed.offset_le⟩,
    fun h ↦ ⟨h.1, h.2.1, h.2.2.1, h.2.2.2⟩⟩

instance (d : Dialect) (st : Statement) : Decidable (Accepted d st) :=
  decidable_of_iff _ accepted_iff.symm

end Statement

/-- The rows that make up a row of the result, by the aliases of their tables. -/
abbrev Scope := GoMap Dict

/-- The row of a table.  A table that is not there, or of which no row matches, is all NULL. -/
def Scope.row (scope : Scope) (aliasName : String) : Dict := (scope.lookup aliasName).getD ∅

/-- `rows.MapScan(data)`. -/
def scan (columns : List SelectColumn) (scope : Scope) : Dict :=
  GoMap.ofList (columns.map fun c ↦ (c.name, (scope.row c.table).get c.column))

/-! ## What a database answers -/

section Answers

variable (D : DB) (db : Database)

/-- The rows that a column refers to. -/
def matching (clause : JoinClause) (scope : Scope) : List Dict :=
  (db clause.tableName).rows.filter fun row ↦
    decide (D.server.eq ((scope.row clause.onTable).get clause.onColumn) (row.get "id") = .tt)

/-- `LEFT JOIN`: one row of the result for each row that matches, or one with NULLs. -/
def leftJoin (clause : JoinClause) (scope : Scope) : List Scope :=
  if matching D db clause scope = [] then [scope.insert clause.aliasName ∅]
  else (matching D db clause scope).map fun row ↦ scope.insert clause.aliasName row

/-- One `LEFT JOIN` after the other. -/
def leftJoins : List JoinClause → Scope → List Scope
  | [], scope => [scope]
  | clause :: clauses, scope => (leftJoin D db clause scope).flatMap (leftJoins clauses)

/-- `FROM` the table of a statement and its joins. -/
def joinedRows (st : Statement) : List Scope :=
  (db st.table).rows.flatMap fun row ↦ leftJoins D db st.joins (AList.singleton st.table row)

/-- `WHERE`. -/
def selectedRows (st : Statement) : List Scope :=
  (joinedRows D db st).filter fun scope ↦
    decide (Selects D.server.toSqlEngine st.clause (scope.row st.table))

/-- `ORDER BY`. -/
def orderedRows (st : Statement) : List Scope :=
  match st.order with
  | none => selectedRows D db st
  | some (key, desc) => (selectedRows D db st).insertionSort fun a b ↦
      D.before key desc (a.row st.table) (b.row st.table)

/-- The answer of a database of the given kind. -/
def execute (d : Dialect) (st : Statement) : Go (List Scope) :=
  if st.Accepted d then .ok (Selection.cut st.offset st.limit (orderedRows D db st))
  else if st.tableNames.Nodup then .errorf "You have an error in your SQL syntax"
  else .errorf "Not unique table/alias"

end Answers

/-! ## Lists -/

section Lists

variable (D : DB) (d : Dialect) (db : Database) (depth : ℕ) (s : Schema)

/-- `q.ToSql()`. -/
def toSql (st : Statement) : Go Statement :=
  if st.columns = [] then .errorf "select statements must have at least one result column"
  else .ok st

/-- The table of a schema. -/
def tableOf : String := s.getDbTableName D.legacy

/-- The joins of a statement. -/
def joinsIn (sc : SelectContext) : Go (List JoinClause) :=
  if sc.join then makeJoin D.schemas D.legacy depth s (tableOf D s) else .ok []

/-- `buildSelect`. -/
def buildSelect (sc : SelectContext) : Go Statement := do
  let columns ← makeColumns D.schemas sc.fields sc.join depth s (tableOf D s)
  let clause ← addFilterToQuery s sc.filter
  let joins ← joinsIn D depth s sc
  match sc.paginator with
  | none =>
    toSql { columns, table := tableOf D s, joins, clause, order := none, limit := none,
            offset := 0 }
  | some pg =>
    toSql { columns, table := tableOf D s, joins, clause, order := pg.order? s, limit := pg.limit?,
            offset := pg.Offset }

/-- A row of the answer, decoded. -/
def decodeRow (sc : SelectContext) (st : Statement) (scope : Scope) : Go Dict :=
  (decode D.schemas sc.fields.isSome sc.join (scan st.columns scope) depth s (tableOf D s)).map
    (newResource s)

/-- `executeSelect` and `decodeRows`. -/
def executeSelect (sc : SelectContext) (st : Statement) : Go (List Dict) := do
  let rows ← execute D db d st
  rows.mapM (decodeRow D depth s sc st)

/-- `executeCountingSelect`. -/
def executeCountingSelect (sc : SelectContext) (st : Statement) : Go (List Dict × ℕ) := do
  let list ← executeSelect D d db depth s sc st
  .ok (list, if sc.isSelectPaginated then D.count db s st.clause else list.length)

/-- What `List` and `LockList` do with their context.  What is locked makes no difference to what is
read. -/
def listIn (sc : SelectContext) : Go (List Dict × ℕ) := do
  let st ← buildSelect D depth s sc
  executeCountingSelect D d db depth s sc st

/-- `List`. -/
def list (filter : GoMap FilterVal) (options : Option ViewOptions) (pg : Option Paginator) :
    Go (List Dict × ℕ) :=
  listIn D d db depth s (listContextHelper s filter options pg)

/-- `lockListContextHelper`. -/
def lockListContextHelper (filter : GoMap FilterVal) (options : Option ViewOptions)
    (pg : Option Paginator) (lockPolicy : LockPolicy) : Go SelectContext := do
  let policyJoin ← DB.shouldJoin lockPolicy
  match options with
  | none => .ok { filter, join := policyJoin, paginator := pg }
  | some options =>
    .ok { filter, fields := options.Fields.map (·.map (normField · s.id)),
          join := policyJoin && options.Details, paginator := pg }

/-- `LockList`. -/
def lockList (filter : GoMap FilterVal) (options : Option ViewOptions) (pg : Option Paginator)
    (lockPolicy : LockPolicy) : Go (List Dict × ℕ) := do
  let sc ← lockListContextHelper s filter options pg lockPolicy
  listIn D d db depth s sc

end Lists

end Gohan.Join
