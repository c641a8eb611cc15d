import Gohan.Schema.Basic
import Mathlib.Data.List.Perm.Lattice
import Mathlib.Data.List.Nodup

/-!
# Tables from schemas

`RegisterTable` makes the table of a schema.  If there is none yet it is created; if there is one,
and the schema has properties that it has no columns for, these are added, with the foreign keys
and indexes that belong to them.  Both go through `genTableCols`, which leaves out the properties
that have a column already.

What is generated for a property depends on this property only; what is not about a single
property is treated differently by the two paths: the columns of a versioned schema are made with
the table and never added, and the indexes a schema lists are made with the table and again with
every column that is added.  `migratesAsCreated_iff` says when adding to a table leaves what
creating it would have.

The server is one that refuses a statement after which a table would have two columns, foreign
keys or indexes of one name, or an index on a column that is not there, or something it does not
accept for reasons of its own.
-/

set_option autoImplicit false

namespace Gohan

namespace Migration

/-! ## Schemas -/

/-- A property, with the fields that the definition of its column reads. -/
structure ColumnProperty extends Property where
  unique : Bool := false
  sqlType : String := ""
  relationColumn : String := ""
  onDeleteCascade : Bool := false
  indexed : Bool := false

/-- An index that a schema lists. -/
structure SchemaIndex where
  name : String
  columns : List String
  type : String := ""

/-- A schema, with the fields that the definition of its table reads. -/
structure TableSchema where
  schema : Schema
  properties : List ColumnProperty
  own_eq : properties.map ColumnProperty.toProperty = schema.properties
  indexes : List SchemaIndex := []
  isAbstract : Bool := false
  onParentDeleteCascade : Bool := false

/-! ## Tables -/

/-- A column: its name, its type, and what is said about NULL, keys and defaults. -/
structure Column where
  name : String
  sqlDataType : String
  sqlDataProperties : String

/-- A foreign key of a table. -/
structure ForeignKey where
  /-- The bytes of the name: it may be cut inside a character. -/
  name : List UInt8
  column : String
  table : String
  relationColumn : String
  cascade : String

/-- An index of a table. -/
structure Index where
  name : String
  type : String
  columns : List String
  /-- How much of a text is indexed. -/
  length : String

/-- A table, without its rows. -/
structure Table where
  columns : List Column
  foreignKeys : List ForeignKey
  indexes : List Index

/-- A database server: the schemas that are registered, the configuration flag `database/legacy`,
and what the server accepts of columns, foreign keys and indexes. -/
structure TableServer where
  schemas : List Schema
  legacy : Bool
  acceptsColumn : Column → Bool
  acceptsForeignKey : ForeignKey → Bool
  acceptsIndex : Index → Bool

namespace TableServer

/-- May there be such a table? -/
def allows (db : TableServer) (t : Table) : Bool :=
  !t.columns.isEmpty && t.columns.all db.acceptsColumn &&
    t.foreignKeys.all db.acceptsForeignKey && t.indexes.all db.acceptsIndex &&
    decide (t.columns.map Column.name).Nodup && decide (t.foreignKeys.map ForeignKey.name).Nodup &&
    decide (t.indexes.map Index.name).Nodup &&
    t.indexes.all fun index ↦ index.columns.all (t.columns.map Column.name).contains

end TableServer

/-! ## The definition of a table -/

namespace ColumnProperty

/-- Is there a handler for the type of the property? -/
def hasHandler (p : ColumnProperty) : Bool :=
  ["string", "number", "integer", "object", "array", "boolean"].contains p.type

/-- `dataType` of the handler. -/
def dataType (p : ColumnProperty) : String :=
  match p.type with
  | "number" => "real"
  | "integer" => "numeric"
  | "object" | "array" => "text"
  | "boolean" => "boolean"
  | _ =>
    if p.id = "id" ∨ p.relation ≠ "" ∨ p.unique = true then "varchar(255)" else "text"

/-- The type of the column, which the property may set itself. -/
def sqlDataType (p : ColumnProperty) : String := if p.sqlType = "" then p.dataType else p.sqlType

/-- What is said about NULL, keys and uniqueness. -/
def sqlDataProperties (p : ColumnProperty) : String :=
  if p.id = "id" then
    if p.sqlType = "" then " primary key" else ""
  else if p.unique then " unique"
  else if p.nullable then " null"
  else " not null"

/-- The column of a property. -/
def column (p : ColumnProperty) : Column := ⟨p.id, p.sqlDataType, p.sqlDataProperties⟩

end ColumnProperty

/-- The bytes of a string, as the code counts and cuts them. -/
def goBytes (s : String) : List UInt8 := s.toByteArray.data.toList

/-- The last 64 bytes of the name. -/
def foreignKeyName (fromTable fromProperty toTable toProperty : String) : List UInt8 :=
  let name := goBytes (fromTable ++ "_" ++ fromProperty ++ "_" ++ toTable ++ "_" ++ toProperty)
  name.drop (name.length - 64)

namespace TableSchema

/-- `GetDbTableName`. -/
def getDbTableName (s : TableSchema) (db : TableServer) : String :=
  s.schema.getDbTableName db.legacy

/-- The foreign key of a property. -/
def foreignKey (s : TableSchema) (db : TableServer) (cascade : Bool) (p : ColumnProperty) :
    Option ForeignKey :=
  if p.relation = "" then none
  else
    (schemaByID db.schemas p.relation).map fun foreignSchema ↦
      let cascadeString :=
        if cascade || p.onDeleteCascade ||
            (p.relation == s.schema.parent && s.onParentDeleteCascade) then "on delete cascade"
        else ""
      let relationColumn := if p.relationColumn = "" then "id" else p.relationColumn
      let foreignTable := foreignSchema.getDbTableName db.legacy
      { name := foreignKeyName (s.getDbTableName db) p.id foreignTable relationColumn
        column := p.id
        table := foreignTable
        relationColumn
        cascade := cascadeString }

/-- The index of a property; `(255)` is MySQL's. -/
def propertyIndex (s : TableSchema) (db : TableServer) (p : ColumnProperty) : Option Index :=
  if p.indexed then
    some
      { name := s.getDbTableName db ++ "_" ++ p.id ++ "_idx"
        type := ""
        columns := [p.id]
        length := if p.sqlDataType = "text" then "(255)" else "" }
  else none

/-- The indexes the schema lists. -/
def listedIndexes (s : TableSchema) : List Index :=
  s.indexes.map fun index ↦ ⟨index.name, index.type, index.columns, ""⟩

/-- The properties that are not excluded. -/
def included (s : TableSchema) (exclude : List String) : List ColumnProperty :=
  s.properties.filter fun p ↦ !exclude.contains p.id

/-- `genTableCols`.  A type without a handler is a nil pointer. -/
def genTableCols (s : TableSchema) (db : TableServer) (cascade : Bool) (exclude : List String) :
    Go (List Column × List ForeignKey × List Index) :=
  let properties := s.included exclude
  if properties.all fun p ↦ p.sqlType != "" || p.hasHandler then
    .ok (properties.map ColumnProperty.column, properties.filterMap (s.foreignKey db cascade),
      properties.filterMap (s.propertyIndex db) ++ s.listedIndexes)
  else .panicf "runtime error: invalid memory address or nil pointer dereference"

/-- The columns of a schema with state versioning. -/
def stateColumns : List Column :=
  [⟨"config_version", "int", "not null default 1"⟩, ⟨"state_version", "int", "not null default 0"⟩,
    ⟨"state_error", "text", "not null default ''"⟩, ⟨"state", "text", "not null default ''"⟩,
    ⟨"state_monitoring", "text", "not null default ''"⟩]

/-- What is in the brackets of `create table` and of `alter table … add`. -/
structure Definition where
  columns : List Column
  foreignKeys : List ForeignKey

/-- `AlterTableDef`, for a table that is there: if there is none, the query for its columns fails.
`none` is the empty statement. -/
def alterTableDef (s : TableSchema) (db : TableServer) (cascade : Bool) (table : Table) :
    Go (Option Definition × List Index) := do
  let existing := table.columns.map Column.name
  let (cols, relations, indices) ← s.genTableCols db cascade existing
  if cols.isEmpty && relations.isEmpty then .ok (none, [])
  else .ok (some ⟨cols, relations⟩, indices)

/-- `GenTableDef`: the definition of the table, and its indexes. -/
def genTableDef (s : TableSchema) (db : TableServer) (cascade : Bool) :
    Go (Definition × List Index) := do
  let (cols, relations, indices) ← s.genTableCols db cascade []
  let cols := if s.schema.stateVersioning then cols ++ stateColumns else cols
  .ok (⟨cols, relations⟩, indices)

/-- The loop over the index statements. -/
def createIndexes (db : TableServer) : Table → List Index → Go Unit × Option Table
  | table, [] => (.ok (), some table)
  | table, index :: indices =>
    let table' := { table with indexes := table.indexes ++ [index] }
    if db.allows table' then createIndexes db table' indices
    else (.errorf "error when exec index stmt: '%s': %s" [.str index.name], some table)

/-- The statement for the table, which would leave `table'`, and the index statements. -/
def execTableDef (db : TableServer) (table : Option Table) (table' : Table)
    (indices : List Index) : Go Unit × Option Table :=
  if db.allows table' then createIndexes db table' indices
  else (.errorf "error when exec table stmt: '%s': %s", table)

/-- `RegisterTable`: what it returns, and the table it leaves. -/
def registerTable (s : TableSchema) (db : TableServer) (cascade migrate : Bool)
    (table : Option Table) : Go Unit × Option Table :=
  if s.isAbstract then (.ok (), table)
  else
    match table with
    | none =>
      match s.genTableDef db cascade with
      | .error fault => (.error fault, none)
      | .ok (tableDef, indices) =>
        execTableDef db none ⟨tableDef.columns, tableDef.foreignKeys, []⟩ indices
    | some table =>
      match s.alterTableDef db cascade table with
      | .error fault => (.error fault, some table)
      | .ok (none, _) => (.ok (), some table)
      | .ok (some tableDef, indices) =>
        if migrate then
          execTableDef db (some table)
            { table with columns := table.columns ++ tableDef.columns
                         foreignKeys := table.foreignKeys ++ tableDef.foreignKeys } indices
        else (.errorf "needs migration, run \"gohan migrate\"", some table)

/-- The table that is created. -/
def fullTable (s : TableSchema) (db : TableServer) (cascade : Bool) : Table where
  columns := s.properties.map ColumnProperty.column ++
    if s.schema.stateVersioning then stateColumns else []
  foreignKeys := s.properties.filterMap (s.foreignKey db cascade)
  indexes := s.properties.filterMap (s.propertyIndex db) ++ s.listedIndexes

end TableSchema

/-! ## What the server allows -/

/-- `allows`, clause by clause. -/
structure TableServer.Allowed (db : TableServer) (t : Table) : Prop where
  columns_ne : t.columns ≠ []
  acceptsColumns : ∀ column ∈ t.columns, db.acceptsColumn column = true
  acceptsForeignKeys : ∀ key ∈ t.foreignKeys, db.acceptsForeignKey key = true
  acceptsIndexes : ∀ index ∈ t.indexes, db.acceptsIndex index = true
  columnNames : (t.columns.map Column.name).Nodup
  foreignKeyNames : (t.foreignKeys.map ForeignKey.name).Nodup
  indexNames : (t.indexes.map Index.name).Nodup
  indexColumns : ∀ index ∈ t.indexes, ∀ name ∈ index.columns, name ∈ t.columns.map Column.name

theorem TableServer.allows_iff {db : TableServer} {t : Table} :
    db.allows t = true ↔ db.Allowed t := by
  simp only [allows, Bool.and_eq_true, Bool.not_eq_true', List.isEmpty_eq_false_iff,
    List.all_eq_true, decide_eq_true_eq, List.contains_iff_mem, and_assoc]
  exact ⟨fun ⟨a, b, c, d, e, f, g, h⟩ ↦ ⟨a, b, c, d, e, f, g, h⟩,
    fun ⟨a, b, c, d, e, f, g, h⟩ ↦ ⟨a, b, c, d, e, f, g, h⟩⟩

namespace TableServer.Allowed

variable {db : TableServer} {t t' : Table}

/-- The order of the columns, keys and indexes does not matter. -/
theorem perm (h : db.Allowed t) (hcolumns : t.columns.Perm t'.columns)
    (hkeys : t.foreignKeys.Perm t'.foreignKeys) (hindexes : t.indexes.Perm t'.indexes) :
    db.Allowed t' where
  columns_ne hnil := h.columns_ne (List.perm_nil.mp (hnil ▸ hcolumns))
  acceptsColumns c hc := h.acceptsColumns c (hcolumns.mem_iff.mpr hc)
  acceptsForeignKeys k hk := h.acceptsForeignKeys k (hkeys.mem_iff.mpr hk)
  acceptsIndexes i hi := h.acceptsIndexes i (hindexes.mem_iff.mpr hi)
  columnNames := (hcolumns.map _).nodup_iff.mp h.columnNames
  foreignKeyNames := (hkeys.map _).nodup_iff.mp h.foreignKeyNames
  indexNames := (hindexes.map _).nodup_iff.mp h.indexNames
  indexColumns i hi name hname :=
    (hcolumns.map _).mem_iff.mp (h.indexColumns i (hindexes.mem_iff.mpr hi) name hname)

/-- A table may have fewer indexes. -/
theorem fewerIndexes {indexes : List Index} (h : db.Allowed t) (hsub : indexes.Sublist t.indexes) :
    db.Allowed { t with indexes } where
  columns_ne := h.columns_ne
  acceptsColumns := h.acceptsColumns
  acceptsForeignKeys := h.acceptsForeignKeys
  acceptsIndexes i hi := h.acceptsIndexes i (hsub.mem hi)
  columnNames := h.columnNames
  foreignKeyNames := h.foreignKeyNames
  indexNames := h.indexNames.sublist (hsub.map _)
  indexColumns i hi := h.indexColumns i (hsub.mem hi)

end TableServer.Allowed

namespace TableSchema

variable {db : TableServer}

/-! ## What is left after the statements -/

theorem createIndexes_eq {table : Table} {indices : List Index}
    (h : db.Allowed { table with indexes := table.indexes ++ indices }) :
    createIndexes db table indices =
      (.ok (), some { table with indexes := table.indexes ++ indices }) := by
  induction indices generalizing table with
  | nil => simp [createIndexes]
  | cons index indices ih =>
    have hnext : db.Allowed { table with indexes := table.indexes ++ [index] } :=
      h.fewerIndexes (by simp)
    have hrest := @ih { table with indexes := table.indexes ++ [index] } (by simpa using h)
    rw [createIndexes]
    simp only [TableServer.allows_iff.mpr hnext, if_true, hrest, List.append_assoc,
      List.singleton_append]

theorem allowed_of_createIndexes {table : Table} {indices : List Index} (htable : db.Allowed table)
    (h : (createIndexes db table indices).1 = .ok ()) :
    db.Allowed { table with indexes := table.indexes ++ indices } := by
  induction indices generalizing table with
  | nil => simpa using htable
  | cons index indices ih =>
    rw [createIndexes] at h
    split at h
    · next hnext => simpa using ih (TableServer.allows_iff.mp hnext) h
    · cases h

/-- The statements succeed when the table may be as they leave it. -/
theorem execTableDef_iff {table : Option Table} {table' : Table} {indices : List Index} :
    (execTableDef db table table' indices).1 = .ok () ↔
      db.Allowed { table' with indexes := table'.indexes ++ indices } := by
  rw [execTableDef]
  split
  · next hallows =>
    refine ⟨allowed_of_createIndexes (TableServer.allows_iff.mp hallows), fun h ↦ ?_⟩
    rw [createIndexes_eq h]
  · next hallows =>
    refine iff_of_false (fun h ↦ by cases h) fun h ↦ hallows ?_
    exact TableServer.allows_iff.mpr (h.fewerIndexes (by simp))

theorem execTableDef_eq {table : Option Table} {table' : Table} {indices : List Index}
    (h : db.Allowed { table' with indexes := table'.indexes ++ indices }) :
    execTableDef db table table' indices =
      (.ok (), some { table' with indexes := table'.indexes ++ indices }) := by
  rw [execTableDef, if_pos (TableServer.allows_iff.mpr (h.fewerIndexes (by simp))),
    createIndexes_eq h]

/-- Every property has an SQL type or a handler. -/
def handled (s : TableSchema) : Prop :=
  ∀ p ∈ s.properties, (p.sqlType != "" || p.hasHandler) = true

variable {s : TableSchema} {cascade migrate : Bool}

theorem included_nil (s : TableSchema) : s.included [] = s.properties := by
  simp [included]

theorem genTableCols_eq (h : s.handled) (exclude : List String) :
    s.genTableCols db cascade exclude =
      .ok ((s.included exclude).map ColumnProperty.column,
        (s.included exclude).filterMap (s.foreignKey db cascade),
        (s.included exclude).filterMap (s.propertyIndex db) ++ s.listedIndexes) := by
  have hall : (s.included exclude).all (fun p ↦ p.sqlType != "" || p.hasHandler) = true :=
    List.all_eq_true.mpr fun p hp ↦ h p (List.mem_filter.mp hp).1
  simp only [genTableCols, hall, if_true]

/-- **Creating the table.** -/
theorem registerTable_none_eq (habstract : s.isAbstract = false) (h : s.handled)
    (hallowed : db.Allowed (s.fullTable db cascade)) :
    s.registerTable db cascade migrate none = (.ok (), some (s.fullTable db cascade)) := by
  have hdef : s.genTableDef db cascade =
      .ok (⟨(s.fullTable db cascade).columns, (s.fullTable db cascade).foreignKeys⟩,
        (s.fullTable db cascade).indexes) := by
    rw [genTableDef, genTableCols_eq h, included_nil]
    cases hversioned : s.schema.stateVersioning <;> simp [fullTable, hversioned, bind, Except.bind]
  rw [registerTable, habstract]
  simp only [hdef, Bool.false_eq_true, if_false]
  rw [execTableDef_eq (by simpa using hallowed)]
  simp

theorem of_registerTable_none (habstract : s.isAbstract = false)
    (h : (s.registerTable db cascade migrate none).1 = .ok ()) :
    s.handled ∧ db.Allowed (s.fullTable db cascade) := by
  have hhandled : s.handled := by
    by_contra hnot
    have hall : ((s.included []).all fun p ↦ p.sqlType != "" || p.hasHandler) = false := by
      rw [included_nil, ← Bool.not_eq_true, List.all_eq_true]
      exact hnot
    rw [registerTable, habstract] at h
    simp only [genTableDef, genTableCols, hall, Bool.false_eq_true, if_false] at h
    cases h
  refine ⟨hhandled, ?_⟩
  rw [registerTable, habstract] at h
  simp only [genTableDef, genTableCols_eq hhandled, included_nil, Bool.false_eq_true, if_false,
    Go.ok_bind, execTableDef_iff, List.nil_append] at h
  cases hversioned : s.schema.stateVersioning <;> simpa [fullTable, hversioned] using h

/-- The table after a migration, if there is something to add. -/
def addedTo (s : TableSchema) (db : TableServer) (cascade : Bool) (table : Table) : Table :=
  let added := s.included (table.columns.map Column.name)
  { columns := table.columns ++ added.map ColumnProperty.column
    foreignKeys := table.foreignKeys ++ added.filterMap (s.foreignKey db cascade)
    indexes := table.indexes ++ (added.filterMap (s.propertyIndex db) ++ s.listedIndexes) }

/-- **Nothing to add.** -/
theorem registerTable_of_included_nil (habstract : s.isAbstract = false) {table : Table}
    (h : s.included (table.columns.map Column.name) = []) :
    s.registerTable db cascade migrate (some table) = (.ok (), some table) := by
  have hdef : s.alterTableDef db cascade table = .ok (none, []) := by
    simp [alterTableDef, genTableCols, h, bind, Except.bind]
  simp only [registerTable, habstract, hdef, Bool.false_eq_true, if_false]

/-- **Adding to the table.** -/
theorem registerTable_of_included_ne (habstract : s.isAbstract = false) (hhandled : s.handled)
    {table : Table} (h : s.included (table.columns.map Column.name) ≠ []) :
    ∃ table' indices, s.registerTable db cascade true (some table) =
        execTableDef db (some table) table' indices ∧
      { table' with indexes := table'.indexes ++ indices } = s.addedTo db cascade table := by
  have hcols : ((s.included (table.columns.map Column.name)).map
      ColumnProperty.column).isEmpty = false := by
    rw [List.isEmpty_eq_false_iff, Ne, List.map_eq_nil_iff]
    exact h
  refine ⟨{ s.addedTo db cascade table with indexes := table.indexes },
    (s.included (table.columns.map Column.name)).filterMap (s.propertyIndex db) ++
      s.listedIndexes, ?_, rfl⟩
  simp only [registerTable, habstract, alterTableDef, genTableCols_eq hhandled, hcols, Go.ok_bind,
    Bool.false_and, Bool.false_eq_true, if_false, if_true]
  rfl

end TableSchema

/-! ## A schema and one that extends it -/

namespace ColumnProperty

/-- The same property, which may have become a relation or indexed. -/
structure Grows (p q : ColumnProperty) : Prop where
  id : q.id = p.id
  type : q.type = p.type
  sqlType : q.sqlType = p.sqlType
  nullable : q.nullable = p.nullable
  unique : q.unique = p.unique
  relation : p.relation ≠ "" → q.relation = p.relation ∧ q.relationColumn = p.relationColumn ∧
    q.onDeleteCascade = p.onDeleteCascade
  indexed : p.indexed = true → q.indexed = true

/-- Does the type of the column depend on whether the property is a relation? -/
def typeFollowsRelation (p : ColumnProperty) : Prop :=
  p.sqlType = "" ∧ p.type = "string" ∧ p.id ≠ "id" ∧ p.unique = false

/-- The property has not become indexed, and if it has become a relation then of a schema that is
not registered and with the type the column has already. -/
structure Unchanged (db : TableServer) (p q : ColumnProperty) : Prop where
  indexed : q.indexed = p.indexed
  relation : q.relation = p.relation ∨
    schemaByID db.schemas q.relation = none ∧ ¬q.typeFollowsRelation

end ColumnProperty

namespace TableSchema

/-- The second schema has all properties of the first, and possibly more properties, relations,
indexes, or state versioning. -/
structure Extends (s s' : TableSchema) : Prop where
  id : s'.schema.id = s.schema.id
  plural : s'.schema.plural = s.schema.plural
  parent : s'.schema.parent = s.schema.parent
  isAbstract : s'.isAbstract = s.isAbstract
  onParentDeleteCascade : s'.onParentDeleteCascade = s.onParentDeleteCascade
  properties : ∀ p ∈ s.properties, ∃ q ∈ s'.properties, p.Grows q
  indexes : ∀ index ∈ s.indexes, index ∈ s'.indexes
  versioned : s.schema.stateVersioning = true → s'.schema.stateVersioning = true

/-- What of the second schema is new is something that a migration makes. -/
structure Migratable (db : TableServer) (s s' : TableSchema) : Prop where
  /-- State versioning is not new. -/
  versioned : s'.schema.stateVersioning = true → s.schema.stateVersioning = true
  kept : ∀ p ∈ s.properties, ∀ q ∈ s'.properties, q.id = p.id → p.Unchanged db q
  /-- If there is a new property, the first schema lists no index. -/
  listed : (∃ q ∈ s'.properties, ∀ p ∈ s.properties, q.id ≠ p.id) → s.indexes = []
  /-- If there is none, the second schema lists no other indexes. -/
  noneListed : (∀ q ∈ s'.properties, ∃ p ∈ s.properties, q.id = p.id) →
    ∀ index ∈ s'.indexes, index ∈ s.indexes

end TableSchema

/-- The same columns, foreign keys and indexes. -/
structure Table.Same (t t' : Table) : Prop where
  columns : ∀ column, column ∈ t.columns ↔ column ∈ t'.columns
  foreignKeys : ∀ key, key ∈ t.foreignKeys ↔ key ∈ t'.foreignKeys
  indexes : ∀ index, index ∈ t.indexes ↔ index ∈ t'.indexes

namespace TableSchema

/-- What `RegisterTable` leaves where there is no table. -/
def created (s : TableSchema) (db : TableServer) (cascade : Bool) : Option Table :=
  (s.registerTable db cascade false none).2

/-- The second schema is registered with migration, after the first one has been registered where
there was no table. -/
def migrate (s s' : TableSchema) (db : TableServer) (cascade : Bool) : Go Unit × Option Table :=
  s'.registerTable db cascade true (s.created db cascade)

/-- **Migrating equals creating.** -/
structure MigratesAsCreated (db : TableServer) (cascade : Bool) (s s' : TableSchema) : Prop where
  succeeds : (s.migrate s' db cascade).1 = .ok ()
  same : Option.Rel Table.Same (s.migrate s' db cascade).2 (s'.created db cascade)
  /-- After that there is nothing to migrate. -/
  settled : s'.registerTable db cascade false (s.migrate s' db cascade).2 =
    (.ok (), (s.migrate s' db cascade).2)

end TableSchema

/-! ## What is kept -/

/-- Two lists of items with identifiers, where the items of the first are among those of the second
with nothing changed that `f` and `g` look at: what they give for the first list and for the new
items of the second is what `g` gives for the second. -/
theorem perm_filterMap_kept {α β γ : Type} [BEq γ] [LawfulBEq γ] {id : α → γ} {f g : α → Option β}
    {kept all : List α} (hkept : (kept.map id).Nodup) (hall : (all.map id).Nodup)
    (hsub : ∀ p ∈ kept, ∃ q ∈ all, id q = id p)
    (hsame : ∀ p ∈ kept, ∀ q ∈ all, id q = id p → f p = g q) :
    (kept.filterMap f ++ (all.filter fun q ↦ !(kept.map id).contains (id q)).filterMap g).Perm
      (all.filterMap g) := by
  let counterpart (p : α) : Option α := all.find? (id · == id p)
  have hcounterpart {p q : α} : counterpart p = some q ↔ q ∈ all ∧ id q = id p := by
    constructor
    · intro h
      have hid := List.find?_some h
      exact ⟨List.mem_of_find?_eq_some h, beq_iff_eq.mp hid⟩
    · rintro ⟨hq, hid⟩
      cases hfind : counterpart p with
      | none =>
        have hnot := List.find?_eq_none.mp hfind q hq
        exact absurd (beq_iff_eq.mpr hid) hnot
      | some q' =>
        have hid' := List.find?_some hfind
        rw [List.inj_on_of_nodup_map hall (List.mem_of_find?_eq_some hfind) hq
          ((beq_iff_eq.mp hid').trans hid.symm)]
  have hthrough : kept.filterMap f = (kept.filterMap counterpart).filterMap g := by
    rw [List.filterMap_filterMap]
    refine List.filterMap_congr fun p hp ↦ ?_
    obtain ⟨q, hq, hid⟩ := hsub p hp
    rw [hcounterpart.mpr ⟨hq, hid⟩]
    exact hsame p hp q hq hid
  have hperm : (kept.filterMap counterpart).Perm
      (all.filter fun q ↦ (kept.map id).contains (id q)) := by
    rw [List.perm_ext_iff_of_nodup]
    · intro q
      simp only [List.mem_filterMap, hcounterpart, List.mem_filter, List.contains_iff_mem,
        List.mem_map]
      exact ⟨fun ⟨p, hp, hq, hid⟩ ↦ ⟨hq, p, hp, hid.symm⟩,
        fun ⟨hq, p, hp, hid⟩ ↦ ⟨p, hp, hq, hid.symm⟩⟩
    · refine (List.pairwise_map.mp hkept).filterMap counterpart fun p p' hne q hq q' hq' heq ↦ ?_
      subst heq
      exact hne ((hcounterpart.mp hq).2.symm.trans (hcounterpart.mp hq').2)
    · exact (List.Nodup.of_map id hall).filter _
  rw [hthrough]
  have hsplit := List.filter_append_perm (fun q ↦ (kept.map id).contains (id q)) all
  refine List.Perm.trans ?_ (hsplit.filterMap g)
  rw [List.filterMap_append]
  exact (hperm.filterMap g).append_right _

namespace ColumnProperty.Grows

variable {db : TableServer} {s s' : TableSchema} {p q : ColumnProperty} {cascade : Bool}

theorem dataType_eq (h : p.Grows q) (hrelation : q.relation = p.relation) :
    q.dataType = p.dataType := by
  rw [dataType, dataType, h.type, h.id, h.unique, hrelation]

/-- A type that does not follow the relation is the same whether the property is one or not. -/
theorem dataType_eq_of_not_follows (h : p.Grows q) (hhandler : q.hasHandler = true)
    (hsql : q.sqlType = "") (hnot : ¬q.typeFollowsRelation) : q.dataType = p.dataType := by
  have htypes : q.type = "string" ∨ q.type = "number" ∨ q.type = "integer" ∨ q.type = "object" ∨
      q.type = "array" ∨ q.type = "boolean" := by
    simpa [hasHandler] using hhandler
  rw [dataType, dataType, ← h.type, ← h.id, ← h.unique]
  rcases htypes with htype | htype | htype | htype | htype | htype
  · have hfixed : q.id = "id" ∨ q.unique = true := by
      by_contra hnone
      push Not at hnone
      exact hnot ⟨hsql, htype, hnone.1, by simpa using hnone.2⟩
    simp only [htype]
    rw [if_pos (by tauto), if_pos (by tauto)]
  all_goals simp only [htype]

theorem column_eq (h : p.Grows q) (hunchanged : p.Unchanged db q)
    (hhandled : (q.sqlType != "" || q.hasHandler) = true) : q.column = p.column := by
  have htype : q.sqlDataType = p.sqlDataType := by
    rw [sqlDataType, sqlDataType, ← h.sqlType]
    split
    · next hsql =>
      rcases hunchanged.relation with hrelation | ⟨-, hnot⟩
      · exact h.dataType_eq hrelation
      · exact h.dataType_eq_of_not_follows (by simpa [hsql] using hhandled) hsql hnot
    · rfl
  rw [column, column, htype, h.id, sqlDataProperties, sqlDataProperties, h.id, h.sqlType, h.unique,
    h.nullable]

/-- What was a relation is the same relation. -/
theorem foreignKey_of_relation (h : p.Grows q) (hextends : s.Extends s')
    (hrelation : q.relation = p.relation) :
    s'.foreignKey db cascade q = s.foreignKey db cascade p := by
  rw [TableSchema.foreignKey, TableSchema.foreignKey, hrelation]
  split
  · rfl
  · next hne =>
    obtain ⟨-, hcolumn, hcascade⟩ := h.relation hne
    rw [hcolumn, hcascade, hextends.parent, hextends.onParentDeleteCascade, h.id]
    simp only [TableSchema.getDbTableName, Schema.getDbTableName, hextends.id, hextends.plural]

theorem foreignKey_of_none (h : p.Grows q) (hextends : s.Extends s')
    (hnone : s'.foreignKey db cascade q = none) :
    s'.foreignKey db cascade q = s.foreignKey db cascade p := by
  by_cases hp : p.relation = ""
  · rw [hnone, TableSchema.foreignKey, if_pos hp]
  · exact h.foreignKey_of_relation hextends (h.relation hp).1

theorem foreignKey_eq (h : p.Grows q) (hextends : s.Extends s')
    (hunchanged : p.Unchanged db q) :
    s'.foreignKey db cascade q = s.foreignKey db cascade p := by
  rcases hunchanged.relation with hrelation | ⟨hnone, -⟩
  · exact h.foreignKey_of_relation hextends hrelation
  · refine h.foreignKey_of_none hextends ?_
    rw [TableSchema.foreignKey, hnone]
    split <;> rfl

theorem propertyIndex_eq (h : p.Grows q) (hextends : s.Extends s')
    (hindexed : q.indexed = p.indexed) (hcolumn : q.column = p.column) :
    s'.propertyIndex db q = s.propertyIndex db p := by
  have htype : q.sqlDataType = p.sqlDataType := congrArg Column.sqlDataType hcolumn
  rw [TableSchema.propertyIndex, TableSchema.propertyIndex, hindexed, htype, h.id]
  simp only [TableSchema.getDbTableName, Schema.getDbTableName, hextends.id, hextends.plural]

/-- A property with the same column and no new foreign key or index is unchanged. -/
theorem unchanged (h : p.Grows q) (hindexed : q.indexed = p.indexed)
    (hcolumn : q.column = p.column)
    (hkey : s'.foreignKey db cascade q = s.foreignKey db cascade p) : p.Unchanged db q := by
  refine ⟨hindexed, ?_⟩
  by_cases hp : p.relation = ""
  · by_cases hq : q.relation = ""
    · exact .inl (hq.trans hp.symm)
    · refine .inr ⟨?_, fun ⟨hsql, htype, hid, hunique⟩ ↦ ?_⟩
      · rw [TableSchema.foreignKey, TableSchema.foreignKey, if_neg hq, if_pos hp] at hkey
        exact Option.map_eq_none_iff.mp hkey
      · have hdata : q.sqlDataType = p.sqlDataType := congrArg Column.sqlDataType hcolumn
        rw [sqlDataType, sqlDataType, ← h.sqlType, if_pos hsql, if_pos hsql, dataType, dataType,
          ← h.type, htype, ← h.id, ← h.unique] at hdata
        rw [if_pos (by tauto), if_neg (by simp [hid, hunique, hp])] at hdata
        revert hdata
        decide
  · exact .inl (h.relation hp).1

end ColumnProperty.Grows

namespace TableSchema

/-! ## Both schemas have a table -/

variable {db : TableServer} {s s' : TableSchema} {cascade : Bool}

theorem map_name_columns (s : TableSchema) (db : TableServer) (cascade : Bool) :
    (s.fullTable db cascade).columns.map Column.name = s.properties.map (·.id) ++
      (if s.schema.stateVersioning then stateColumns else []).map Column.name := by
  rw [fullTable, List.map_append, List.map_map]
  rfl

theorem nodup_ids (h : db.Allowed (s.fullTable db cascade)) :
    (s.properties.map (·.id)).Nodup := by
  have hnames := h.columnNames
  rw [map_name_columns] at hnames
  exact hnames.of_append_left

/-- A schema with a table has one property of an identifier. -/
theorem eq_of_id_eq (h : db.Allowed (s.fullTable db cascade)) {p q : ColumnProperty}
    (hp : p ∈ s.properties) (hq : q ∈ s.properties) (hid : p.id = q.id) : p = q :=
  List.inj_on_of_nodup_map (nodup_ids h) hp hq hid

/-- No property has the name of a column for the state. -/
theorem id_notMem_stateColumns (h : db.Allowed (s.fullTable db cascade))
    (hversioned : s.schema.stateVersioning = true) {p : ColumnProperty} (hp : p ∈ s.properties) :
    p.id ∉ stateColumns.map Column.name := by
  have hnames := h.columnNames
  rw [map_name_columns, if_pos hversioned] at hnames
  exact List.disjoint_of_nodup_append hnames (List.mem_map_of_mem hp)

/-- No listed index is that of a property. -/
theorem propertyIndex_notMem_listedIndexes (h : db.Allowed (s.fullTable db cascade))
    {p : ColumnProperty} (hp : p ∈ s.properties) {index : Index}
    (hindex : s.propertyIndex db p = some index) : index ∉ s.listedIndexes := by
  have hnames := h.indexNames
  rw [fullTable, List.map_append] at hnames
  intro hlisted
  exact List.disjoint_of_nodup_append hnames
    (List.mem_map_of_mem (List.mem_filterMap.mpr ⟨p, hp, hindex⟩)) (List.mem_map_of_mem hlisted)

theorem foreignKey_column {p : ColumnProperty} {key : ForeignKey}
    (h : s.foreignKey db cascade p = some key) : key.column = p.id := by
  rw [foreignKey] at h
  split at h
  · cases h
  · obtain ⟨foreignSchema, -, rfl⟩ := Option.map_eq_some_iff.mp h
    rfl

theorem propertyIndex_columns {p : ColumnProperty} {index : Index}
    (h : s.propertyIndex db p = some index) : index.columns = [p.id] ∧ p.indexed = true := by
  rw [propertyIndex] at h
  split at h
  · next hindexed =>
    obtain rfl := Option.some.inj h
    exact ⟨rfl, hindexed⟩
  · cases h

theorem exists_propertyIndex (s : TableSchema) (db : TableServer) {p : ColumnProperty}
    (h : p.indexed = true) : ∃ index, s.propertyIndex db p = some index := by
  rw [propertyIndex, if_pos h]
  exact ⟨_, rfl⟩

/-- The properties of the second schema that the first does not have. -/
def added (s s' : TableSchema) : List ColumnProperty :=
  s'.properties.filter fun q ↦ !(s.properties.map (·.id)).contains q.id

theorem mem_added {q : ColumnProperty} :
    q ∈ s.added s' ↔ q ∈ s'.properties ∧ ∀ p ∈ s.properties, q.id ≠ p.id := by
  rw [added, List.mem_filter]
  refine and_congr_right fun _ ↦ ?_
  rw [Bool.not_eq_true', ← Bool.not_eq_true, List.contains_iff_mem, List.mem_map, not_exists]
  exact forall_congr' fun p ↦
    ⟨fun h hp hid ↦ h ⟨hp, hid.symm⟩, fun h ⟨hp, hid⟩ ↦ h hp hid.symm⟩

/-- What two schemas are about that have tables, of which the second extends the first. -/
structure Both (db : TableServer) (cascade : Bool) (s s' : TableSchema) : Prop where
  extension : s.Extends s'
  isAbstract : s'.isAbstract = false
  handled : s.handled
  handled' : s'.handled
  allowed : db.Allowed (s.fullTable db cascade)
  allowed' : db.Allowed (s'.fullTable db cascade)

namespace Both

theorem included_eq (h : Both db cascade s s') :
    s'.included ((s.fullTable db cascade).columns.map Column.name) = s.added s' := by
  rw [included, added, map_name_columns]
  refine List.filter_congr fun q hq ↦ ?_
  have hnot : q.id ∉
      (if s.schema.stateVersioning then stateColumns else []).map Column.name := by
    split
    · next hversioned =>
      exact id_notMem_stateColumns h.allowed' (h.extension.versioned hversioned) hq
    · simp
  congr 1
  rw [Bool.eq_iff_iff, List.contains_iff_mem, List.contains_iff_mem, List.mem_append,
    or_iff_left hnot]

theorem created_eq (h : Both db cascade s s') :
    s.created db cascade = some (s.fullTable db cascade) := by
  rw [created, registerTable_none_eq (h.extension.isAbstract ▸ h.isAbstract) h.handled h.allowed]

theorem created_eq' (h : Both db cascade s s') :
    s'.created db cascade = some (s'.fullTable db cascade) := by
  rw [created, registerTable_none_eq h.isAbstract h.handled' h.allowed']

theorem migrate_of_nil (h : Both db cascade s s') (hnil : s.added s' = []) :
    s.migrate s' db cascade = (.ok (), some (s.fullTable db cascade)) := by
  rw [migrate, h.created_eq]
  exact registerTable_of_included_nil h.isAbstract (h.included_eq.trans hnil)

theorem migrate_of_ne (h : Both db cascade s s') (hne : s.added s' ≠ []) :
    ∃ table' indices, s.migrate s' db cascade =
        execTableDef db (some (s.fullTable db cascade)) table' indices ∧
      { table' with indexes := table'.indexes ++ indices } =
        s'.addedTo db cascade (s.fullTable db cascade) := by
  rw [migrate, h.created_eq]
  exact registerTable_of_included_ne h.isAbstract h.handled' (h.included_eq ▸ hne)

/-! ## A migration that is enough -/

variable {β : Type}

/-- What is generated for the properties of the first schema and the new ones of the second. -/
theorem perm_filterMap (h : Both db cascade s s') {f g : ColumnProperty → Option β}
    (hsame : ∀ p ∈ s.properties, ∀ q ∈ s'.properties, p.Grows q → f p = g q) :
    (s.properties.filterMap f ++ (s.added s').filterMap g).Perm (s'.properties.filterMap g) := by
  refine perm_filterMap_kept (nodup_ids h.allowed) (nodup_ids h.allowed')
    (fun p hp ↦ ?_) fun p hp q hq hid ↦ ?_
  · obtain ⟨q, hq, hgrows⟩ := h.extension.properties p hp
    exact ⟨q, hq, hgrows.id⟩
  · obtain ⟨q', hq', hgrows⟩ := h.extension.properties p hp
    obtain rfl := eq_of_id_eq h.allowed' hq hq' (hid.trans hgrows.id.symm)
    exact hsame p hp q hq hgrows

theorem perm_columns (h : Both db cascade s s') (hmigratable : s.Migratable db s') :
    ((s.fullTable db cascade).columns ++ (s.added s').map ColumnProperty.column).Perm
      (s'.fullTable db cascade).columns := by
  have hversioned : s.schema.stateVersioning = s'.schema.stateVersioning :=
    Bool.eq_iff_iff.mpr ⟨h.extension.versioned, hmigratable.versioned⟩
  have hperm := h.perm_filterMap (f := some ∘ ColumnProperty.column)
    (g := some ∘ ColumnProperty.column) fun p hp q hq hgrows ↦ by
      rw [Function.comp_apply, Function.comp_apply, hgrows.column_eq
        (hmigratable.kept p hp q hq hgrows.id) (h.handled' q hq)]
  simp only [List.filterMap_eq_map] at hperm
  rw [fullTable, fullTable, hversioned]
  refine List.Perm.trans ?_ (hperm.append_right _)
  rw [List.append_assoc, List.append_assoc]
  exact List.perm_append_comm.append_left _

theorem perm_foreignKeys (h : Both db cascade s s') (hmigratable : s.Migratable db s') :
    ((s.fullTable db cascade).foreignKeys ++
        (s.added s').filterMap (s'.foreignKey db cascade)).Perm
      (s'.fullTable db cascade).foreignKeys :=
  h.perm_filterMap fun p hp q hq hgrows ↦
    (hgrows.foreignKey_eq h.extension (hmigratable.kept p hp q hq hgrows.id)).symm

theorem perm_propertyIndexes (h : Both db cascade s s') (hmigratable : s.Migratable db s') :
    (s.properties.filterMap (s.propertyIndex db) ++
        (s.added s').filterMap (s'.propertyIndex db)).Perm
      (s'.properties.filterMap (s'.propertyIndex db)) :=
  h.perm_filterMap fun p hp q hq hgrows ↦
    have hunchanged := hmigratable.kept p hp q hq hgrows.id
    (hgrows.propertyIndex_eq h.extension hunchanged.indexed
      (hgrows.column_eq hunchanged (h.handled' q hq))).symm

theorem listedIndexes_subset (h : Both db cascade s s') :
    ∀ index ∈ s.listedIndexes, index ∈ s'.listedIndexes := by
  intro index hindex
  obtain ⟨i, hi, rfl⟩ := List.mem_map.mp hindex
  exact List.mem_map_of_mem (h.extension.indexes i hi)

/-- **Where the condition is met, migrating leaves what creating leaves.** -/
theorem migratesAsCreated (h : Both db cascade s s') (hmigratable : s.Migratable db s') :
    MigratesAsCreated db cascade s s' := by
  have hcolumns := h.perm_columns hmigratable
  have hkeys := h.perm_foreignKeys hmigratable
  have hindexes := h.perm_propertyIndexes hmigratable
  by_cases hnil : s.added s' = []
  · have hmigrate := h.migrate_of_nil hnil
    rw [hnil, List.map_nil, List.append_nil] at hcolumns
    rw [hnil, List.filterMap_nil, List.append_nil] at hkeys hindexes
    have hlisted : ∀ index, index ∈ s.listedIndexes ↔ index ∈ s'.listedIndexes := by
      refine fun index ↦ ⟨h.listedIndexes_subset index, fun hindex ↦ ?_⟩
      obtain ⟨i, hi, rfl⟩ := List.mem_map.mp hindex
      refine List.mem_map_of_mem (hmigratable.noneListed (fun q hq ↦ ?_) i hi)
      by_contra hnone
      push Not at hnone
      exact List.ne_nil_of_mem (mem_added.mpr ⟨hq, hnone⟩) hnil
    refine ⟨by rw [hmigrate], ?_, ?_⟩
    · rw [hmigrate, h.created_eq']
      refine .some ⟨fun c ↦ hcolumns.mem_iff, fun k ↦ hkeys.mem_iff, fun i ↦ ?_⟩
      rw [fullTable, fullTable, List.mem_append, List.mem_append, hindexes.mem_iff, hlisted]
    · rw [hmigrate]
      exact registerTable_of_included_nil h.isAbstract (h.included_eq.trans hnil)
  · obtain ⟨table', indices, hmigrate, htable⟩ := h.migrate_of_ne hnil
    have hnone : s.listedIndexes = [] := by
      obtain ⟨q, hq⟩ := List.exists_mem_of_ne_nil _ hnil
      rw [listedIndexes, hmigratable.listed ⟨q, mem_added.mp hq⟩, List.map_nil]
    have hall : (s'.addedTo db cascade (s.fullTable db cascade)).indexes.Perm
        (s'.fullTable db cascade).indexes := by
      rw [addedTo, h.included_eq, fullTable, hnone, List.append_nil, ← List.append_assoc]
      exact hindexes.append_right _
    rw [← h.included_eq] at hcolumns hkeys
    have hallowed : db.Allowed (s'.addedTo db cascade (s.fullTable db cascade)) :=
      h.allowed'.perm hcolumns.symm hkeys.symm hall.symm
    rw [← htable] at hallowed
    have hmigrate := hmigrate.trans (execTableDef_eq hallowed)
    rw [htable] at hmigrate
    refine ⟨by rw [hmigrate], ?_, ?_⟩
    · rw [hmigrate, h.created_eq']
      exact .some ⟨fun c ↦ hcolumns.mem_iff, fun k ↦ hkeys.mem_iff, fun i ↦ hall.mem_iff⟩
    · rw [hmigrate]
      refine registerTable_of_included_nil h.isAbstract ?_
      rw [included, List.filter_eq_nil_iff]
      intro q hq
      have hname : q.id ∈ (s'.addedTo db cascade (s.fullTable db cascade)).columns.map
          Column.name := by
        refine (hcolumns.map Column.name).mem_iff.mpr ?_
        rw [map_name_columns]
        exact List.mem_append_left _ (List.mem_map_of_mem hq)
      simpa using hname

/-! ## What a migration does not make -/

/-- What the migration leaves: the table of the first schema, or one with more if there is a new
property. -/
theorem same_of_migratesAsCreated (h : Both db cascade s s')
    (hmigrates : MigratesAsCreated db cascade s s') :
    (s.added s' = [] ∧ (s.fullTable db cascade).Same (s'.fullTable db cascade)) ∨
      (s.added s' ≠ [] ∧ db.Allowed (s'.addedTo db cascade (s.fullTable db cascade)) ∧
        (s'.addedTo db cascade (s.fullTable db cascade)).Same (s'.fullTable db cascade)) := by
  have hsame := hmigrates.same
  rw [h.created_eq'] at hsame
  by_cases hnil : s.added s' = []
  · rw [h.migrate_of_nil hnil] at hsame
    obtain ⟨hsame⟩ := hsame
    exact .inl ⟨hnil, hsame⟩
  · obtain ⟨table', indices, hmigrate, htable⟩ := h.migrate_of_ne hnil
    have hsucceeds := hmigrates.succeeds
    rw [hmigrate, execTableDef_iff] at hsucceeds
    rw [hmigrate, execTableDef_eq hsucceeds, htable] at hsame
    obtain ⟨hsame⟩ := hsame
    exact .inr ⟨hnil, htable ▸ hsucceeds, hsame⟩

/-- The columns there are after the migration: those of the first schema and of new properties. -/
theorem column_cases (h : Both db cascade s s') (hmigrates : MigratesAsCreated db cascade s s')
    {column : Column} (hcolumn : column ∈ (s'.fullTable db cascade).columns) :
    column ∈ (s.fullTable db cascade).columns ∨ ∃ q ∈ s.added s', q.column = column := by
  rcases h.same_of_migratesAsCreated hmigrates with ⟨-, hsame⟩ | ⟨-, -, hsame⟩
  · exact .inl ((hsame.columns column).mpr hcolumn)
  · have hmem := (hsame.columns column).mpr hcolumn
    rw [addedTo, h.included_eq] at hmem
    exact (List.mem_append.mp hmem).imp_right List.mem_map.mp

theorem foreignKey_cases (h : Both db cascade s s')
    (hmigrates : MigratesAsCreated db cascade s s') {key : ForeignKey}
    (hkey : key ∈ (s'.fullTable db cascade).foreignKeys) :
    (∃ p ∈ s.properties, s.foreignKey db cascade p = some key) ∨
      ∃ q ∈ s.added s', s'.foreignKey db cascade q = some key := by
  rcases h.same_of_migratesAsCreated hmigrates with ⟨-, hsame⟩ | ⟨-, -, hsame⟩
  · exact .inl (List.mem_filterMap.mp ((hsame.foreignKeys key).mpr hkey))
  · have hmem := (hsame.foreignKeys key).mpr hkey
    rw [addedTo, h.included_eq] at hmem
    exact (List.mem_append.mp hmem).imp List.mem_filterMap.mp List.mem_filterMap.mp

/-- The index of a property is one that a property had, or that of a new property. -/
theorem propertyIndex_cases (h : Both db cascade s s')
    (hmigrates : MigratesAsCreated db cascade s s') {q : ColumnProperty}
    (hq : q ∈ s'.properties) {index : Index} (hindex : s'.propertyIndex db q = some index) :
    (∃ p ∈ s.properties, s.propertyIndex db p = some index) ∨
      ∃ q ∈ s.added s', s'.propertyIndex db q = some index := by
  have hnot := propertyIndex_notMem_listedIndexes h.allowed' hq hindex
  have hnot' : index ∉ s.listedIndexes := fun hlisted ↦
    hnot (h.listedIndexes_subset index hlisted)
  have hfull : index ∈ (s'.fullTable db cascade).indexes :=
    List.mem_append_left _ (List.mem_filterMap.mpr ⟨q, hq, hindex⟩)
  rcases h.same_of_migratesAsCreated hmigrates with ⟨-, hsame⟩ | ⟨-, -, hsame⟩
  · rcases List.mem_append.mp ((hsame.indexes index).mpr hfull) with hmem | hmem
    · exact .inl (List.mem_filterMap.mp hmem)
    · exact absurd hmem hnot'
  · have hmem := (hsame.indexes index).mpr hfull
    rw [addedTo, h.included_eq] at hmem
    rcases List.mem_append.mp hmem with hmem | hmem
    · rcases List.mem_append.mp hmem with hmem | hmem
      · exact .inl (List.mem_filterMap.mp hmem)
      · exact absurd hmem hnot'
    · rcases List.mem_append.mp hmem with hmem | hmem
      · exact .inr (List.mem_filterMap.mp hmem)
      · exact absurd hmem hnot

theorem versioned_of_migratesAsCreated (h : Both db cascade s s')
    (hmigrates : MigratesAsCreated db cascade s s')
    (hversioned : s'.schema.stateVersioning = true) : s.schema.stateVersioning = true := by
  by_contra hnot
  have hstate : ⟨"config_version", "int", "not null default 1"⟩ ∈ stateColumns := by
    simp [stateColumns]
  have hid : ∀ q ∈ s'.properties, q.id ≠ "config_version" := by
    rintro q hq hid
    refine id_notMem_stateColumns h.allowed' hversioned hq ?_
    rw [hid]
    exact List.mem_map_of_mem hstate
  have hmem : ⟨"config_version", "int", "not null default 1"⟩ ∈
      (s'.fullTable db cascade).columns := by
    rw [fullTable, if_pos hversioned]
    exact List.mem_append_right _ hstate
  rcases h.column_cases hmigrates hmem with hmem | ⟨q, hq, hcolumn⟩
  · rw [fullTable, if_neg hnot, List.append_nil] at hmem
    obtain ⟨p, hp, hcolumn⟩ := List.mem_map.mp hmem
    obtain ⟨q, hq, hgrows⟩ := h.extension.properties p hp
    exact hid q hq (hgrows.id.trans (congrArg Column.name hcolumn))
  · exact hid q (mem_added.mp hq).1 (congrArg Column.name hcolumn)

theorem kept_of_migratesAsCreated (h : Both db cascade s s')
    (hmigrates : MigratesAsCreated db cascade s s') {p q : ColumnProperty}
    (hp : p ∈ s.properties) (hq : q ∈ s'.properties) (hid : q.id = p.id) : p.Unchanged db q := by
  obtain ⟨q', hq', hgrows⟩ := h.extension.properties p hp
  obtain rfl := eq_of_id_eq h.allowed' hq hq' (hid.trans hgrows.id.symm)
  -- what the second table has for the property is from the first one
  have hold {q' : ColumnProperty} (hq' : q' ∈ s.added s') : q'.id ≠ q.id := by
    rw [hid]
    exact (mem_added.mp hq').2 p hp
  have hcolumn : q.column = p.column := by
    have hmem : q.column ∈ (s'.fullTable db cascade).columns :=
      List.mem_append_left _ (List.mem_map_of_mem hq)
    rcases h.column_cases hmigrates hmem with hmem | ⟨q', hq', hcolumn⟩
    · rcases List.mem_append.mp hmem with hmem | hmem
      · obtain ⟨p', hp', hcolumn⟩ := List.mem_map.mp hmem
        have hid' : p'.id = p.id := (congrArg Column.name hcolumn).trans hid
        rw [← hcolumn, eq_of_id_eq h.allowed hp' hp hid']
      · split at hmem
        · next hversioned =>
          exact absurd (List.mem_map_of_mem hmem) (id_notMem_stateColumns h.allowed'
            (h.extension.versioned hversioned) hq)
        · cases hmem
    · exact absurd (congrArg Column.name hcolumn) (hold hq')
  have hkey : s'.foreignKey db cascade q = s.foreignKey db cascade p := by
    cases hkey : s'.foreignKey db cascade q with
    | none => rw [← hkey, hgrows.foreignKey_of_none h.extension hkey]
    | some key =>
      have hmem : key ∈ (s'.fullTable db cascade).foreignKeys :=
        List.mem_filterMap.mpr ⟨q, hq, hkey⟩
      have hname := foreignKey_column hkey
      rcases h.foreignKey_cases hmigrates hmem with ⟨p', hp', hkey'⟩ | ⟨q', hq', hkey'⟩
      · have hid' : p'.id = p.id := ((foreignKey_column hkey').symm.trans hname).trans hid
        rw [← eq_of_id_eq h.allowed hp' hp hid', hkey']
      · exact absurd ((foreignKey_column hkey').symm.trans hname) (hold hq')
  have hindexed : q.indexed = p.indexed := by
    refine Bool.eq_iff_iff.mpr ⟨fun hindexed ↦ ?_, hgrows.indexed⟩
    obtain ⟨index, hindex⟩ := exists_propertyIndex s' db hindexed
    have hcolumns := propertyIndex_columns hindex
    rcases h.propertyIndex_cases hmigrates hq hindex with ⟨p', hp', hindex'⟩ | ⟨q', hq', hindex'⟩
    · have hsame := (propertyIndex_columns hindex').1.symm.trans hcolumns.1
      have hid' : p'.id = p.id := (List.singleton_inj.mp hsame).trans hid
      rw [← eq_of_id_eq h.allowed hp' hp hid']
      exact (propertyIndex_columns hindex').2
    · have hsame := (propertyIndex_columns hindex').1.symm.trans hcolumns.1
      exact absurd (List.singleton_inj.mp hsame) (hold hq')
  exact hgrows.unchanged hindexed hcolumn hkey

theorem listed_of_migratesAsCreated (h : Both db cascade s s')
    (hmigrates : MigratesAsCreated db cascade s s')
    (hnew : ∃ q ∈ s'.properties, ∀ p ∈ s.properties, q.id ≠ p.id) : s.indexes = [] := by
  obtain ⟨q, hq⟩ := hnew
  rcases h.same_of_migratesAsCreated hmigrates with ⟨hnil, -⟩ | ⟨-, hallowed, -⟩
  · exact absurd hnil (List.ne_nil_of_mem (mem_added.mpr hq))
  · by_contra hne
    obtain ⟨index, hindex⟩ := List.exists_mem_of_ne_nil _ hne
    -- the index is created a second time
    have hnames := hallowed.indexNames
    rw [addedTo, fullTable, List.map_append, List.map_append, List.map_append] at hnames
    have hlisted : ⟨index.name, index.type, index.columns, ""⟩ ∈ s.listedIndexes :=
      List.mem_map_of_mem hindex
    exact List.disjoint_of_nodup_append hnames
      (List.mem_append_right _ (List.mem_map_of_mem hlisted))
      (List.mem_append_right _ (List.mem_map_of_mem (h.listedIndexes_subset _ hlisted)))

theorem noneListed_of_migratesAsCreated (h : Both db cascade s s')
    (hmigrates : MigratesAsCreated db cascade s s')
    (hold : ∀ q ∈ s'.properties, ∃ p ∈ s.properties, q.id = p.id) :
    ∀ index ∈ s'.indexes, index ∈ s.indexes := by
  intro index hindex
  have hlisted : ⟨index.name, index.type, index.columns, ""⟩ ∈ s'.listedIndexes :=
    List.mem_map_of_mem hindex
  rcases h.same_of_migratesAsCreated hmigrates with ⟨-, hsame⟩ | ⟨hne, -⟩
  · rcases List.mem_append.mp ((hsame.indexes _).mpr (List.mem_append_right _ hlisted)) with
      hmem | hmem
    · obtain ⟨p, hp, hpropertyIndex⟩ := List.mem_filterMap.mp hmem
      obtain ⟨q, hq, hgrows⟩ := h.extension.properties p hp
      have hunchanged := h.kept_of_migratesAsCreated hmigrates hp hq hgrows.id
      have hsameIndex : s'.propertyIndex db q = s.propertyIndex db p :=
        hgrows.propertyIndex_eq h.extension hunchanged.indexed
          (hgrows.column_eq hunchanged (h.handled' q hq))
      exact absurd hlisted (propertyIndex_notMem_listedIndexes h.allowed' hq
        (hsameIndex.trans hpropertyIndex))
    · obtain ⟨index', hindex', heq⟩ := List.mem_map.mp hmem
      obtain ⟨name, columns, type⟩ := index
      obtain ⟨name', columns', type'⟩ := index'
      obtain ⟨rfl, rfl, rfl, -⟩ := Index.mk.inj heq
      exact hindex'
  · obtain ⟨q, hq⟩ := List.exists_mem_of_ne_nil _ hne
    obtain ⟨hq, hnew⟩ := mem_added.mp hq
    obtain ⟨p, hp, hid⟩ := hold q hq
    exact absurd hid (hnew p hp)

end Both

/-- **Registering a schema with migration, where the table was made from a schema that it extends,
leaves what creating the table leaves exactly when state versioning is not new, no property that
was there has become a relation or indexed, and the listed indexes are new if a property is and
are the same if none is.** -/
theorem migratesAsCreated_iff (db : TableServer) (cascade : Bool) (s s' : TableSchema)
    (hextends : s.Extends s') (hs : (s.registerTable db cascade false none).1 = .ok ())
    (hs' : (s'.registerTable db cascade false none).1 = .ok ()) :
    MigratesAsCreated db cascade s s' ↔ s'.isAbstract = true ∨ s.Migratable db s' := by
  cases habstract : s'.isAbstract with
  | true =>
    refine iff_of_true ?_ (.inl rfl)
    have hregister (s : TableSchema) (h : s.isAbstract = true) (migrate : Bool) :
        s.registerTable db cascade migrate none = (.ok (), none) := by
      rw [registerTable, if_pos h]
    have hcreated : s.created db cascade = none := by
      rw [created, hregister s (hextends.isAbstract ▸ habstract)]
    have hmigrate : s.migrate s' db cascade = (.ok (), none) := by
      rw [migrate, hcreated, hregister s' habstract]
    refine ⟨by rw [hmigrate], ?_, ?_⟩
    · rw [hmigrate, created, hregister s' habstract]
      exact .none
    · rw [hmigrate, hregister s' habstract]
  | false =>
    obtain ⟨hhandled, hallowed⟩ := of_registerTable_none (hextends.isAbstract ▸ habstract) hs
    obtain ⟨hhandled', hallowed'⟩ := of_registerTable_none habstract hs'
    have hboth : Both db cascade s s' :=
      ⟨hextends, habstract, hhandled, hhandled', hallowed, hallowed'⟩
    rw [or_iff_right Bool.false_ne_true]
    refine ⟨fun hmigrates ↦ ?_, hboth.migratesAsCreated⟩
    exact ⟨hboth.versioned_of_migratesAsCreated hmigrates,
      fun p hp q hq hid ↦ hboth.kept_of_migratesAsCreated hmigrates hp hq hid,
      hboth.listed_of_migratesAsCreated hmigrates, hboth.noneListed_of_migratesAsCreated hmigrates⟩

/-! ## An index that is created twice -/

/-- A server that accepts what may be. -/
def emptyServer : TableServer := ⟨[], false, fun _ ↦ true, fun _ ↦ true, fun _ ↦ true⟩

/-- A schema of hosts. -/
def hosts (properties : List ColumnProperty) (indexes : List SchemaIndex) : TableSchema where
  schema :=
    { id := "host", singular := "host", plural := "hosts", url := "/v2.0/hosts"
      properties := properties.map ColumnProperty.toProperty }
  properties
  own_eq := rfl
  indexes

/-- Hosts with names. -/
def namedHosts : List ColumnProperty := [{ id := "id" }, { id := "name", sqlType := "varchar(64)" }]

/-- A zone, and an index on the names. -/
def zonedHosts : TableSchema :=
  hosts (namedHosts ++ [{ id := "zone", indexed := true }]) [⟨"by_name", ["name"], "UNIQUE"⟩]

theorem ColumnProperty.Grows.refl (p : ColumnProperty) : p.Grows p :=
  ⟨rfl, rfl, rfl, rfl, rfl, fun _ ↦ ⟨rfl, rfl, rfl⟩, id⟩

/-- Any hosts with names and some of the index. -/
theorem extends_zonedHosts {indexes : List SchemaIndex}
    (h : ∀ index ∈ indexes, index ∈ zonedHosts.indexes) :
    (hosts namedHosts indexes).Extends zonedHosts :=
  ⟨rfl, rfl, rfl, rfl, rfl,
    fun p hp ↦ ⟨p, List.mem_append_left _ hp, ColumnProperty.Grows.refl p⟩, h, id⟩

theorem migratesAsCreated_zonedHosts :
    MigratesAsCreated emptyServer false (hosts namedHosts []) zonedHosts := by
  refine (migratesAsCreated_iff emptyServer false (hosts namedHosts []) zonedHosts
    (extends_zonedHosts (by simp)) (by decide +kernel) (by decide +kernel)).mpr (.inr ?_)
  refine ⟨fun h ↦ ?_, fun p hp q hq hid ↦ ?_, fun _ ↦ rfl, fun h ↦ ?_⟩
  · revert h
    decide +kernel
  · simp only [hosts, namedHosts, zonedHosts, List.cons_append, List.nil_append, List.mem_cons,
      List.not_mem_nil, or_false] at hp hq
    rcases hp with rfl | rfl <;> rcases hq with rfl | rfl | rfl <;>
      first | exact ⟨rfl, .inl rfl⟩ | exact absurd hid (by decide)
  · obtain ⟨p, hp, hid⟩ := h { id := "zone", indexed := true } (by simp [zonedHosts, hosts])
    simp only [hosts, namedHosts, List.mem_cons, List.not_mem_nil, or_false] at hp
    rcases hp with rfl | rfl <;> exact absurd hid (by decide)

/-- With the zone, the index on the names is created again. -/
theorem not_migratesAsCreated :
    ¬∀ db cascade, ∀ s s' : TableSchema, s.Extends s' →
      (s.registerTable db cascade false none).1 = .ok () →
        (s'.registerTable db cascade false none).1 = .ok () →
          MigratesAsCreated db cascade s s' := by
  intro h
  have hmigrates := h emptyServer false (hosts namedHosts zonedHosts.indexes) zonedHosts
    (extends_zonedHosts fun _ ↦ id) (by decide +kernel) (by decide +kernel)
  have hsucceeds := hmigrates.succeeds
  revert hsucceeds
  decide +kernel

end TableSchema

end Migration

end Gohan
