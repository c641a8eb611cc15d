import Gohan.Db.JoinDepth
import Gohan.Db.Migrate
import Gohan.Schema.CreationOrder

/-!
# Making the tables when the server starts

`InitDBConnWithSchemas` drops the tables of the schemas, if it is told to, and makes those that are
not there.  A table cannot be dropped while another one has a foreign key to it, nor made before
those that its own foreign keys refer to.  So the schemas are gone through twice, in the order of
`OrderedSchemas` to make tables and in the opposite one to drop them.

An error while a table is dropped is only logged, and the old table stays; an error while one is
made ends the process.  Where the schemas are in order neither happens (`started_of_starts`),
however often the server is started.
-/

set_option autoImplicit false

namespace Gohan

namespace Migration

open Loading (Manager Registered)
open Precedence (foldl_before foldlM_before)

/-! ## Schemas -/

/-- How an index type is written. -/
def indexTypeName : Loading.IndexType → String
  | .unique => "UNIQUE"
  | .fullText => "FULLTEXT"
  | .spatial => "SPATIAL"
  | .none => ""

/-- What the definitions of schemas say that is only used to make tables. -/
structure ColumnSource where
  column : NestedProperty → ColumnProperty
  own_eq : ∀ p, (column p).toProperty = p.own
  onParentDeleteCascade : Loading.SchemaObj → Bool

/-- A registered schema, with the fields that the definition of its table reads. -/
def ColumnSource.tableSchema (c : ColumnSource) (r : Registered) : TableSchema where
  schema := Join.toSchema r
  properties := r.obj.Properties.map c.column
  own_eq := by
    rw [List.map_map]
    exact List.map_congr_left fun p _ ↦ c.own_eq p
  indexes := r.obj.Indexes.map fun index ↦ ⟨index.name, index.columns, indexTypeName index.type⟩
  isAbstract := r.obj.isAbstract
  onParentDeleteCascade := c.onParentDeleteCascade r.obj

/-! ## The database -/

/-- The tables of a database, by their names. -/
abbrev Tables := GoMap Table

/-- The server, when a statement is about the table of this name: a foreign key has to refer to a
table that is there, or to this one. -/
def TableServer.amid (db : TableServer) (tables : Tables) (name : String) : TableServer :=
  { db with acceptsForeignKey := fun key ↦
      db.acceptsForeignKey key && (key.table == name || decide (key.table ∈ tables)) }

/-- Does another table have a foreign key to this one? -/
def Tables.refersTo (tables : Tables) (name : String) : Bool :=
  (GoMap.toList tables).any fun (other, table) ↦
    other != name && table.foreignKeys.any (·.table == name)

/-- `DropTable`: the table that is left is one that another one refers to. -/
def dropTable (db : TableServer) (s : TableSchema) (tables : Tables) : Go Unit × Tables :=
  if s.isAbstract then (.ok (), tables)
  else if tables.refersTo (s.getDbTableName db) then
    (.errorf "Cannot drop table '%s' referenced by a foreign key constraint"
      [.str (s.getDbTableName db)], tables)
  else (.ok (), tables.erase (s.getDbTableName db))

/-- `RegisterTable`, among other tables. -/
def registerTableAmid (db : TableServer) (s : TableSchema) (cascade migrate : Bool)
    (tables : Tables) : Go Unit × Tables :=
  let name := s.getDbTableName db
  let (result, table) := s.registerTable (db.amid tables name) cascade migrate (tables.lookup name)
  match table with
  | some table => (result, tables.insert name table)
  | none => (result, tables)

/-- `InitDBParams`. -/
structure InitDBParams where
  DropOnCreate : Bool
  Cascade : Bool
  AutoMigrate : Bool
  AllowEmpty : Bool

/-- The loop that drops the tables, from the last schema to the first.  Errors are logged. -/
def dropTables (db : TableServer) (schemas : List TableSchema) (tables : Tables) : Tables :=
  schemas.reverse.foldl
    (fun tables s ↦ if s.isAbstract then tables else (dropTable db s tables).2) tables

/-- The body of the loop that makes the tables.  An error is logged when it says that something is
there already, and ends the process otherwise. -/
def makeTable (db : TableServer) (alreadyExists : Fault → Bool) (params : InitDBParams)
    (tables : Tables) (s : TableSchema) : Go Tables :=
  if s.isAbstract then .ok tables
  else
    match registerTableAmid db s params.Cascade params.AutoMigrate tables with
    | (.ok (), tables) => .ok tables
    | (.error (.panic format args), _) => .panicf format args
    | (.error (.error format args), tables) =>
      if alreadyExists (.error format args) then .ok tables
      else .panicf "Error during registering table %q: %s" [.str (s.getDbTableName db), .str format]

/-- `InitDBConnWithSchemas`. -/
def initDBConnWithSchemas (db : TableServer) (alreadyExists : Fault → Bool)
    (schemas : List TableSchema) (params : InitDBParams) (tables : Tables) : Go Tables :=
  if schemas.isEmpty && !params.AllowEmpty then
    .errorf "No schemas in Manager. Did you remember to load them?"
  else
    schemas.foldlM (makeTable db alreadyExists params)
      (if params.DropOnCreate then dropTables db schemas tables else tables)

/-- The server is started again and again. -/
def starts (db : TableServer) (alreadyExists : Fault → Bool) (schemas : List TableSchema)
    (runs : List InitDBParams) (tables : Tables) : Go Tables :=
  runs.foldlM (fun tables params ↦ initDBConnWithSchemas db alreadyExists schemas params tables)
    tables

/-! ## Schemas that tables can be made for -/

section Starts

variable [RegexpEngine] {c : ColumnSource} {db : TableServer} {cascade : Bool} {m : Manager}
  {alreadyExists : Fault → Bool}

/-- The name of the table of a schema. -/
def ColumnSource.tableName (c : ColumnSource) (db : TableServer) (r : Registered) : String :=
  (c.tableSchema r).getDbTableName db

/-- The names of the tables of the schemas. -/
def ColumnSource.tableNames (c : ColumnSource) (db : TableServer) (m : Manager) : List String :=
  m.concreteSchemas.map (c.tableName db)

/-- The schemas are in order, no relation goes to one that has no table, and the server has nothing
against any of the tables in itself. -/
structure Creatable (c : ColumnSource) (db : TableServer) (cascade : Bool) (m : Manager) :
    Prop where
  schemas : db.schemas = Join.querySchemas m
  full : m.Full
  order : m.InOrder
  related : ∀ r ∈ m.concreteSchemas, ∀ t ∈ m.orderedSchemas, r.obj.RelatesTo t.obj.ID →
    t.obj.isAbstract = false
  names : (c.tableNames db m).Nodup
  handled : ∀ r ∈ m.concreteSchemas, (c.tableSchema r).handled
  allowed : ∀ r ∈ m.concreteSchemas, db.Allowed ((c.tableSchema r).fullTable db cascade)

/-- A table that refers to the table of a schema is the table of one that has a relation to it. -/
def Apart (c : ColumnSource) (db : TableServer) (m : Manager) (tables : Tables) : Prop :=
  ∀ name table, tables.lookup name = some table → ∀ key ∈ table.foreignKeys,
    ∀ t ∈ m.concreteSchemas, key.table = c.tableName db t →
      ∃ r ∈ m.concreteSchemas, name = c.tableName db r ∧ r.obj.RelatesTo t.obj.ID

/-- The tables of the schemas that are there are as they would be made. -/
def Fit (c : ColumnSource) (db : TableServer) (cascade : Bool) (m : Manager) (tables : Tables) :
    Prop :=
  ∀ r ∈ m.concreteSchemas, ∀ table, tables.lookup (c.tableName db r) = some table →
    table = (c.tableSchema r).fullTable db cascade

/-- Every schema has its table, and the other tables are what they were. -/
structure Started (c : ColumnSource) (db : TableServer) (cascade : Bool) (m : Manager)
    (before tables : Tables) : Prop where
  made : ∀ r ∈ m.concreteSchemas,
    tables.lookup (c.tableName db r) = some ((c.tableSchema r).fullTable db cascade)
  others : ∀ name ∉ c.tableNames db m, tables.lookup name = before.lookup name

/-- A foreign key of a table that is made refers to the table of a schema. -/
theorem Creatable.exists_of_foreignKey (h : Creatable c db cascade m) {r : Registered}
    (hr : r ∈ m.concreteSchemas) {key : ForeignKey}
    (hkey : key ∈ ((c.tableSchema r).fullTable db cascade).foreignKeys) :
    ∃ t ∈ m.concreteSchemas, key.table = c.tableName db t ∧ r.obj.RelatesTo t.obj.ID := by
  obtain ⟨p, hp, hkey⟩ := List.mem_filterMap.mp hkey
  obtain ⟨q, hq, rfl⟩ := List.mem_map.mp hp
  rw [TableSchema.foreignKey] at hkey
  split at hkey
  · cases hkey
  next hne =>
  obtain ⟨foreignSchema, hforeign, rfl⟩ := Option.map_eq_some_iff.mp hkey
  rw [h.schemas, Join.schemaByID_querySchemas h.full.keyed] at hforeign
  obtain ⟨t, ht, rfl⟩ := Option.map_eq_some_iff.mp hforeign
  have hID : t.obj.ID = (c.column q).relation := h.full.keyed _ t ht
  have hrelates : r.obj.RelatesTo t.obj.ID := by
    refine ⟨hID ▸ hne, q, hq, ?_⟩
    rw [hID, ← c.own_eq q]
  have hordered : t ∈ m.orderedSchemas := h.full.mem_orderedSchemas.mpr (hID ▸ ht)
  exact ⟨t, List.mem_filter.mpr ⟨hordered, by simp [h.related r hr t hordered hrelates]⟩, rfl,
    hrelates⟩

theorem Creatable.eq_of_tableName_eq (h : Creatable c db cascade m) {r t : Registered}
    (hr : r ∈ m.concreteSchemas) (ht : t ∈ m.concreteSchemas)
    (heq : c.tableName db r = c.tableName db t) : r = t :=
  List.inj_on_of_nodup_map h.names hr ht heq

/-! ## Dropping -/

omit [RegexpEngine] in
theorem Tables.refersTo_eq_true {tables : Tables} {name : String} :
    tables.refersTo name = true ↔ ∃ other table, tables.lookup other = some table ∧
      other ≠ name ∧ ∃ key ∈ table.foreignKeys, key.table = name := by
  rw [Tables.refersTo, List.any_eq_true]
  constructor
  · rintro ⟨⟨other, table⟩, hentry, hrefers⟩
    rw [Bool.and_eq_true, bne_iff_ne, List.any_eq_true] at hrefers
    obtain ⟨hne, key, hkey, heq⟩ := hrefers
    exact ⟨other, table, GoMap.mem_toList.mp hentry, hne, key, hkey, beq_iff_eq.mp heq⟩
  · rintro ⟨other, table, hlookup, hne, key, hkey, heq⟩
    refine ⟨(other, table), GoMap.mem_toList.mpr hlookup, ?_⟩
    rw [Bool.and_eq_true, bne_iff_ne, List.any_eq_true]
    exact ⟨hne, key, hkey, beq_iff_eq.mpr heq⟩

omit [RegexpEngine] in
theorem dropTables_eq (schemas : List TableSchema) (tables : Tables) :
    dropTables db schemas tables = (schemas.filter (!·.isAbstract)).reverse.foldl
      (fun tables s ↦ (dropTable db s tables).2) tables := by
  rw [dropTables, ← List.filter_reverse]
  generalize schemas.reverse = schemas
  induction schemas generalizing tables with
  | nil => rfl
  | cons s schemas ih =>
    rw [List.foldl_cons, ih]
    cases habstract : s.isAbstract with
    | true => rw [if_pos rfl, List.filter_cons_of_neg (by simp [habstract])]
    | false =>
      rw [if_neg Bool.false_ne_true, List.filter_cons_of_pos (by simp [habstract]), List.foldl_cons]

theorem ColumnSource.filter_tableSchemas (c : ColumnSource) (m : Manager) :
    (m.orderedSchemas.map c.tableSchema).filter (!·.isAbstract) =
      m.concreteSchemas.map c.tableSchema :=
  List.filter_map

/-- **No table is left**: when one is dropped, those that refer to it have been dropped before. -/
theorem Creatable.lookup_dropTables (h : Creatable c db cascade m) {tables : Tables}
    (hapart : Apart c db m tables) (name : String) :
    (dropTables db (m.orderedSchemas.map c.tableSchema) tables).lookup name =
      if name ∈ c.tableNames db m then none else tables.lookup name := by
  rw [dropTables_eq, c.filter_tableSchemas, ← List.map_reverse, List.foldl_map]
  have hdropped : ∀ name, (m.concreteSchemas.reverse.foldl
      (fun tables r ↦ (dropTable db (c.tableSchema r) tables).2) tables).lookup name =
        if name ∈ m.concreteSchemas.reverse.map (c.tableName db) then none
        else tables.lookup name := by
    refine foldl_before (P := fun done (tables' : Tables) ↦ ∀ name, tables'.lookup name =
      if name ∈ done.map (c.tableName db) then none else tables.lookup name)
      (fun name ↦ (if_neg List.not_mem_nil).symm) ?_
    intro done r later tables' hl hdone name
    have hsplit : m.concreteSchemas = later.reverse ++ r :: done.reverse := by
      rw [← List.reverse_reverse m.concreteSchemas, ← hl, List.reverse_append, List.reverse_cons,
        List.append_assoc, List.singleton_append]
    have hr : r ∈ m.concreteSchemas := by
      rw [hsplit]
      exact List.mem_append_right _ List.mem_cons_self
    have hconcrete : (c.tableSchema r).isAbstract = false := m.isAbstract_of_mem hr
    have hfree : tables'.refersTo (c.tableName db r) = false := by
      rw [← Bool.not_eq_true, Tables.refersTo_eq_true]
      rintro ⟨other, table, hlookup, hne, key, hkey, heq⟩
      rw [hdone] at hlookup
      split at hlookup
      · cases hlookup
      next hstays =>
      obtain ⟨t, ht, rfl, hrelates⟩ := hapart other table hlookup key hkey r hr heq
      have hafter : t ∈ done.reverse := by
        have horder := h.order
        rw [Manager.InOrder, hsplit] at horder
        rw [hsplit] at ht
        exact horder.mem_after ht hrelates
      exact hstays (List.mem_map_of_mem (List.mem_reverse.mp hafter))
    have hdrop : (dropTable db (c.tableSchema r) tables').2 =
        tables'.erase (c.tableName db r) := by
      rw [dropTable, hconcrete, if_neg Bool.false_ne_true]
      show (if tables'.refersTo (c.tableName db r) = true then _ else _ : Go Unit × Tables).2 = _
      rw [hfree, if_neg Bool.false_ne_true]
      rfl
    rw [hdrop, List.map_append, List.map_singleton]
    by_cases hname : name = c.tableName db r
    · rw [hname, AList.lookup_erase,
        if_pos (List.mem_append_right _ (List.mem_singleton.mpr rfl))]
    · rw [AList.lookup_erase_ne hname, hdone]
      refine if_congr ?_ rfl rfl
      rw [List.mem_append, List.mem_singleton, or_iff_left hname]
  rw [hdropped]
  refine if_congr ?_ rfl rfl
  rw [ColumnSource.tableNames, List.map_reverse, List.mem_reverse]

/-! ## Making -/

omit [RegexpEngine] in
theorem foldlM_makeTable (params : InitDBParams) (schemas : List TableSchema) (tables : Tables) :
    schemas.foldlM (makeTable db alreadyExists params) tables =
      (schemas.filter (!·.isAbstract)).foldlM (makeTable db alreadyExists params) tables := by
  induction schemas generalizing tables with
  | nil => rfl
  | cons s schemas ih =>
    cases habstract : s.isAbstract with
    | true =>
      have hskip : makeTable db alreadyExists params tables s = .ok tables := by
        rw [makeTable, habstract, if_pos rfl]
      rw [List.foldlM_cons, hskip, List.filter_cons_of_neg (by simp [habstract])]
      exact ih tables
    | false =>
      rw [List.filter_cons_of_pos (by simp [habstract]), List.foldlM_cons, List.foldlM_cons]
      exact bind_congr fun tables' ↦ ih tables'

omit [RegexpEngine] in
theorem fullTable_columns {s : TableSchema} :
    s.included ((s.fullTable db cascade).columns.map Column.name) = [] := by
  rw [TableSchema.included, List.filter_eq_nil_iff]
  intro p hp
  rw [Bool.not_eq_true', Bool.not_eq_false, List.contains_iff_mem]
  refine List.mem_map.mpr ⟨p.column, List.mem_append_left _ (List.mem_map_of_mem hp), rfl⟩

omit [RegexpEngine] in
theorem registerTableAmid_eq {s : TableSchema} {migrate : Bool} {tables : Tables} {table : Table}
    (h : s.registerTable (db.amid tables (s.getDbTableName db)) cascade migrate
      (tables.lookup (s.getDbTableName db)) = (.ok (), some table)) :
    registerTableAmid db s cascade migrate tables =
      (.ok (), tables.insert (s.getDbTableName db) table) := by
  rw [registerTableAmid]
  dsimp only
  rw [h]

/-- The step for one schema: its table is made, or there already. -/
theorem Creatable.makeTable_eq (h : Creatable c db cascade m) {r : Registered}
    (hr : r ∈ m.concreteSchemas) {params : InitDBParams} (hcascade : params.Cascade = cascade)
    {tables : Tables}
    (hfit : ∀ table, tables.lookup (c.tableName db r) = some table →
      table = (c.tableSchema r).fullTable db cascade)
    (htargets : ∀ t ∈ m.concreteSchemas, r.obj.RelatesTo t.obj.ID → c.tableName db t ∈ tables) :
    makeTable db alreadyExists params tables (c.tableSchema r) =
      .ok (tables.insert (c.tableName db r) ((c.tableSchema r).fullTable db cascade)) := by
  have hconcrete : (c.tableSchema r).isAbstract = false := m.isAbstract_of_mem hr
  have hregister : (c.tableSchema r).registerTable (db.amid tables (c.tableName db r))
      params.Cascade params.AutoMigrate (tables.lookup (c.tableName db r)) =
        (.ok (), some ((c.tableSchema r).fullTable db cascade)) := by
    rw [hcascade]
    cases hthere : tables.lookup (c.tableName db r) with
    | none =>
      have hallowed := h.allowed r hr
      have hamid : (db.amid tables (c.tableName db r)).Allowed
          ((c.tableSchema r).fullTable db cascade) := by
        refine { hallowed with acceptsForeignKeys := fun key hkey ↦ ?_ }
        obtain ⟨t, ht, htable, hrelates⟩ := h.exists_of_foreignKey hr hkey
        show (db.acceptsForeignKey key && _) = true
        rw [hallowed.acceptsForeignKeys key hkey, htable, Bool.true_and, Bool.or_eq_true]
        exact .inr (decide_eq_true (htargets t ht hrelates))
      exact TableSchema.registerTable_none_eq hconcrete (h.handled r hr) hamid
    | some table =>
      obtain rfl := hfit table hthere
      exact TableSchema.registerTable_of_included_nil hconcrete fullTable_columns
  rw [makeTable, hconcrete, if_neg Bool.false_ne_true, registerTableAmid_eq hregister]
  rfl

/-- **Every table is made**: when it is its turn, those that it refers to are there. -/
theorem Creatable.foldlM_makeTable (h : Creatable c db cascade m) {params : InitDBParams}
    (hcascade : params.Cascade = cascade) {tables : Tables} (hfit : Fit c db cascade m tables) :
    ∃ tables', (m.orderedSchemas.map c.tableSchema).foldlM (makeTable db alreadyExists params)
      tables = .ok tables' ∧ Started c db cascade m tables tables' := by
  rw [Migration.foldlM_makeTable, c.filter_tableSchemas, List.foldlM_map]
  suffices hloop : ∃ tables', m.concreteSchemas.foldlM
      (fun tables r ↦ makeTable db alreadyExists params tables (c.tableSchema r)) tables =
        .ok tables' ∧ (∀ r ∈ m.concreteSchemas, tables'.lookup (c.tableName db r) =
          some ((c.tableSchema r).fullTable db cascade)) ∧
        ∀ name ∉ m.concreteSchemas.map (c.tableName db),
          tables'.lookup name = tables.lookup name by
    obtain ⟨tables', hok, hmade, hothers⟩ := hloop
    exact ⟨tables', hok, hmade, hothers⟩
  refine foldlM_before (P := fun done (tables' : Tables) ↦
    (∀ r ∈ done, tables'.lookup (c.tableName db r) =
      some ((c.tableSchema r).fullTable db cascade)) ∧
    ∀ name ∉ done.map (c.tableName db), tables'.lookup name = tables.lookup name)
    ⟨List.forall_mem_nil _, fun _ _ ↦ rfl⟩ ?_
  rintro done r later tables' hl ⟨hmade, hothers⟩
  have hr : r ∈ m.concreteSchemas := by
    rw [← hl]
    exact List.mem_append_right _ List.mem_cons_self
  have hnew : c.tableName db r ∉ done.map (c.tableName db) := by
    have hnames := h.names
    rw [ColumnSource.tableNames, ← hl, List.map_append, List.map_cons] at hnames
    exact fun hmem ↦ List.disjoint_of_nodup_append hnames hmem List.mem_cons_self
  have htargets : ∀ t ∈ m.concreteSchemas, r.obj.RelatesTo t.obj.ID →
      c.tableName db t ∈ tables' := by
    intro t ht hrelates
    have horder := h.order
    rw [Manager.InOrder, ← hl] at horder
    have hbefore : t ∈ done := horder.mem_before (hl ▸ ht) hrelates
    rw [← AList.lookup_isSome, hmade t hbefore, Option.isSome_some]
  refine ⟨_, h.makeTable_eq hr hcascade (fun table htable ↦ ?_) htargets, ?_, ?_⟩
  · rw [hothers _ hnew] at htable
    exact hfit r hr table htable
  · intro t ht
    rcases List.mem_append.mp ht with ht | ht
    · have hne : c.tableName db t ≠ c.tableName db r :=
        fun heq ↦ hnew (heq ▸ List.mem_map_of_mem ht)
      rw [AList.lookup_insert_ne hne, hmade t ht]
    · rw [List.mem_singleton.mp ht, AList.lookup_insert]
  · intro name hname
    rw [List.map_append, List.mem_append, not_or] at hname
    have hne : name ≠ c.tableName db r := fun heq ↦ hname.2 (by simp [heq])
    rw [AList.lookup_insert_ne hne, hothers name hname.1]

/-! ## Starting -/

/-- **One start.** -/
theorem Creatable.started_of_init (h : Creatable c db cascade m) (alreadyExists : Fault → Bool)
    {params : InitDBParams} (hcascade : params.Cascade = cascade)
    (hany : params.AllowEmpty = true ∨ m.orderedSchemas ≠ []) {before tables : Tables}
    (hapart : Apart c db m tables) (hfit : params.DropOnCreate = true ∨ Fit c db cascade m tables)
    (hothers : ∀ name ∉ c.tableNames db m, tables.lookup name = before.lookup name) :
    ∃ tables', initDBConnWithSchemas db alreadyExists (m.orderedSchemas.map c.tableSchema) params
      tables = .ok tables' ∧ Started c db cascade m before tables' := by
  rw [initDBConnWithSchemas, if_neg]
  · cases hdrop : params.DropOnCreate with
    | true =>
      have hnone : Fit c db cascade m
          (dropTables db (m.orderedSchemas.map c.tableSchema) tables) := by
        intro r hr table htable
        have hmem : c.tableName db r ∈ c.tableNames db m := List.mem_map_of_mem hr
        rw [h.lookup_dropTables hapart, if_pos hmem] at htable
        cases htable
      obtain ⟨tables', hok, hmade, hkept⟩ := h.foldlM_makeTable hcascade hnone
      refine ⟨tables', hok, hmade, fun name hname ↦ ?_⟩
      rw [hkept name hname, h.lookup_dropTables hapart, if_neg hname, hothers name hname]
    | false =>
      obtain ⟨tables', hok, hmade, hkept⟩ := h.foldlM_makeTable hcascade
        (hfit.resolve_left (by simp [hdrop]))
      exact ⟨tables', hok, hmade, fun name hname ↦ (hkept name hname).trans (hothers name hname)⟩
  · rw [Bool.and_eq_true, List.isEmpty_iff, List.map_eq_nil_iff, Bool.not_eq_true']
    rintro ⟨hnil, hempty⟩
    rcases hany with hany | hany
    · rw [hempty] at hany
      cases hany
    · exact hany hnil

/-- What a start has left is fit for another one. -/
theorem Started.apart (h : Creatable c db cascade m) {before tables : Tables}
    (hbefore : Apart c db m before) (hstarted : Started c db cascade m before tables) :
    Apart c db m tables := by
  intro name table hlookup key hkey t ht heq
  by_cases hname : name ∈ c.tableNames db m
  · obtain ⟨r, hr, rfl⟩ := List.mem_map.mp hname
    obtain rfl := Option.some.inj ((hstarted.made r hr).symm.trans hlookup)
    obtain ⟨t', ht', htable, hrelates⟩ := h.exists_of_foreignKey hr hkey
    obtain rfl := h.eq_of_tableName_eq ht' ht (htable.symm.trans heq)
    exact ⟨r, hr, rfl, hrelates⟩
  · rw [hstarted.others name hname] at hlookup
    exact hbefore name table hlookup key hkey t ht heq

theorem Started.fit {before tables : Tables} (h : Started c db cascade m before tables) :
    Fit c db cascade m tables := fun r hr _ htable ↦
  Option.some.inj (htable.symm.trans (h.made r hr))

/-- **However often the server is started**, with the tables dropped or not: where the schemas are
in order and no other table refers to theirs, every start succeeds, and in the end every schema has
the table that its definition says, and the other tables are what they were.  The first start drops
the tables, or finds none that its schema would not have made. -/
theorem started_of_starts (h : Creatable c db cascade m) (alreadyExists : Fault → Bool)
    (first : InitDBParams) (rest : List InitDBParams) (tables : Tables)
    (hruns : ∀ params ∈ first :: rest,
      params.Cascade = cascade ∧ (params.AllowEmpty = true ∨ m.orderedSchemas ≠ []))
    (hapart : Apart c db m tables)
    (hfit : first.DropOnCreate = true ∨ Fit c db cascade m tables) :
    ∃ tables', starts db alreadyExists (m.orderedSchemas.map c.tableSchema) (first :: rest)
      tables = .ok tables' ∧ Started c db cascade m tables tables' := by
  obtain ⟨hfirst, hrest⟩ := List.forall_mem_cons.mp hruns
  obtain ⟨tables₁, hok, hstarted⟩ :=
    h.started_of_init alreadyExists hfirst.1 hfirst.2 hapart hfit fun _ _ ↦ rfl
  rw [starts, List.foldlM_cons, hok]
  refine foldlM_before (P := fun _ tables' ↦ Started c db cascade m tables tables') hstarted ?_
  intro done params later tables' hl hstarted
  obtain ⟨hcascade, hany⟩ := hrest params (hl ▸ List.mem_append_right _ List.mem_cons_self)
  exact h.started_of_init alreadyExists hcascade hany (hstarted.apart h hapart)
    (.inr hstarted.fit) hstarted.others

/-- Columns that are nothing but what queries know of them. -/
def plainColumns : ColumnSource where
  column p := { toProperty := p.own }
  own_eq _ := rfl
  onParentDeleteCascade _ := false

/-- A host is in a zone. -/
def hostSchema : Loading.SchemaObj :=
  { Loading.bareSchema "host" with
    Properties := [.mk { id := "id" } [] none,
      .mk { id := "zone_id", relation := "zone" } [] none] }

/-- A zone. -/
def zoneSchema : Loading.SchemaObj :=
  { Loading.bareSchema "zone" with Properties := [.mk { id := "id" } [] none] }

omit [RegexpEngine] in
/-- The tables are made at the first start and dropped and made again at the second, and the third
leaves them. -/
theorem started_of_starts_hosts : letI := Re2.engine
    let m : Manager := Machine.final Manager.step {} [.schema zoneSchema, .schema hostSchema]
    let db : TableServer := ⟨Join.querySchemas m, true, fun _ ↦ true, fun _ ↦ true, fun _ ↦ true⟩
    m.concreteSchemas.length = 2 ∧ ∃ tables, starts db (fun _ ↦ false)
      (m.orderedSchemas.map plainColumns.tableSchema)
      [⟨false, false, true, false⟩, ⟨true, false, true, false⟩, ⟨false, false, false, false⟩] ∅ =
        .ok tables ∧ Started plainColumns db false m ∅ tables := by
  let _ := Re2.engine
  intro m db
  have hallowed : (m.concreteSchemas.all fun r ↦
      db.allows ((plainColumns.tableSchema r).fullTable db false)) = true := by decide +kernel
  have hcreatable : Creatable plainColumns db false m :=
    { schemas := rfl
      full := Manager.Full.empty.final _
      order := by decide +kernel
      related := by decide +kernel
      names := by decide +kernel
      handled := by
        unfold TableSchema.handled
        decide +kernel
      allowed := fun r hr ↦ TableServer.allows_iff.mp (List.all_eq_true.mp hallowed r hr) }
  refine ⟨by decide +kernel, started_of_starts hcreatable (fun _ ↦ false) _ _ ∅ ?_ ?_ (.inr ?_)⟩
  · decide +kernel
  · intro name table h
    cases h
  · intro r hr table h
    cases h

end Starts

end Migration

end Gohan
