import Gohan.Db.Aliases

/-!
# What is read from a join

A row of a join has the row of the table and, for each alias, the row that the alias stands for
(`Placed`).  It is scanned by the names of its columns and read by the names of the tree.

* `decodeTree_scan` — with distinct names what is read is what `DB.decode` makes of the row and of
  the rows it refers to: names and joins do not show.
* `roundTrips_iff` — the names are distinct, and every property is read back with its own value at
  every level, exactly when the names of the schemas are `Distinct`.
-/

set_option autoImplicit false

namespace Gohan.Join

/-! ## Joining by identifiers -/

/-- A value refers to one row at most: the identifiers are primary keys. -/
def Keyed (D : DB) (db : Database) : Prop :=
  ∀ name value, ((db name).rows.filter fun row ↦
    decide (D.server.eq value (row.get "id") = .tt)).length ≤ 1

section Scopes

variable {D : DB} {db : Database} {clause : JoinClause} {clauses : List JoinClause}
  {scope : Scope} {tableName name : String} {row : Dict} {tree : Columns} {skipNil : Bool}

@[simp] theorem Scope.row_insert_self (scope : Scope) (name : String) (row : Dict) :
    Scope.row (scope.insert name row) name = row := by
  rw [Scope.row, AList.lookup_insert, Option.getD_some]

theorem Scope.row_insert_of_ne (scope : Scope) (row : Dict) (h : name ≠ tableName) :
    Scope.row (scope.insert tableName row) name = scope.row name := by
  rw [Scope.row, AList.lookup_insert_ne h, Scope.row]

theorem Scope.row_singleton (tableName : String) (row : Dict) :
    Scope.row (AList.singleton tableName row) tableName = row := by
  rw [← AList.insert_empty, Scope.row, AList.lookup_insert, Option.getD_some]

/-- A join with the one row that matches, or with NULLs. -/
def enterRow (D : DB) (db : Database) (scope : Scope) (clause : JoinClause) : Scope :=
  scope.insert clause.aliasName (relatedRow D.server.toSqlEngine (db clause.tableName)
    ((scope.row clause.onTable).get clause.onColumn))

/-- The rows that are joined to a row, one clause after the other. -/
def enterRows (D : DB) (db : Database) (clauses : List JoinClause) (scope : Scope) : Scope :=
  clauses.foldl (enterRow D db) scope

theorem leftJoin_of_keyed (h : Keyed D db) (clause : JoinClause) (scope : Scope) :
    leftJoin D db clause scope = [enterRow D db scope clause] := by
  have hlength := h clause.tableName ((scope.row clause.onTable).get clause.onColumn)
  rw [leftJoin, matching, enterRow, relatedRow, ← List.head?_filter]
  generalize List.filter _ (db clause.tableName).rows = rows at hlength ⊢
  match rows, hlength with
  | [], _ => rfl
  | [row], _ => rfl

/-- A row of the table makes one row of the result. -/
theorem leftJoins_of_keyed (h : Keyed D db) (clauses : List JoinClause) (scope : Scope) :
    leftJoins D db clauses scope = [enterRows D db clauses scope] := by
  induction clauses generalizing scope with
  | nil => rfl
  | cons clause clauses ih =>
    rw [leftJoins, leftJoin_of_keyed h, List.flatMap_singleton, ih]
    rfl

theorem row_enterRows_of_notMem (h : name ∉ clauses.map (·.aliasName)) :
    (enterRows D db clauses scope).row name = scope.row name := by
  induction clauses generalizing scope with
  | nil => rfl
  | cons clause clauses ih =>
    rw [List.map_cons, List.mem_cons, not_or] at h
    show (enterRows D db clauses (enterRow D db scope clause)).row name = _
    rw [ih h.2, enterRow, Scope.row_insert_of_ne _ _ h.1]

/-- The aliases of a tree stand for the rows that its properties refer to. -/
def Placed (D : DB) (db : Database) (scope : Scope) (tableName : String) (row : Dict) :
    Columns → Prop
  | .done => True
  | .plain _ _ rest => Placed D db scope tableName row rest
  | .joined property related inner _ rest =>
    let aliasTableName := makeAliasTableName tableName property
    let joined := relatedRow D.server.toSqlEngine (db (related.getDbTableName D.legacy))
      (row.get property.id)
    scope.row aliasTableName = joined ∧ Placed D db scope aliasTableName joined inner ∧
      Placed D db scope tableName row rest

theorem Placed.congr {scope' : Scope} (h : Placed D db scope tableName row tree)
    (hrow : ∀ name ∈ (joinClauses D.legacy tableName tree).map (·.aliasName),
      scope'.row name = scope.row name) : Placed D db scope' tableName row tree := by
  induction tree generalizing tableName row with
  | done => trivial
  | plain property included rest ih => exact ih h hrow
  | joined property related inner included rest ihinner ihrest =>
    obtain ⟨halias, hinner, hrest⟩ := h
    simp only [joinClauses, List.cons_append, List.map_cons, List.map_append, List.mem_cons,
      List.mem_append, or_imp, forall_and] at hrow
    exact ⟨(hrow.1 _ rfl).trans halias, ihinner hinner hrow.2.1, ihrest hrest hrow.2.2⟩

/-- **The joins of a tree put its rows in place**, if no two tables have one name. -/
theorem placed_enterRows
    (hnodup : ((joinClauses D.legacy tableName tree).map (·.aliasName)).Nodup)
    (hrow : scope.row tableName = row) :
    Placed D db (enterRows D db (joinClauses D.legacy tableName tree) scope) tableName row
      tree := by
  induction tree generalizing tableName row scope with
  | done => trivial
  | plain property included rest ih => exact ih hnodup hrow
  | joined property related inner included rest ihinner ihrest =>
    have hroot := notMem_aliasName D.legacy tableName (.joined property related inner included rest)
    simp only [joinClauses, List.cons_append, List.map_cons, List.map_append, List.nodup_cons,
      List.nodup_append', List.mem_cons, List.mem_append, not_or] at hnodup hroot
    obtain ⟨⟨haliasInner, haliasRest⟩, hinner, hrest, hdisjoint⟩ := hnodup
    simp only [joinClauses, List.cons_append, enterRows, List.foldl_cons, List.foldl_append]
    set aliasTableName := makeAliasTableName tableName property
    set joined := relatedRow D.server.toSqlEngine (db (related.getDbTableName D.legacy))
      (row.get property.id)
    -- the three stages: the table itself, what is joined to it, and the other properties
    have hfirst : (enterRow D db scope ⟨related.getDbTableName D.legacy, aliasTableName, tableName,
        property.id⟩).row aliasTableName = joined := by
      rw [enterRow, Scope.row_insert_self, hrow]
    have hfirstRow : (enterRow D db scope ⟨related.getDbTableName D.legacy, aliasTableName,
        tableName, property.id⟩).row tableName = row := by
      rw [enterRow, Scope.row_insert_of_ne _ _ hroot.1, hrow]
    generalize enterRow D db scope _ = first at hfirst hfirstRow ⊢
    have hsecond := ihinner hinner hfirst
    refine ⟨?_, ?_, ?_⟩
    · exact (row_enterRows_of_notMem haliasRest).trans
        ((row_enterRows_of_notMem haliasInner).trans hfirst)
    · exact hsecond.congr fun name hname ↦ row_enterRows_of_notMem (hdisjoint hname)
    · exact ihrest hrest ((row_enterRows_of_notMem hroot.2.1).trans hfirstRow)

/-! ## Scanning -/

/-- A column is scanned under its name, and a column that is not selected is NULL. -/
theorem get_scan (hnodup : (words columnNaming tree).Nodup) {c : SelectColumn × Bool}
    (hc : c ∈ allColumns tableName tree) :
    (scan (selectColumns tableName tree) scope).get c.1.name =
      if c.2 then (scope.row c.1.table).get c.1.column else .nil := by
  have hnames : ((allColumns tableName tree).map (·.1.name)).Nodup :=
    nodup_name_allColumns.mpr hnodup
  have hinj := List.inj_on_of_nodup_map hnames
  have hselected (c' : SelectColumn) (h : c' ∈ selectColumns tableName tree) :
      (c', true) ∈ allColumns tableName tree := by
    rw [selectColumns_eq, List.mem_map] at h
    obtain ⟨⟨_, included⟩, hmem, rfl⟩ := h
    obtain ⟨hmem, rfl⟩ := List.mem_filter.mp hmem
    exact hmem
  -- whatever is found under the name comes from this column
  have hfound (value : Value)
      (h : (scan (selectColumns tableName tree) scope).lookup c.1.name = some value) :
      c.2 = true ∧ value = (scope.row c.1.table).get c.1.column := by
    obtain ⟨c', hc', heq⟩ := List.mem_map.mp (GoMap.mem_of_lookup_ofList h)
    obtain ⟨hname, rfl⟩ := Prod.mk.inj heq
    obtain rfl : (c', true) = c := hinj (hselected c' hc') hc hname
    exact ⟨rfl, rfl⟩
  rw [GoMap.get]
  cases hlookup : (scan (selectColumns tableName tree) scope).lookup c.1.name with
  | some value =>
    obtain ⟨hincluded, rfl⟩ := hfound value hlookup
    rw [if_pos hincluded]
    rfl
  | none =>
    rw [if_neg]
    · rfl
    · intro hincluded
      have hmem : c.1 ∈ selectColumns tableName tree := by
        rw [selectColumns_eq]
        exact List.mem_map.mpr ⟨c, List.mem_filter.mpr ⟨hc, hincluded⟩, rfl⟩
      have hin := GoMap.mem_ofList (List.mem_map_of_mem (f := fun c : SelectColumn ↦
        (c.name, (scope.row c.table).get c.column)) hmem)
      rw [AList.lookup_eq_none] at hlookup
      exact hlookup hin

/-- Reading by names is reading from the rows in their places. -/
theorem decodeTree_eq {data : Dict}
    (hdata : ∀ c ∈ allColumns tableName tree, data.get c.1.name =
      if c.2 then (scope.row c.1.table).get c.1.column else .nil)
    (hrow : scope.row tableName = row) (hplaced : Placed D db scope tableName row tree)
    (resourceData : Dict) : decodeTree skipNil data tableName tree resourceData =
      D.decode db skipNil tree row resourceData := by
  induction tree generalizing tableName row resourceData with
  | done => rfl
  | plain property included rest ih =>
    simp only [allColumns, List.forall_mem_cons, hrow] at hdata
    rw [decodeTree, DB.decode, hdata.1, ih hdata.2 hrow hplaced]
    rfl
  | joined property related inner included rest ihinner ihrest =>
    obtain ⟨halias, hinner, hrest⟩ := hplaced
    simp only [allColumns, List.forall_mem_append, List.forall_mem_cons, hrow] at hdata
    rw [decodeTree, DB.decode, hdata.2.1, ihinner hdata.1 halias hinner,
      ihrest hdata.2.2 hrow hrest]
    rfl

/-- **Names and joins do not show**, if the names are distinct. -/
theorem decodeTree_scan (hcolumns : (words columnNaming tree).Nodup)
    (htables : (words tableNaming tree).Nodup) (row : Dict) :
    decodeTree skipNil (scan (selectColumns tableName tree)
      (enterRows D db (joinClauses D.legacy tableName tree) (AList.singleton tableName row)))
        tableName tree ∅ = D.decode db skipNil tree row ∅ := by
  have hroot := Scope.row_singleton tableName row
  refine decodeTree_eq (fun c hc ↦ get_scan hcolumns hc) ?_ ?_ ∅
  · exact (row_enterRows_of_notMem (notMem_aliasName _ _ _)).trans hroot
  · exact placed_enterRows (nodup_aliasName.mpr htables) hroot

end Scopes

/-! ## What is to be read -/

/-- A value as it is shown under the name of its property, if it is. -/
def shown (skipNil : Bool) (property : Property) (value : Value) : Option Value :=
  if value ≠ .nil ∨ (property.nullable = true ∧ skipNil = false) then some value else none

/-- The data of a related resource, as they are shown under the name of the relation. -/
def shownRelated (skipNil : Bool) (relatedData : Dict) : Option Value :=
  if relatedData ≠ ∅ ∨ skipNil = false then some (.map relatedData.toList) else none

/-- **The data of a resource** have each property with the value of the row, and under each relation
the data of the related row. -/
inductive Reconstructs (D : DB) (db : Database) (fields : Option (List String)) :
    Schema → Dict → Dict → Prop
  | mk {s : Schema} {row data : Dict} (relatedData : Property → Dict)
      (own : ∀ p ∈ s.properties, data.lookup p.id =
        shown fields.isSome p (if includes fields s p then row.get p.id else .nil))
      (related : ∀ p ∈ s.properties, p.relationProperty ≠ "" →
        data.lookup p.relationProperty = shownRelated fields.isSome (relatedData p))
      (inner : ∀ p ∈ s.properties, p.relationProperty ≠ "" →
        ∀ t, schemaByID D.schemas p.relation = some t → Reconstructs D db fields t
          (relatedRow D.server.toSqlEngine (db (t.getDbTableName D.legacy)) (row.get p.id))
          (relatedData p)) :
      Reconstructs D db fields s row data

/-- The names under which a property is shown. -/
def shownNames (property : Property) : List String :=
  property.id :: if property.relationProperty ≠ "" then [property.relationProperty] else []

section Decoding

variable {D : DB} {db : Database} {fields : Option (List String)} {skipNil : Bool} {s : Schema}
  {row data : Dict} {properties : List Property} {relatedTree : Schema → Go Columns}
  {tree : Columns} {name : String} {depth : ℕ}

theorem decodeColumn_eq (skipNil : Bool) (property : Property) (included : Bool)
    (row data : Dict) : decodeColumn skipNil property included row data =
      enterValue skipNil property (if included then row.get property.id else .nil) data := rfl

theorem lookup_enterValue_of_ne {property : Property} {value : Value} (h : name ≠ property.id) :
    (enterValue skipNil property value data).lookup name = data.lookup name := by
  rw [enterValue]
  split
  · exact AList.lookup_insert_ne h
  · rfl

theorem lookup_enterValue {property : Property} {value : Value}
    (h : data.lookup property.id = none) :
    (enterValue skipNil property value data).lookup property.id = shown skipNil property value := by
  rw [enterValue, shown]
  split
  · exact AList.lookup_insert _
  · exact h

theorem lookup_enterRelated_of_ne {property : Property} {relatedData : Dict}
    (h : name ≠ property.relationProperty) :
    (enterRelated skipNil property relatedData data).lookup name = data.lookup name := by
  rw [enterRelated]
  split
  · exact AList.lookup_insert_ne h
  · rfl

theorem lookup_enterRelated {property : Property} {relatedData : Dict}
    (h : data.lookup property.relationProperty = none) :
    (enterRelated skipNil property relatedData data).lookup property.relationProperty =
      shownRelated skipNil relatedData := by
  rw [enterRelated, shownRelated]
  split
  · exact AList.lookup_insert _
  · exact h

/-- The data that are read for a property that is joined. -/
def joinedData (D : DB) (db : Database) (skipNil : Bool) (relatedTree : Schema → Go Columns)
    (row : Dict) (property : Property) : Dict :=
  match schemaByID D.schemas property.relation with
  | none => ∅
  | some t => D.decode db skipNil ((relatedTree t).toOption.getD .done)
      (relatedRow D.server.toSqlEngine (db (t.getDbTableName D.legacy)) (row.get property.id)) ∅

/-- One property is decoded: what it leaves to the others, and what it shows. -/
structure DecodesOne (D : DB) (db : Database) (fields : Option (List String)) (skipNil : Bool)
    (relatedTree : Schema → Go Columns) (s : Schema) (row : Dict) (property : Property)
    (data data' : Dict) : Prop where
  frame : ∀ name ∉ shownNames property, data'.lookup name = data.lookup name
  own : (∀ name ∈ shownNames property, data.lookup name = none) → (shownNames property).Nodup →
    data'.lookup property.id =
      shown skipNil property (if includes fields s property then row.get property.id else .nil)
  related : (∀ name ∈ shownNames property, data.lookup name = none) →
    (shownNames property).Nodup → property.relationProperty ≠ "" →
      data'.lookup property.relationProperty =
        shownRelated skipNil (joinedData D db skipNil relatedTree row property)

theorem exists_decodesOne (db : Database) (skipNil : Bool) (row data : Dict) {property : Property}
    (h : Gohan.columnsOf relatedTree D.schemas fields true s (property :: properties) =
      .ok tree) :
    ∃ rest data', Gohan.columnsOf relatedTree D.schemas fields true s properties = .ok rest ∧
      D.decode db skipNil tree row data = D.decode db skipNil rest row data' ∧
      DecodesOne D db fields skipNil relatedTree s row property data data' := by
  obtain ⟨rest, hrest, ⟨hplain, rfl⟩ | ⟨⟨hrel, -⟩, t, inner, ht, hinner, rfl⟩⟩ :=
    columnsOf_cons_eq_ok.mp h
  · have hrel : property.relationProperty = "" := by simpa using hplain
    refine ⟨rest, decodeColumn skipNil property (includes fields s property) row data, hrest, rfl,
      ?_⟩
    rw [decodeColumn_eq]
    have hnames : shownNames property = [property.id] := by simp [shownNames, hrel]
    constructor
    · intro name hname
      exact lookup_enterValue_of_ne (by simpa [hnames] using hname)
    · intro hnone _
      exact lookup_enterValue (hnone _ (by simp [hnames]))
    · exact fun _ _ hne ↦ absurd hrel hne
  · refine ⟨rest, enterRelated skipNil property
      (joinedData D db skipNil relatedTree row property)
      (decodeColumn skipNil property (includes fields s property) row data), hrest, ?_, ?_⟩
    · simp only [joinedData, ht, hinner]
      rfl
    have hnames : shownNames property = [property.id, property.relationProperty] := by
      simp [shownNames, hrel]
    rw [decodeColumn_eq]
    constructor
    · intro name hname
      rw [hnames, List.mem_cons, List.mem_singleton, not_or] at hname
      rw [lookup_enterRelated_of_ne hname.2, lookup_enterValue_of_ne hname.1]
    · intro hnone hnodup
      have hne : property.id ≠ property.relationProperty := by simpa [hnames] using hnodup
      rw [lookup_enterRelated_of_ne hne]
      exact lookup_enterValue (hnone _ (by simp [hnames]))
    · intro hnone hnodup _
      have hne : property.id ≠ property.relationProperty := by simpa [hnames] using hnodup
      refine lookup_enterRelated ?_
      rw [lookup_enterValue_of_ne hne.symm]
      exact hnone _ (by simp [hnames])

/-- All the properties of a schema are decoded, if they are shown under distinct names. -/
theorem decode_columnsOf (db : Database) (skipNil : Bool) (row : Dict)
    (h : Gohan.columnsOf relatedTree D.schemas fields true s properties = .ok tree)
    (hnames : (properties.flatMap shownNames).Nodup)
    (hfresh : ∀ name ∈ properties.flatMap shownNames, data.lookup name = none) :
    (∀ name ∉ properties.flatMap shownNames,
      (D.decode db skipNil tree row data).lookup name = data.lookup name) ∧
    ∀ p ∈ properties, (D.decode db skipNil tree row data).lookup p.id =
        shown skipNil p (if includes fields s p then row.get p.id else .nil) ∧
      (p.relationProperty ≠ "" → (D.decode db skipNil tree row data).lookup p.relationProperty =
        shownRelated skipNil (joinedData D db skipNil relatedTree row p)) := by
  induction properties generalizing tree data with
  | nil => cases h; exact ⟨fun _ _ ↦ rfl, fun _ hp ↦ absurd hp List.not_mem_nil⟩
  | cons property properties ih =>
    obtain ⟨rest, data', hrest, heq, hone⟩ := exists_decodesOne db skipNil row data h
    rw [List.flatMap_cons, List.nodup_append'] at hnames
    obtain ⟨hproperty, hproperties, hdisjoint⟩ := hnames
    rw [List.flatMap_cons, List.forall_mem_append] at hfresh
    have hfresh' : ∀ name ∈ properties.flatMap shownNames, data'.lookup name = none :=
      fun name hname ↦ (hone.frame name fun h ↦ hdisjoint h hname).trans (hfresh.2 name hname)
    obtain ⟨hframe, hshown⟩ := ih hrest hproperties hfresh'
    rw [heq]
    refine ⟨fun name hname ↦ ?_, ?_⟩
    · rw [List.flatMap_cons, List.mem_append, not_or] at hname
      exact (hframe name hname.2).trans (hone.frame name hname.1)
    · refine List.forall_mem_cons.mpr ⟨⟨?_, fun hrel ↦ ?_⟩, hshown⟩
      · have hmem : property.id ∈ shownNames property := by simp [shownNames]
        rw [hframe _ fun h ↦ hdisjoint hmem h]
        exact hone.own hfresh.1 hproperty
      · have hmem : property.relationProperty ∈ shownNames property := by simp [shownNames, hrel]
        rw [hframe _ fun h ↦ hdisjoint hmem h]
        exact hone.related hfresh.1 hproperty hrel

/-- **A resource is decoded** with what its row and the related rows have, if at each level the
properties are shown under distinct names. -/
theorem reconstructs_decode (h : Gohan.makeColumns D.schemas fields true depth s = .ok tree)
    (hnames : ∀ t, Relation.ReflTransGen (Refers D.schemas) s t →
      (t.properties.flatMap shownNames).Nodup) (row : Dict) :
    Reconstructs D db fields s row (D.decode db fields.isSome tree row ∅) := by
  induction depth generalizing s tree row with
  | zero => exact absurd h (Go.panicf_ne_ok _ _ _)
  | succ depth ih =>
    have hempty (name : String) : (∅ : Dict).lookup name = none := AList.lookup_empty name
    obtain ⟨-, hshown⟩ := decode_columnsOf db fields.isSome row h (hnames s .refl) fun name _ ↦
      hempty name
    refine .mk (joinedData D db fields.isSome (Gohan.makeColumns D.schemas fields true depth) row)
      (fun p hp ↦ (hshown p hp).1) (fun p hp ↦ (hshown p hp).2) fun p hp hrel t ht ↦ ?_
    obtain ⟨u, hu, inner, hinner⟩ := related_of_columnsOf h p hp hrel
    obtain rfl : t = u := Option.some.inj (ht.symm.trans hu)
    have hdata : joinedData D db fields.isSome (Gohan.makeColumns D.schemas fields true depth) row
        p = D.decode db fields.isSome inner (relatedRow D.server.toSqlEngine
          (db (t.getDbTableName D.legacy)) (row.get p.id)) ∅ := by
      simp only [joinedData, ht, hinner]
      rfl
    rw [hdata]
    exact ih hinner (fun u hu ↦ hnames u (.head ⟨p, hp, hrel, ht⟩ hu)) _

end Decoding

/-! ## Round trips -/

/-- **The names of a schema are distinct**: those of the columns and of the tables of different
properties, and those of relations and properties. -/
structure Distinct (schemas : List Schema) (s : Schema) : Prop where
  columns : Apart columnNaming schemas s
  tables : Apart tableNaming schemas s
  names : ∀ p ∈ s.properties, ∀ q ∈ s.properties, p.relationProperty ≠ "" →
    p.relationProperty ≠ q.id

theorem Distinct.nodup {schemas : List Schema} {s : Schema} (h : Distinct schemas s) :
    (s.properties.flatMap shownNames).Nodup := by
  refine List.nodup_flatMap.mpr ⟨fun p hp ↦ ?_, ?_⟩
  · rw [shownNames]
    split
    · next hrel => simpa using (h.names p hp p hp hrel).symm
    · exact List.nodup_singleton _
  · refine List.Pairwise.imp_of_mem ?_ (h.columns.across.and h.tables.across)
    rintro p q hp hq ⟨hcolumns, htables⟩ name hnameP hnameQ
    rw [shownNames, List.mem_cons] at hnameP hnameQ
    rcases hnameP with rfl | hnameP <;> rcases hnameQ with hid | hnameQ
    · exact hcolumns _ (.inr (List.mem_singleton_self _)) (.inr (List.mem_singleton.mpr hid))
    · split at hnameQ
      · next hrel => exact h.names q hq p hp hrel (List.mem_singleton.mp hnameQ).symm
      · cases hnameQ
    · split at hnameP
      · next hrel => exact h.names p hp q hq hrel ((List.mem_singleton.mp hnameP).symm.trans hid)
      · cases hnameP
    · split at hnameP
      · next hrelP =>
        split at hnameQ
        · next hrelQ =>
          refine htables name (.inr ?_) (.inr ?_)
          · simpa [tableNaming, hrelP] using hnameP
          · simpa [tableNaming, hrelQ] using hnameQ
        · cases hnameQ
      · cases hnameP

/-! ### Names that can be looked at one by one -/

/-- A name goes on after another one, and might be taken for one under it. -/
def Continues (name longer : String) : Prop :=
  longer = name ++ "_" ∨ (name ++ "__").toList <+: longer.toList

instance (name longer : String) : Decidable (Continues name longer) :=
  inferInstanceAs (Decidable (_ ∨ _))

/-- The properties and the relations of a schema have distinct names, of which none goes on after
that of a relation. -/
structure PlainNames (s : Schema) : Prop where
  nodup : (s.properties.flatMap shownNames).Nodup
  not_continues : ∀ p ∈ s.properties, p.relationProperty ≠ "" →
    ∀ name ∈ s.properties.flatMap shownNames, ¬Continues p.relationProperty name

theorem continues_word (property : Property) (w : String) :
    Continues property.relationProperty (word property w) := by
  have hsplit : (word property w).toList = (property.relationProperty ++ "__").toList ++ w.toList :=
    String.toList_append
  exact .inr ⟨w.toList, hsplit.symm⟩

/-- Names under two relations are spelled alike only if the name of one relation goes on after that
of the other. -/
theorem continues_of_word_eq {p q : Property} {v w : String} (h : word p v = word q w)
    (hne : p.relationProperty ≠ q.relationProperty) :
    Continues p.relationProperty q.relationProperty ∨
      Continues q.relationProperty p.relationProperty := by
  have hlonger {p q : Property} {v w : String} (x : List Char)
      (hne : p.relationProperty ≠ q.relationProperty)
      (hq : q.relationProperty.toList = p.relationProperty.toList ++ x)
      (hv : '_' :: '_' :: v.toList = x ++ '_' :: '_' :: w.toList) :
      Continues p.relationProperty q.relationProperty := by
    match x, hv with
    | [], _ => exact absurd (String.toList_inj.mp (by simpa using hq.symm)) hne
    | [c], hv =>
      obtain ⟨rfl, -⟩ := List.cons.inj hv
      exact .inl (String.toList_inj.mp (by simpa using hq))
    | c :: c' :: x, hv =>
      obtain ⟨rfl, htail⟩ := List.cons.inj hv
      obtain ⟨rfl, -⟩ := List.cons.inj htail
      exact .inr ⟨x, by simpa using hq.symm⟩
  have hlists := congrArg String.toList h
  simp only [word, String.toList_append, List.append_assoc] at hlists
  rcases List.append_eq_append_iff.mp hlists with ⟨x, hq, hv⟩ | ⟨x, hp, hw⟩
  · exact .inl (hlonger x hne hq hv)
  · exact .inr (hlonger x hne.symm hp hw)

theorem PlainNames.apart {s : Schema} (h : PlainNames s) (schemas : List Schema) {naming : Naming}
    (hnaming : ∀ p w, w ∈ naming p (p.relationProperty != "") → w ∈ shownNames p) :
    Apart naming schemas s := by
  obtain ⟨-, hdisjoint⟩ := List.nodup_flatMap.mp h.nodup
  have hmem {p : Property} (hp : p ∈ s.properties) {w : String}
      (hw : w ∈ naming p (p.relationProperty != "")) : w ∈ s.properties.flatMap shownNames :=
    List.mem_flatMap.mpr ⟨p, hp, hnaming p w hw⟩
  have hunder {p q : Property} (hp : p ∈ s.properties) (hq : q ∈ s.properties) {w : String}
      (hw : w ∈ naming p (p.relationProperty != "")) : ¬Under naming schemas q w := by
    rintro ⟨hrel, t, -, v, -, rfl⟩
    exact h.not_continues q hq hrel _ (hmem hp hw) (continues_word q v)
  refine ⟨fun p hp w hw ↦ hunder hp hp hw, List.Pairwise.imp_of_mem ?_ hdisjoint⟩
  rintro p q hp hq hpq w (hw | hw) (hw' | hw')
  · obtain ⟨hrelP, _, -, v, -, rfl⟩ := hw
    obtain ⟨hrelQ, _, -, v', -, heq⟩ := hw'
    have hnameP : p.relationProperty ∈ shownNames p := by simp [shownNames, hrelP]
    have hnameQ : q.relationProperty ∈ shownNames q := by simp [shownNames, hrelQ]
    have hne : q.relationProperty ≠ p.relationProperty := fun heq ↦ hpq hnameP (heq ▸ hnameQ)
    rcases continues_of_word_eq heq hne with hcontinues | hcontinues
    · exact h.not_continues q hq hrelQ _ (List.mem_flatMap.mpr ⟨p, hp, hnameP⟩) hcontinues
    · exact h.not_continues p hp hrelP _ (List.mem_flatMap.mpr ⟨q, hq, hnameQ⟩) hcontinues
  · exact hunder hq hp hw' hw
  · exact hunder hp hq hw hw'
  · exact hpq (hnaming p w hw) (hnaming q w hw')

/-- **Plain names are distinct**, whatever the other schemas are. -/
theorem PlainNames.distinct {s : Schema} (h : PlainNames s) (schemas : List Schema) :
    Distinct schemas s where
  columns := h.apart schemas fun p w hw ↦ by
    rw [List.mem_singleton.mp hw]
    exact List.mem_cons_self
  tables := h.apart schemas fun p w hw ↦ by
    by_cases hrel : p.relationProperty = ""
    · simp [tableNaming, hrel] at hw
    · simp [tableNaming, hrel] at hw
      simp [shownNames, hrel, hw]
  names p hp q hq hrel heq := by
    have hnameP : p.relationProperty ∈ shownNames p := by simp [shownNames, hrel]
    obtain ⟨hown, hdisjoint⟩ := List.nodup_flatMap.mp h.nodup
    by_cases hpq : p = q
    · subst hpq
      have hne : p.id ≠ p.relationProperty := by simpa [shownNames, hrel] using hown p hp
      exact hne heq.symm
    · have : Std.Symm (Function.onFun List.Disjoint shownNames) := ⟨fun _ _ hdis ↦ hdis.symm⟩
      refine hdisjoint.forall hp hq hpq hnameP ?_
      rw [heq]
      exact List.mem_cons_self

/-- **A round trip** through a statement with joins: the columns and the tables have distinct names,
and what is decoded from a row of the answer is what the rows have. -/
structure RoundTrips (D : DB) (s : Schema) : Prop where
  columns : ∀ depth fields columns,
    makeColumns D.schemas fields true depth s (tableOf D s) = .ok columns →
      (columns.map (·.name)).Nodup
  tables : ∀ depth joins, makeJoin D.schemas D.legacy depth s (tableOf D s) = .ok joins →
    (tableOf D s :: joins.map (·.aliasName)).Nodup
  decode : ∀ depth fields columns joins,
    makeColumns D.schemas fields true depth s (tableOf D s) = .ok columns →
    makeJoin D.schemas D.legacy depth s (tableOf D s) = .ok joins →
      ∀ db, Keyed D db → ∀ row,
        ∀ scope ∈ leftJoins D db joins (AList.singleton (tableOf D s) row),
          ∃ data, decode D.schemas fields.isSome true (scan columns scope) depth s (tableOf D s) =
            .ok data ∧ Reconstructs D db fields s row data

section RoundTrip

variable {D : DB} {schemas : List Schema} {fields : Option (List String)} {depth : ℕ}
  {s t : Schema} {tree : Columns}

theorem nodup_columnNaming (property : Property) (joined : Bool) :
    (columnNaming property joined).Nodup := List.nodup_singleton _

theorem nodup_tableNaming (property : Property) (joined : Bool) :
    (tableNaming property joined).Nodup := by
  cases joined with
  | false => exact List.nodup_nil
  | true => exact List.nodup_singleton _

theorem makeColumns_eq_ok {join : Bool} {tableName : String} {columns : List SelectColumn}
    (h : makeColumns schemas fields join depth s tableName = .ok columns) :
    ∃ tree, Gohan.makeColumns schemas fields join depth s = .ok tree ∧
      selectColumns tableName tree = columns := by
  rw [makeColumns_eq] at h
  exact Go.map_eq_ok.mp h

/-- Where the joins are made, so are the columns. -/
theorem makeJoin_eq_ok {legacy : Bool} {tableName : String} {joins : List JoinClause}
    (hclosed : Closed schemas s) (h : makeJoin schemas legacy depth s tableName = .ok joins)
    (fields : Option (List String)) :
    ∃ tree, Gohan.makeColumns schemas fields true depth s = .ok tree ∧
      joinClauses legacy tableName tree = joins := by
  have hreads := reads_makeJoin schemas legacy fields depth s tableName
  cases htree : Gohan.makeColumns schemas fields true depth s with
  | ok tree => exact ⟨tree, rfl, Except.ok.inj ((hreads.ok tree htree).symm.trans h)⟩
  | error fault =>
    rw [makeColumns_error hclosed htree] at htree
    rw [hreads.overflow htree] at h
    cases h

theorem included_columnsOf {properties : List Property} {relatedTree : Schema → Go Columns}
    (hrelated : ∀ t inner, relatedTree t = .ok inner →
      ∀ tableName, ∀ c ∈ allColumns tableName inner, c.2 = true)
    (h : Gohan.columnsOf relatedTree schemas none true s properties = .ok tree)
    (tableName : String) : ∀ c ∈ allColumns tableName tree, c.2 = true := by
  induction properties generalizing tree with
  | nil => cases h; exact fun c hc ↦ absurd hc List.not_mem_nil
  | cons property properties ih =>
    obtain ⟨rest, hrest, ⟨-, rfl⟩ | ⟨-, t, inner, -, hinner, rfl⟩⟩ := columnsOf_cons_eq_ok.mp h
    · exact List.forall_mem_cons.mpr ⟨rfl, ih hrest⟩
    · exact List.forall_mem_append.mpr ⟨hrelated t inner hinner _,
        List.forall_mem_cons.mpr ⟨rfl, ih hrest⟩⟩

/-- Without fields all columns are included. -/
theorem included_makeColumns (h : Gohan.makeColumns schemas none true depth s = .ok tree)
    (tableName : String) : ∀ c ∈ allColumns tableName tree, c.2 = true := by
  induction depth generalizing s tree tableName with
  | zero => exact absurd h (Go.panicf_ne_ok _ _ _)
  | succ depth ih => exact included_columnsOf (fun t inner hinner ↦ ih hinner) h tableName

/-- A database without rows. -/
def noRows : Database := fun _ ↦ ⟨[], fun _ h ↦ absurd h List.not_mem_nil⟩

theorem keyed_noRows (D : DB) : Keyed D noRows := fun _ _ ↦ Nat.zero_le 1

/-- Where there is nothing, nothing is shown for a property, but there are data under a relation:
the two have different names. -/
theorem Reconstructs.ne_of_noRows {data : Dict} (h : Reconstructs D noRows none s ∅ data) :
    ∀ p ∈ s.properties, ∀ q ∈ s.properties, p.relationProperty ≠ "" →
      p.relationProperty ≠ q.id := by
  cases h with
  | mk relatedData own related inner =>
    intro p hp q hq hrel heq
    have hvalue := (own q hq).symm.trans (heq ▸ related p hp hrel)
    have hnil : (if includes none s q then GoMap.get ∅ q.id else .nil) = Value.nil := rfl
    rw [hnil, shown, shownRelated] at hvalue
    split at hvalue <;> simp at hvalue

theorem Reconstructs.reaches {data : Dict} (h : Reconstructs D noRows none s ∅ data)
    (hreach : Relation.ReflTransGen (Refers D.schemas) s t) :
    ∃ data', Reconstructs D noRows none t ∅ data' := by
  induction hreach with
  | refl => exact ⟨data, h⟩
  | tail _ hstep ih =>
    obtain ⟨data', hdata⟩ := ih
    obtain ⟨p, hp, hrel, ht⟩ := hstep
    cases hdata with
    | mk relatedData own related inner => exact ⟨relatedData p, inner p hp hrel _ ht⟩

/-- **Everything is read back exactly when the names are distinct** in all the schemas that are
joined. -/
theorem roundTrips_iff (D : DB) (h : ∀ s ∈ D.schemas, TargetsRegistered D.schemas s) (s : Schema)
    (hs : s ∈ D.schemas) (hacyclic : ¬Descent.Cyclic (Refers D.schemas) s) :
    RoundTrips D s ↔
      ∀ t, Relation.ReflTransGen (Refers D.schemas) s t → Distinct D.schemas t := by
  have hclosed := closed_of_mem h hs
  constructor
  · intro hround
    obtain ⟨depth, hwithin⟩ := (Descent.exists_within_iff fun t ↦ mem_of_reaches).mpr hacyclic
    obtain ⟨tree, htree⟩ : ∃ tree, Gohan.makeColumns D.schemas none true depth s = .ok tree :=
      exists_makeColumns_iff.mpr ⟨hwithin, hclosed⟩
    have hcolumns := (reads_makeColumns D.schemas none true depth s (tableOf D s)).ok tree htree
    have hjoins := (reads_makeJoin D.schemas D.legacy none depth s (tableOf D s)).ok tree htree
    have hcolumnWords : (words columnNaming tree).Nodup := by
      have hnodup := hround.columns depth none _ hcolumns
      rw [selectColumns_eq, List.filter_eq_self.mpr (included_makeColumns htree _),
        List.map_map] at hnodup
      exact nodup_name_allColumns.mp hnodup
    have htableWords : (words tableNaming tree).Nodup :=
      nodup_aliasName.mp (List.nodup_cons.mp (hround.tables depth _ hjoins)).2
    obtain ⟨data, -, hdata⟩ := hround.decode depth none _ _ hcolumns hjoins noRows (keyed_noRows D)
      ∅ _ (by rw [leftJoins_of_keyed (keyed_noRows D)]; exact List.mem_singleton_self _)
    intro t ht
    obtain ⟨data', hdata'⟩ := hdata.reaches ht
    exact ⟨(nodup_words_iff nodup_columnNaming htree).mp hcolumnWords t ht,
      (nodup_words_iff nodup_tableNaming htree).mp htableWords t ht, hdata'.ne_of_noRows⟩
  · intro hdistinct
    have hcolumnWords {depth : ℕ} {fields : Option (List String)} {tree : Columns}
        (htree : Gohan.makeColumns D.schemas fields true depth s = .ok tree) :
        (words columnNaming tree).Nodup :=
      (nodup_words_iff nodup_columnNaming htree).mpr fun t ht ↦ (hdistinct t ht).columns
    have htableWords {depth : ℕ} {fields : Option (List String)} {tree : Columns}
        (htree : Gohan.makeColumns D.schemas fields true depth s = .ok tree) :
        (words tableNaming tree).Nodup :=
      (nodup_words_iff nodup_tableNaming htree).mpr fun t ht ↦ (hdistinct t ht).tables
    constructor
    · intro depth fields columns hcolumns
      obtain ⟨tree, htree, rfl⟩ := makeColumns_eq_ok hcolumns
      rw [selectColumns_eq, List.map_map]
      exact (nodup_name_allColumns.mpr (hcolumnWords htree)).sublist
        (List.filter_sublist.map _)
    · intro depth joins hjoins
      obtain ⟨tree, htree, rfl⟩ := makeJoin_eq_ok hclosed hjoins none
      exact List.nodup_cons.mpr ⟨notMem_aliasName _ _ _, nodup_aliasName.mpr (htableWords htree)⟩
    · intro depth fields columns joins hcolumns hjoins db hkeyed row scope hscope
      obtain ⟨tree, htree, rfl⟩ := makeColumns_eq_ok hcolumns
      obtain rfl := Except.ok.inj (((reads_makeJoin D.schemas D.legacy fields depth s
        (tableOf D s)).ok tree htree).symm.trans hjoins)
      rw [leftJoins_of_keyed hkeyed] at hscope
      obtain rfl := List.mem_singleton.mp hscope
      refine ⟨_, (reads_decode D.schemas fields _ true _ depth s (tableOf D s)).ok tree htree, ?_⟩
      rw [decodeTree_scan (hcolumnWords htree) (htableWords htree)]
      exact reconstructs_decode htree (fun t ht ↦ (hdistinct t ht).nodup) row

end RoundTrip

/-! ## Hosts and zones -/

theorem plainNames_hosts : ∀ t, Relation.ReflTransGen (Refers joinedHosts.schemas) joinedHost t →
    PlainNames t := by
  intro t ht
  have hmem : t ∈ [joinedHost, joinedZone, joinedHost] := mem_of_reaches ht
  simp only [List.mem_cons, List.not_mem_nil, or_false] at hmem
  rcases hmem with rfl | rfl | rfl
  · exact ⟨by decide +kernel, by decide +kernel⟩
  · exact ⟨by decide +kernel, by decide +kernel⟩
  · exact ⟨by decide +kernel, by decide +kernel⟩

theorem roundTrips_hosts : RoundTrips joinedHosts joinedHost :=
  (roundTrips_iff joinedHosts (by decide +kernel) joinedHost (by simp [joinedHosts])
    not_cyclic_hosts).mpr fun t ht ↦ (plainNames_hosts t ht).distinct _

/-- A host with a property of its own that is called like the identifier of its zone. -/
def clashingHost : Schema :=
  { joinedHost with properties := joinedHost.properties ++ [{ id := "zone__id" }] }

/-- A database of hosts and zones. -/
def clashingHosts : DB where
  schemas := [joinedZone, clashingHost]
  server := exactServer

/-- The identifier of the zone and the property are selected under one name. -/
theorem not_roundTrips : ¬∀ (D : DB), (∀ s ∈ D.schemas, TargetsRegistered D.schemas s) →
    ∀ s ∈ D.schemas, ¬Descent.Cyclic (Refers D.schemas) s → RoundTrips D s := by
  intro h
  have hacyclic : ¬Descent.Cyclic (Refers clashingHosts.schemas) clashingHost :=
    not_cyclic_of_isOk 2 none (by decide +kernel)
  have hround := h clashingHosts (by decide +kernel) clashingHost (by simp [clashingHosts]) hacyclic
  have hnodup := hround.columns 2 none [⟨"hosts", "id", "hosts__id"⟩,
    ⟨"hosts__zone", "id", "hosts__zone__id"⟩, ⟨"hosts", "zone_id", "hosts__zone_id"⟩,
    ⟨"hosts", "zone__id", "hosts__zone__id"⟩] (by decide +kernel)
  revert hnodup
  decide +kernel

end Gohan.Join
