import Gohan.Db.JoinDecode
import Gohan.Db.Fetch

/-!
# Totals and windows

A list comes with a total.  Where the list is a page, `Count` asks for the total in a statement of
its own, without joins; otherwise the total is the length of the list, which has the joins in it.

The two agree, because a join along identifiers gives each row once (`length_orderedRows`), and so
the total and the length of the list are right whenever there is an answer.  `counts_iff` says when
there is one: the schemas that are joined are registered, without a cycle and without two tables of
one name, at least one column is selected, and the database can read the page.
-/

set_option autoImplicit false

namespace Gohan.Join

/-! ## What is asked for -/

/-- How many rows are in the window that a paginator asks for, of those that match. -/
def windowSize (pg : Option Paginator) (n : ℕ) : ℕ :=
  match pg with
  | none => n
  | some pg =>
    if pg.Limit = maxUint64 then n - pg.Offset else min pg.Limit (n - pg.Offset)

/-- **The answer counts right**: the total is the number of rows that match, and there are as many
resources as rows in the window. -/
def Counts (n : ℕ) (pg : Option Paginator) (result : Go (List Dict × ℕ)) : Prop :=
  ∃ resources, result = .ok (resources, n) ∧ resources.length = windowSize pg n

/-- A request for a list, with or without locks. -/
inductive Request where
  | list
  | lockList (lockPolicy : LockPolicy)

namespace Request

/-- What a request returns. -/
def run (D : DB) (d : Dialect) (db : Database) (depth : ℕ) (s : Schema) (filter : GoMap FilterVal)
    (options : Option ViewOptions) (pg : Option Paginator) : Request → Go (List Dict × ℕ)
  | .list => Join.list D d db depth s filter options pg
  | .lockList lockPolicy => Join.lockList D d db depth s filter options pg lockPolicy

/-- Are related resources joined? -/
def joins (options : Option ViewOptions) : Request → Bool
  | .list => options.any (·.Details)
  | .lockList .lockRelatedResources => options.all (·.Details)
  | .lockList _ => false

end Request

/-- The fields that a request selects. -/
def fieldsOf (s : Schema) (options : Option ViewOptions) : Option (List String) :=
  options.bind fun options ↦ options.Fields.map (·.map (normField · s.id))

/-- A database can read the page. -/
structure Readable (d : Dialect) (pg : Paginator) : Prop where
  limit_of_offset : pg.Offset ≠ 0 → pg.Limit ≠ maxUint64
  limit_le : pg.Limit ≠ maxUint64 → pg.Limit ≤ d.largest
  offset_le : pg.Offset ≤ d.largest

/-- **There is an answer** to a statement for these fields and this page, with or without joins. -/
structure Answerable (D : DB) (d : Dialect) (s : Schema) (fields : Option (List String))
    (join : Bool) (pg : Option Paginator) : Prop where
  schemas : join = true → Closed D.schemas s ∧ ¬Descent.Cyclic (Refers D.schemas) s
  tables : join = true → ∀ t, Relation.ReflTransGen (Refers D.schemas) s t →
    Apart tableNaming D.schemas t
  column : ∃ t, (t = s ∨ join = true ∧ Relation.ReflTransGen (Refers D.schemas) s t) ∧
    ∃ p ∈ t.properties, includes fields t p = true
  page : ∀ p ∈ pg, Readable d p

/-! ## Columns -/

/-- A column of the tree is included. -/
def hasColumn : Columns → Bool
  | .done => false
  | .plain _ included rest => included || hasColumn rest
  | .joined _ _ inner included rest => hasColumn inner || included || hasColumn rest

variable {schemas : List Schema} {fields : Option (List String)} {join : Bool} {depth : ℕ}
  {s : Schema} {tree : Columns} {properties : List Property} {relatedTree : Schema → Go Columns}

theorem selectColumns_ne_nil_iff (tableName : String) (tree : Columns) :
    selectColumns tableName tree ≠ [] ↔ hasColumn tree = true := by
  induction tree generalizing tableName with
  | done => simp [selectColumns, hasColumn]
  | plain property included rest ih =>
    rw [selectColumns, hasColumn, Bool.or_eq_true, ← ih tableName]
    cases included <;> simp [ownColumn]
  | joined property related inner included rest ihinner ihrest =>
    rw [selectColumns, hasColumn, Bool.or_eq_true, Bool.or_eq_true, ← ihrest tableName,
      ← ihinner (makeAliasTableName tableName property)]
    cases included <;> simp [ownColumn, imp_iff_not_or]

/-- A column of a property is included, or one under its relation. -/
def ReachesColumn (relatedTree : Schema → Go Columns) (schemas : List Schema)
    (property : Property) : Prop :=
  property.relationProperty ≠ "" ∧ ∃ t, schemaByID schemas property.relation = some t ∧
    ∃ inner, relatedTree t = .ok inner ∧ hasColumn inner = true

theorem hasColumn_columnsOf
    (h : Gohan.columnsOf relatedTree schemas fields join s properties = .ok tree) :
    hasColumn tree = true ↔ (∃ p ∈ properties, includes fields s p = true) ∨
      (join = true ∧ ∃ p ∈ properties, ReachesColumn relatedTree schemas p) := by
  induction properties generalizing tree with
  | nil => cases h; simp [hasColumn]
  | cons property properties ih =>
    rw [List.exists_mem_cons_iff, List.exists_mem_cons_iff]
    obtain ⟨rest, hrest, ⟨hplain, rfl⟩ | ⟨hjoined, t, inner, ht, hinner, rfl⟩⟩ :=
      columnsOf_cons_eq_ok.mp h
    · have hreaches : join = true → ¬ReachesColumn relatedTree schemas property :=
        fun hjoin hreaches ↦ hplain ⟨hreaches.1, hjoin⟩
      rw [hasColumn, Bool.or_eq_true, ih hrest]
      grind
    · have hreaches : ReachesColumn relatedTree schemas property ↔ hasColumn inner = true := by
        simp [ReachesColumn, hjoined.1, ht, hinner]
      rw [hasColumn, Bool.or_eq_true, Bool.or_eq_true, ih hrest, hreaches]
      grind

/-- A tree has a column exactly when a schema that is joined has one that is included. -/
theorem hasColumn_iff (h : Gohan.makeColumns schemas fields join depth s = .ok tree) :
    hasColumn tree = true ↔
      ∃ t, (t = s ∨ join = true ∧ Relation.ReflTransGen (Refers schemas) s t) ∧
        ∃ p ∈ t.properties, includes fields t p = true := by
  induction depth generalizing s tree with
  | zero => exact absurd h (Go.panicf_ne_ok _ _ _)
  | succ depth ih =>
    rw [hasColumn_columnsOf h]
    constructor
    · rintro (hown | ⟨hjoin, p, hp, hrel, t, ht, inner, hinner, hcolumn⟩)
      · exact ⟨s, .inl rfl, hown⟩
      · obtain ⟨u, hu, hcolumn⟩ := (ih hinner).mp hcolumn
        have hrefers : Refers schemas s t := ⟨p, hp, hrel, ht⟩
        refine ⟨u, .inr ⟨hjoin, .head hrefers ?_⟩, hcolumn⟩
        rcases hu with rfl | ⟨-, hu⟩
        · exact .refl
        · exact hu
    · rintro ⟨u, hu, hcolumn⟩
      rcases hu with rfl | ⟨hjoin, hu⟩
      · exact .inl hcolumn
      · rcases Relation.ReflTransGen.cases_head hu with rfl | ⟨t, ⟨p, hp, hrel, ht⟩, hu⟩
        · exact .inl hcolumn
        · subst hjoin
          obtain ⟨v, hv, inner, hinner⟩ := related_of_columnsOf h p hp hrel
          obtain rfl : t = v := Option.some.inj (ht.symm.trans hv)
          exact .inr ⟨rfl, p, hp, hrel, t, ht, inner, hinner,
            (ih hinner).mpr ⟨u, .inr ⟨rfl, hu⟩, hcolumn⟩⟩

/-! ## Rows -/

section Rows

variable {D : DB} {db : Database}

/-- Joined by identifiers, a table has the rows it had. -/
theorem joinedRows_eq (h : Keyed D db) (st : Statement) : joinedRows D db st =
    (db st.table).rows.map fun row ↦ enterRows D db st.joins (AList.singleton st.table row) := by
  rw [joinedRows]
  simp only [leftJoins_of_keyed h]
  exact List.map_eq_flatMap.symm

/-- **The joins neither add rows nor take any away.** -/
theorem length_orderedRows (h : Keyed D db) (st : Statement)
    (hroot : st.table ∉ st.joins.map (·.aliasName)) :
    (orderedRows D db st).length = (D.selected (db st.table).rows st.clause).length := by
  have hrow (row : Dict) :
      (enterRows D db st.joins (AList.singleton st.table row)).row st.table = row :=
    (row_enterRows_of_notMem hroot).trans (Scope.row_singleton st.table row)
  have hselected : (selectedRows D db st).length =
      (D.selected (db st.table).rows st.clause).length := by
    rw [selectedRows, joinedRows_eq h, List.filter_map, List.length_map, DB.selected]
    simp only [Function.comp_def, hrow]
  rw [orderedRows]
  split
  · exact hselected
  · rw [List.length_insertionSort, hselected]

theorem length_cut {α : Type} (offset : ℕ) (limit : Option ℕ) (l : List α) :
    (Selection.cut offset limit l).length =
      (limit.elim (l.length - offset) fun n ↦ min n (l.length - offset)) := by
  cases limit with
  | none => rw [Selection.cut, List.length_drop]; rfl
  | some n => rw [Selection.cut, List.length_take, List.length_drop]; rfl

end Rows

/-! ## Statements -/

section Statements

variable {D : DB} {d : Dialect} {db : Database} {sc : SelectContext} {clause : List Sqlizer}

/-- The statement for a context, with the columns and the joins of a tree. -/
def statementOf (D : DB) (s : Schema) (sc : SelectContext) (tree : Columns)
    (clause : List Sqlizer) : Statement where
  columns := selectColumns (tableOf D s) tree
  table := tableOf D s
  joins := joinClauses D.legacy (tableOf D s) tree
  clause := clause
  order := sc.paginator.bind (·.order? s)
  limit := sc.paginator.bind (·.limit?)
  offset := sc.paginator.elim 0 (·.Offset)

theorem joinClauses_of_isPlain (legacy : Bool) (tableName : String) (h : tree.isPlain = true) :
    joinClauses legacy tableName tree = [] := by
  induction tree with
  | done => rfl
  | plain property included rest ih => exact ih h
  | joined property related inner included rest _ _ => cases h

theorem joinsIn_eq (h : Gohan.makeColumns D.schemas sc.fields sc.join depth s = .ok tree) :
    joinsIn D depth s sc = .ok (joinClauses D.legacy (tableOf D s) tree) := by
  rw [joinsIn]
  split
  · next hjoin =>
    rw [hjoin] at h
    exact (reads_makeJoin D.schemas D.legacy sc.fields depth s (tableOf D s)).ok tree h
  · next hjoin =>
    rw [Bool.not_eq_true] at hjoin
    rw [hjoin] at h
    rw [joinClauses_of_isPlain _ _ (isPlain_makeColumns h)]

theorem buildSelect_eq (h : Gohan.makeColumns D.schemas sc.fields sc.join depth s = .ok tree)
    (hclause : addFilterToQuery s sc.filter = .ok clause) :
    buildSelect D depth s sc = toSql (statementOf D s sc tree clause) := by
  rw [buildSelect, (reads_makeColumns D.schemas sc.fields sc.join depth s _).ok tree h, hclause,
    joinsIn_eq h]
  simp only [Go.ok_bind, statementOf]
  cases sc.paginator <;> rfl

/-- Without a tree there is no statement. -/
theorem exists_tree_of_buildSelect {st : Statement} (h : buildSelect D depth s sc = .ok st) :
    ∃ tree, Gohan.makeColumns D.schemas sc.fields sc.join depth s = .ok tree := by
  obtain ⟨columns, hcolumns, -⟩ := Go.bind_eq_ok.mp h
  obtain ⟨tree, htree, -⟩ := makeColumns_eq_ok hcolumns
  exact ⟨tree, htree⟩

theorem decodeRow_eq (h : Gohan.makeColumns D.schemas sc.fields sc.join depth s = .ok tree)
    (st : Statement) (scope : Scope) : decodeRow D depth s sc st scope =
      .ok (newResource s (decodeTree sc.fields.isSome (scan st.columns scope) (tableOf D s) tree
        ∅)) := by
  rw [decodeRow, (reads_decode D.schemas sc.fields _ sc.join _ depth s _).ok tree h]
  rfl

theorem mapM_eq_ok_map {α β : Type} {f : α → Go β} {g : α → β} (h : ∀ a, f a = .ok (g a))
    (as : List α) : as.mapM f = .ok (as.map g) := by
  induction as with
  | nil => rfl
  | cons a as ih => rw [List.mapM_cons, h, ih]; rfl

/-- The page of a context, cut out of so many rows. -/
theorem length_page {α : Type} (D : DB) (s : Schema) (sc : SelectContext) (tree : Columns)
    (clause : List Sqlizer) (l : List α) :
    (Selection.cut (statementOf D s sc tree clause).offset (statementOf D s sc tree clause).limit
      l).length = windowSize sc.paginator l.length := by
  rw [length_cut, statementOf, windowSize.eq_def]
  cases sc.paginator with
  | none => rfl
  | some pg =>
    simp only [Option.bind_some, Option.elim_some, Paginator.limit?]
    split <;> rfl

theorem windowSize_of_unpaged (h : sc.isSelectPaginated = false) (n : ℕ) :
    windowSize sc.paginator n = n := by
  obtain ⟨filter, fields, join, paginator⟩ := sc
  cases paginator with
  | none => rfl
  | some pg =>
    have hpaged : (pg.Offset != 0) = false ∧ (pg.Limit != maxUint64) = false :=
      Bool.or_eq_false_iff.mp h
    have hoffset : pg.Offset = 0 := by simpa using hpaged.1
    have hlimit : pg.Limit = maxUint64 := by simpa using hpaged.2
    show (if pg.Limit = maxUint64 then n - pg.Offset else _) = n
    rw [if_pos hlimit, hoffset, Nat.sub_zero]

/-- **Where a statement is built and taken, the answer counts right.** -/
theorem counts_of_accepted (hkeyed : Keyed D db)
    (h : Gohan.makeColumns D.schemas sc.fields sc.join depth s = .ok tree)
    (haccepted : (statementOf D s sc tree clause).Accepted d) :
    Counts (D.selected (db (tableOf D s)).rows clause).length sc.paginator
      (executeCountingSelect D d db depth s sc (statementOf D s sc tree clause)) := by
  have hroot : (statementOf D s sc tree clause).table ∉
      (statementOf D s sc tree clause).joins.map (·.aliasName) := notMem_aliasName _ _ _
  have hlength := length_orderedRows hkeyed (statementOf D s sc tree clause) hroot
  have hpage := length_page D s sc tree clause (orderedRows D db (statementOf D s sc tree clause))
  rw [hlength] at hpage
  rw [executeCountingSelect, executeSelect, execute, if_pos haccepted, Go.ok_bind,
    mapM_eq_ok_map (decodeRow_eq h _)]
  refine ⟨_, congrArg Except.ok (Prod.ext rfl ?_), (List.length_map _).trans hpage⟩
  show (if sc.isSelectPaginated then _ else _) = _
  split
  · exact DB.count_eq_length db s clause
  · next hunpaged =>
    rw [List.length_map, hpage]
    exact windowSize_of_unpaged (by simpa using hunpaged) _

end Statements

/-! ## Answers -/

section Answers

variable {D : DB} {d : Dialect} {db : Database} {sc : SelectContext} {clause : List Sqlizer}

theorem wellFormed_statementOf : d.WellFormed (statementOf D s sc tree clause).query ↔
    ∀ pg ∈ sc.paginator, Readable d pg := by
  cases hpg : sc.paginator with
  | none =>
    refine iff_of_true ⟨fun hne ↦ ?_, fun n hn ↦ ?_, ?_⟩ (by simp)
    · simp [Statement.query, statementOf, hpg] at hne
    · simp [Statement.query, statementOf, hpg] at hn
    · simp [Statement.query, statementOf, hpg]
  | some pg =>
    have hlimit : (statementOf D s sc tree clause).query.limit =
        if pg.Limit = maxUint64 then none else some pg.Limit := by
      simp only [Statement.query, statementOf, hpg]
      rfl
    have hoffset : (statementOf D s sc tree clause).query.offset = pg.Offset := by
      simp only [Statement.query, statementOf, hpg]
      rfl
    simp only [Option.mem_some_iff, forall_eq']
    constructor
    · intro h
      refine ⟨fun hne hmax ↦ ?_, fun hne ↦ ?_, hoffset ▸ h.offset_le⟩
      · exact h.limit_of_offset (hoffset ▸ hne) (by rw [hlimit, if_pos hmax])
      · exact h.limit_le pg.Limit (by rw [hlimit, if_neg hne])
    · intro h
      refine ⟨fun hne hnone ↦ ?_, fun n hn ↦ ?_, hoffset ▸ h.offset_le⟩
      · rw [hlimit, if_neg (h.limit_of_offset (hoffset ▸ hne))] at hnone
        cases hnone
      · rw [hlimit] at hn
        split at hn
        · cases hn
        · next hne => exact Option.some.inj hn ▸ h.limit_le hne

/-- The statement of a context is built and taken. -/
theorem answerable_iff (hdepth : D.schemas.length + 1 ≤ depth) (clause : List Sqlizer) :
    (∃ tree, Gohan.makeColumns D.schemas sc.fields sc.join depth s = .ok tree ∧
      (statementOf D s sc tree clause).columns ≠ [] ∧
        (statementOf D s sc tree clause).Accepted d) ↔
      Answerable D d s sc.fields sc.join sc.paginator := by
  have hnodup {tree : Columns}
      (h : Gohan.makeColumns D.schemas sc.fields sc.join depth s = .ok tree) :
      (statementOf D s sc tree clause).tableNames.Nodup ↔ (sc.join = true →
        ∀ t, Relation.ReflTransGen (Refers D.schemas) s t → Apart tableNaming D.schemas t) := by
    show (tableOf D s :: (joinClauses D.legacy (tableOf D s) tree).map (·.aliasName)).Nodup ↔ _
    rw [List.nodup_cons, and_iff_right (notMem_aliasName D.legacy (tableOf D s) tree)]
    cases hjoin : sc.join with
    | false =>
      rw [hjoin] at h
      rw [joinClauses_of_isPlain _ _ (isPlain_makeColumns h)]
      simp
    | true =>
      rw [hjoin] at h
      exact nodup_aliasName.trans ((nodup_words_iff nodup_tableNaming h).trans (by simp))
  constructor
  · rintro ⟨tree, htree, hcolumns, haccepted⟩
    refine ⟨fun hjoin ↦ ?_, (hnodup htree).mp haccepted.nodup, ?_,
      wellFormed_statementOf.mp haccepted.wellFormed⟩
    · rw [hjoin] at htree
      obtain ⟨hwithin, hclosed⟩ := exists_makeColumns_iff.mp ⟨tree, htree⟩
      exact ⟨hclosed, fun hcyclic ↦ hcyclic.not_within hwithin⟩
    · exact (hasColumn_iff htree).mp ((selectColumns_ne_nil_iff _ tree).mp hcolumns)
  · intro h
    obtain ⟨tree, htree⟩ : ∃ tree,
        Gohan.makeColumns D.schemas sc.fields sc.join depth s = .ok tree := by
      cases hjoin : sc.join with
      | false =>
        obtain ⟨n, rfl⟩ := Nat.exists_eq_succ_of_ne_zero (show depth ≠ 0 by omega)
        exact exists_makeColumns D.schemas sc.fields n s
      | true =>
        obtain ⟨hclosed, hacyclic⟩ := h.schemas hjoin
        have hwithin : Descent.Within (Refers D.schemas) (s :: D.schemas).length s :=
          Descent.within_length (fun t ↦ mem_of_reaches) hacyclic
        exact exists_makeColumns_iff.mpr ⟨hwithin.mono hdepth, hclosed⟩
    exact ⟨tree, htree,
      (selectColumns_ne_nil_iff _ tree).mpr ((hasColumn_iff htree).mpr h.column),
      (hnodup htree).mpr h.tables, wellFormed_statementOf.mpr h.page⟩

/-- A statement that is answered was built and taken. -/
theorem accepted_of_listIn {result : List Dict × ℕ} (h : listIn D d db depth s sc = .ok result) :
    ∃ tree clause, Gohan.makeColumns D.schemas sc.fields sc.join depth s = .ok tree ∧
      addFilterToQuery s sc.filter = .ok clause ∧ (statementOf D s sc tree clause).columns ≠ [] ∧
        (statementOf D s sc tree clause).Accepted d := by
  obtain ⟨st, hst, hlist⟩ := Go.bind_eq_ok.mp h
  obtain ⟨tree, htree⟩ := exists_tree_of_buildSelect hst
  obtain ⟨clause, hclause⟩ : ∃ clause, addFilterToQuery s sc.filter = .ok clause := by
    obtain ⟨columns, -, hst⟩ := Go.bind_eq_ok.mp hst
    obtain ⟨clause, hclause, -⟩ := Go.bind_eq_ok.mp hst
    exact ⟨clause, hclause⟩
  rw [buildSelect_eq htree hclause, toSql] at hst
  split at hst
  · exact absurd hst (Go.errorf_ne_ok _ _ _)
  · next hcolumns =>
    obtain rfl := Except.ok.inj hst
    obtain ⟨list, hlist, -⟩ := Go.bind_eq_ok.mp hlist
    obtain ⟨rows, hrows, -⟩ := Go.bind_eq_ok.mp hlist
    refine ⟨tree, clause, htree, hclause, hcolumns, ?_⟩
    by_contra hrefused
    rw [execute, if_neg hrefused] at hrows
    split at hrows <;> exact absurd hrows (Go.errorf_ne_ok _ _ _)

/-- **What is listed in a context is counted right exactly when there is an answer.** -/
theorem counts_listIn_iff (d : Dialect) (s : Schema) (sc : SelectContext)
    (hdepth : D.schemas.length + 1 ≤ depth) (hkeyed : Keyed D db)
    (hclause : addFilterToQuery s sc.filter = .ok clause) :
    Counts (D.selected (db (tableOf D s)).rows clause).length sc.paginator
      (listIn D d db depth s sc) ↔ Answerable D d s sc.fields sc.join sc.paginator := by
  rw [← answerable_iff hdepth clause]
  constructor
  · rintro ⟨resources, hlist, -⟩
    obtain ⟨tree, clause', htree, hclause', hcolumns, haccepted⟩ := accepted_of_listIn hlist
    obtain rfl := Except.ok.inj (hclause'.symm.trans hclause)
    exact ⟨tree, htree, hcolumns, haccepted⟩
  · rintro ⟨tree, htree, hcolumns, haccepted⟩
    rw [listIn, buildSelect_eq htree hclause, toSql, if_neg hcolumns, Go.ok_bind]
    exact counts_of_accepted hkeyed htree haccepted

end Answers

/-- **Lists and lists with locks are counted right exactly when there is an answer.** -/
theorem counts_iff (D : DB) (d : Dialect) (db : Database) (s : Schema) (filter : GoMap FilterVal)
    (options : Option ViewOptions) (pg : Option Paginator) (request : Request)
    {clause : List Sqlizer} {depth : ℕ} (hdepth : D.schemas.length + 1 ≤ depth)
    (hkeyed : Keyed D db) (hclause : addFilterToQuery s filter = .ok clause) :
    Counts (D.selected (db (tableOf D s)).rows clause).length pg
        (request.run D d db depth s filter options pg) ↔
      request ≠ .lockList .noLocking ∧
        Answerable D d s (fieldsOf s options) (request.joins options) pg := by
  have hcounts (join : Bool) := counts_listIn_iff d s ⟨filter, fieldsOf s options, join, pg⟩ hdepth
    hkeyed hclause
  cases request with
  | list =>
    rw [and_iff_right (by simp), ← hcounts]
    cases options <;> exact Iff.rfl
  | lockList lockPolicy =>
    cases lockPolicy with
    | noLocking =>
      refine iff_of_false ?_ fun h ↦ h.1 rfl
      rintro ⟨resources, hresources, -⟩
      exact absurd hresources (Go.panicf_ne_ok _ _ _)
    | lockRelatedResources =>
      rw [and_iff_right (by simp), ← hcounts]
      cases options <;> exact Iff.rfl
    | skipRelatedResources =>
      rw [and_iff_right (by simp), ← hcounts]
      cases options <;> exact Iff.rfl

/-! ## Hosts and zones -/

/-- A host in a zone. -/
def oneHost : Database := fun name ↦
  if name = "zones" then ⟨[GoMap.ofList [("id", .str "z1")]], by decide⟩
  else ⟨[GoMap.ofList [("id", .str "h1"), ("zone_id", .str "z1")]], by decide⟩

theorem keyed_oneHost : Keyed joinedHosts oneHost := by
  intro name value
  refine (List.length_filter_le _ _).trans ?_
  rw [oneHost]
  split <;> exact le_rfl

theorem answerable_hosts : Answerable joinedHosts .mysql joinedHost none true
    (some ⟨"id", "asc", 10, 0⟩) where
  schemas _ := ⟨closed_of_mem (by decide +kernel) (by simp [joinedHosts]), not_cyclic_hosts⟩
  tables _ t ht := ((plainNames_hosts t ht).distinct _).tables
  column := ⟨joinedHost, .inl rfl, { id := "id" }, by simp [joinedHost], rfl⟩
  page pg hpg := by
    obtain rfl := Option.some.inj hpg
    exact ⟨fun h ↦ absurd rfl h, fun _ ↦ by decide, by decide⟩

/-- The first ten hosts with their zones, locked. -/
theorem counts_hosts : Counts
    (joinedHosts.selected (oneHost (tableOf joinedHosts joinedHost)).rows []).length
    (some ⟨"id", "asc", 10, 0⟩) ((Request.lockList .lockRelatedResources).run joinedHosts .mysql
      oneHost 3 joinedHost ∅ none (some ⟨"id", "asc", 10, 0⟩)) :=
  (counts_iff joinedHosts .mysql oneHost joinedHost ∅ none _ _ le_rfl keyed_oneHost rfl).mpr
    ⟨by simp, answerable_hosts⟩

/-- From the second host on, without a limit: there is no answer. -/
theorem not_counts : ¬∀ (D : DB) (d : Dialect) (db : Database) (s : Schema)
    (filter : GoMap FilterVal) (options : Option ViewOptions) (pg : Option Paginator)
    (request : Request) (clause : List Sqlizer) (depth : ℕ), D.schemas.length + 1 ≤ depth →
      Keyed D db → addFilterToQuery s filter = .ok clause → request ≠ .lockList .noLocking →
        Counts (D.selected (db (tableOf D s)).rows clause).length pg
          (request.run D d db depth s filter options pg) := by
  intro h
  have hcounts := h joinedHosts .mysql oneHost joinedHost ∅ none
    (some ⟨"id", "asc", maxUint64, 1⟩) .list [] 3 le_rfl keyed_oneHost rfl (by simp)
  have hanswerable := (counts_listIn_iff .mysql joinedHost
    ⟨∅, none, false, some ⟨"id", "asc", maxUint64, 1⟩⟩ le_rfl keyed_oneHost rfl).mp hcounts
  exact (hanswerable.page _ rfl).limit_of_offset (by decide) rfl

end Gohan.Join
