import Gohan.Db.Select

/-!
# Joins, as they are written

A query with details joins, for every property with a `relation_property`, the table of the schema
that the property refers to, and in that table again.  A table that is joined gets an alias, made of
the alias of the table it is joined to and the name of the relation, and a column gets a name, made
of the alias of its table and the name of the property; `decode` finds the values of a row by making
the same names again.

`makeColumns`, `makeJoin` and `decode` are three recursions over the schemas, in step with each
other.  What they have in common is the tree of `Gohan.makeColumns`: the first two write down the
tree (`makeColumns_eq`, `makeJoin_eq`), and the third reads it (`decode_eq`).
-/

set_option autoImplicit false

namespace Gohan.Join

/-! ## Names -/

/-- `makeColumnID`. -/
def makeColumnID (tableName : String) (property : Property) : String :=
  tableName ++ "__" ++ property.id

/-- `makeAliasTableName`. -/
def makeAliasTableName (tableName : String) (property : Property) : String :=
  tableName ++ "__" ++ property.relationProperty

/-- A column of the result: a column of a table, and the name it gets. -/
structure SelectColumn where
  table : String
  column : String
  name : String
  deriving DecidableEq

/-- `LEFT JOIN tableName as aliasName on onTable.onColumn = aliasName.id`. -/
structure JoinClause where
  tableName : String
  aliasName : String
  onTable : String
  onColumn : String
  deriving DecidableEq

/-! ## The three recursions -/

/-- The column of a property, unless the fields leave it out. -/
def ownColumn (included : Bool) (tableName : String) (property : Property) : List SelectColumn :=
  if included then [⟨tableName, property.id, makeColumnID tableName property⟩] else []

/-- The loop of `MakeColumns`. -/
def columnsOf (relatedColumns : Schema → String → Go (List SelectColumn)) (schemas : List Schema)
    (fields : Option (List String)) (join : Bool) (s : Schema) (tableName : String) :
    List Property → Go (List SelectColumn)
  | [] => .ok []
  | property :: properties =>
    let own := ownColumn (includes fields s property) tableName property
    if property.relationProperty ≠ "" ∧ join = true then
      match schemaByID schemas property.relation with
      | none => .panicf "missing schema %s" [.str property.relation]
      | some relatedSchema => do
        let cols ← relatedColumns relatedSchema (makeAliasTableName tableName property)
        let rest ← columnsOf relatedColumns schemas fields join s tableName properties
        .ok (cols ++ own ++ rest)
    else do
      let rest ← columnsOf relatedColumns schemas fields join s tableName properties
      .ok (own ++ rest)

/-- `MakeColumns`, with a stack of the given depth. -/
def makeColumns (schemas : List Schema) (fields : Option (List String)) (join : Bool) :
    ℕ → Schema → String → Go (List SelectColumn)
  | 0, _, _ => .panicf "stack overflow"
  | depth + 1, s, tableName =>
    columnsOf (makeColumns schemas fields join depth) schemas fields join s tableName s.properties

/-- A schema that is not registered is a nil pointer. -/
def nilPointer : Fault :=
  .panic "runtime error: invalid memory address or nil pointer dereference" []

/-- The loop of `makeJoin`. -/
def joinsOf (relatedJoins : Schema → String → Go (List JoinClause)) (schemas : List Schema)
    (legacy : Bool) (tableName : String) : List Property → Go (List JoinClause)
  | [] => .ok []
  | property :: properties =>
    if property.relationProperty ≠ "" then
      match schemaByID schemas property.relation with
      | none => .error nilPointer
      | some relatedSchema => do
        let aliasTableName := makeAliasTableName tableName property
        let inner ← relatedJoins relatedSchema aliasTableName
        let rest ← joinsOf relatedJoins schemas legacy tableName properties
        .ok (⟨relatedSchema.getDbTableName legacy, aliasTableName, tableName, property.id⟩ ::
          inner ++ rest)
    else joinsOf relatedJoins schemas legacy tableName properties

/-- `makeJoin`, with a stack of the given depth. -/
def makeJoin (schemas : List Schema) (legacy : Bool) : ℕ → Schema → String → Go (List JoinClause)
  | 0, _, _ => .panicf "stack overflow"
  | depth + 1, s, tableName =>
    joinsOf (makeJoin schemas legacy depth) schemas legacy tableName s.properties

/-- Enter the value that a row has under the name of a column. -/
def enterValue (skipNil : Bool) (property : Property) (value : Value) (resourceData : Dict) :
    Dict :=
  if value ≠ .nil ∨ (property.nullable = true ∧ skipNil = false) then
    resourceData.insert property.id value
  else resourceData

/-- Enter the data of a related resource. -/
def enterRelated (skipNil : Bool) (property : Property) (related resourceData : Dict) : Dict :=
  if related ≠ ∅ ∨ skipNil = false then
    resourceData.insert property.relationProperty (.map related.toList)
  else resourceData

/-- The loop of `decode`.  What the handlers decode is in the data already. -/
def decodeOf (relatedData : Schema → String → Go Dict) (schemas : List Schema)
    (skipNil recursive : Bool) (tableName : String) (data : Dict) : List Property → Dict → Go Dict
  | [], resourceData => .ok resourceData
  | property :: properties, resourceData =>
    let resourceData :=
      enterValue skipNil property (data.get (makeColumnID tableName property)) resourceData
    if property.relationProperty ≠ "" ∧ recursive = true then
      match schemaByID schemas property.relation with
      | none => .error nilPointer
      | some relatedSchema => do
        let related ← relatedData relatedSchema (makeAliasTableName tableName property)
        decodeOf relatedData schemas skipNil recursive tableName data properties
          (enterRelated skipNil property related resourceData)
    else decodeOf relatedData schemas skipNil recursive tableName data properties resourceData

/-- `decode`, with a stack of the given depth. -/
def decode (schemas : List Schema) (skipNil recursive : Bool) (data : Dict) :
    ℕ → Schema → String → Go Dict
  | 0, _, _ => .panicf "stack overflow"
  | depth + 1, s, tableName =>
    decodeOf (decode schemas skipNil recursive data depth) schemas skipNil recursive tableName data
      s.properties ∅

/-! ## The tree -/

/-- The columns of a tree, by the alias of its table. -/
def selectColumns (tableName : String) : Columns → List SelectColumn
  | .done => []
  | .plain property included rest =>
    ownColumn included tableName property ++ selectColumns tableName rest
  | .joined property _ inner included rest =>
    selectColumns (makeAliasTableName tableName property) inner ++
      ownColumn included tableName property ++ selectColumns tableName rest

/-- The joins of a tree. -/
def joinClauses (legacy : Bool) (tableName : String) : Columns → List JoinClause
  | .done => []
  | .plain _ _ rest => joinClauses legacy tableName rest
  | .joined property related inner _ rest =>
    let aliasTableName := makeAliasTableName tableName property
    ⟨related.getDbTableName legacy, aliasTableName, tableName, property.id⟩ ::
      joinClauses legacy aliasTableName inner ++ joinClauses legacy tableName rest

/-- What is read from a row by the names of a tree. -/
def decodeTree (skipNil : Bool) (data : Dict) (tableName : String) : Columns → Dict → Dict
  | .done, resourceData => resourceData
  | .plain property _ rest, resourceData =>
    decodeTree skipNil data tableName rest
      (enterValue skipNil property (data.get (makeColumnID tableName property)) resourceData)
  | .joined property _ inner _ rest, resourceData =>
    let related := decodeTree skipNil data (makeAliasTableName tableName property) inner ∅
    decodeTree skipNil data tableName rest (enterRelated skipNil property related
      (enterValue skipNil property (data.get (makeColumnID tableName property)) resourceData))

/-! ## The recursions follow the tree -/

/-- A stack that is not deep enough. -/
def stackOverflow : Fault := .panic "stack overflow" []

/-- A recursion reads a tree: it comes back where the tree is finished, and its stack overflows
where that of the tree does. -/
structure Reads {α : Type} (read : Columns → α) (tree : Go Columns) (result : Go α) : Prop where
  ok : ∀ columns, tree = .ok columns → result = .ok (read columns)
  overflow : tree = .error stackOverflow → result = .error stackOverflow

namespace Reads

variable {α β : Type} {read : Columns → α} {tree : Go Columns} {result : Go α}

theorem pure (read : Columns → α) (columns : Columns) :
    Reads read (.ok columns) (.ok (read columns)) where
  ok _ h := by rw [Except.ok.inj h]
  overflow h := absurd h (by simp)

theorem bind {f : Columns → Go Columns} {read' : Columns → β} {k : α → Go β}
    (h : Reads read tree result) (hrest : ∀ columns, Reads read' (f columns) (k (read columns))) :
    Reads read' (tree >>= f) (result >>= k) := by
  cases hread : tree with
  | ok columns =>
    rw [h.ok columns hread]
    exact hrest columns
  | error fault =>
    refine ⟨fun _ heq ↦ absurd heq (by simp [Bind.bind, Except.bind]), fun heq ↦ ?_⟩
    obtain rfl : fault = stackOverflow := Except.error.inj heq
    rw [h.overflow hread]
    rfl

/-- A tree that is put together from what was read. -/
theorem map {g : Columns → Columns} (h : Reads (fun columns ↦ read (g columns)) tree result) :
    Reads read (tree >>= fun columns ↦ .ok (g columns)) result := by
  cases hread : tree with
  | ok columns =>
    rw [h.ok columns hread]
    exact pure read (g columns)
  | error fault =>
    refine ⟨fun _ heq ↦ absurd heq (by simp [Bind.bind, Except.bind]), fun heq ↦ ?_⟩
    obtain rfl : fault = stackOverflow := Except.error.inj heq
    exact h.overflow hread

/-- Where a schema is missing the tree is not finished, and its stack has not overflown. -/
theorem missing (id : String) : Reads read (.panicf "missing schema %s" [.str id]) result where
  ok _ h := absurd h (Go.panicf_ne_ok _ _ _)
  overflow h := by simp [Go.panicf, stackOverflow] at h

end Reads

variable {schemas : List Schema} {fields : Option (List String)} {join : Bool}
  {relatedTree : Schema → Go Columns}

theorem columnsOf_eq {relatedColumns : Schema → String → Go (List SelectColumn)}
    (h : ∀ t name, relatedColumns t name = (relatedTree t).map (selectColumns name))
    (s : Schema) (tableName : String) (properties : List Property) :
    columnsOf relatedColumns schemas fields join s tableName properties =
      (Gohan.columnsOf relatedTree schemas fields join s properties).map
        (selectColumns tableName) := by
  induction properties with
  | nil => rfl
  | cons property properties ih =>
    rw [columnsOf, Gohan.columnsOf, ih]
    split
    · cases schemaByID schemas property.relation with
      | none => rfl
      | some related =>
        simp only [h]
        cases relatedTree related with
        | error fault => rfl
        | ok inner =>
          cases Gohan.columnsOf relatedTree schemas fields join s properties <;> rfl
    · cases Gohan.columnsOf relatedTree schemas fields join s properties <;> rfl

/-- `MakeColumns` writes down the tree. -/
theorem makeColumns_eq (schemas : List Schema) (fields : Option (List String)) (join : Bool)
    (depth : ℕ) (s : Schema) (tableName : String) :
    makeColumns schemas fields join depth s tableName =
      (Gohan.makeColumns schemas fields join depth s).map (selectColumns tableName) := by
  induction depth generalizing s tableName with
  | zero => rfl
  | succ depth ih => exact columnsOf_eq ih s tableName s.properties

theorem reads_joinsOf {relatedJoins : Schema → String → Go (List JoinClause)} {legacy : Bool}
    (h : ∀ t name, Reads (joinClauses legacy name) (relatedTree t) (relatedJoins t name))
    (s : Schema) (tableName : String) (properties : List Property) :
    Reads (joinClauses legacy tableName)
      (Gohan.columnsOf relatedTree schemas fields true s properties)
      (joinsOf relatedJoins schemas legacy tableName properties) := by
  induction properties with
  | nil => exact .pure _ _
  | cons property properties ih =>
    rw [joinsOf, Gohan.columnsOf]
    by_cases hrel : property.relationProperty = ""
    · rw [if_neg (by simp [hrel]), if_neg (by simp [hrel])]
      exact .map ih
    · rw [if_pos ⟨hrel, rfl⟩, if_pos hrel]
      cases schemaByID schemas property.relation with
      | none => exact .missing _
      | some related => exact (h related _).bind fun inner ↦ ih.bind fun rest ↦ .pure _ _

/-- `makeJoin` writes down the joins of the tree. -/
theorem reads_makeJoin (schemas : List Schema) (legacy : Bool) (fields : Option (List String))
    (depth : ℕ) (s : Schema) (tableName : String) :
    Reads (joinClauses legacy tableName) (Gohan.makeColumns schemas fields true depth s)
      (makeJoin schemas legacy depth s tableName) := by
  induction depth generalizing s tableName with
  | zero => exact ⟨fun _ h ↦ absurd h (Go.panicf_ne_ok _ _ _), fun _ ↦ rfl⟩
  | succ depth ih => exact reads_joinsOf ih s tableName s.properties

theorem reads_decodeOf {relatedData : Schema → String → Go Dict} {skipNil : Bool} {data : Dict}
    (h : ∀ t name, Reads (fun columns ↦ decodeTree skipNil data name columns ∅) (relatedTree t)
      (relatedData t name))
    (s : Schema) (tableName : String) (properties : List Property) (resourceData : Dict) :
    Reads (fun columns ↦ decodeTree skipNil data tableName columns resourceData)
      (Gohan.columnsOf relatedTree schemas fields join s properties)
      (decodeOf relatedData schemas skipNil join tableName data properties resourceData) := by
  induction properties generalizing resourceData with
  | nil => exact .pure (fun columns ↦ decodeTree skipNil data tableName columns resourceData) .done
  | cons property properties ih =>
    rw [decodeOf, Gohan.columnsOf]
    split
    · cases schemaByID schemas property.relation with
      | none => exact .missing _
      | some related => exact (h related _).bind fun inner ↦ .map (ih _)
    · exact .map (ih _)

/-- `decode` reads a row by the names of the tree. -/
theorem reads_decode (schemas : List Schema) (fields : Option (List String))
    (skipNil recursive : Bool) (data : Dict) (depth : ℕ) (s : Schema) (tableName : String) :
    Reads (fun columns ↦ decodeTree skipNil data tableName columns ∅)
      (Gohan.makeColumns schemas fields recursive depth s)
      (decode schemas skipNil recursive data depth s tableName) := by
  induction depth generalizing s tableName with
  | zero => exact ⟨fun _ h ↦ absurd h (Go.panicf_ne_ok _ _ _), fun _ ↦ rfl⟩
  | succ depth ih => exact reads_decodeOf ih s tableName s.properties ∅

end Gohan.Join
