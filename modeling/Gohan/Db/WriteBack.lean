import Gohan.Db.Handlers
import Gohan.Db.State
import Gohan.Db.Update

/-!
# The columns that a write sets

`Update` and `StateUpdate` set the columns of the properties that a resource has, each to what its
handler makes of the value, and with a parent also the column of the parent's identifier, from the
copy of it that the resource keeps apart.  `NewResource` makes this copy, and makes it a string.

The two writes differ in what they do to the columns of the state, and in nothing else: both are
`write`, and `Operation` stands for either.

A row is what is in the columns, in the form that the columns keep; reading goes through a driver
and the handlers, as in `Gohan.Db.Handlers`, and of what is read a write is `updateRow`
(`readsBack_updateRow`).  A server that refuses a write, because of its constraints, changes
nothing; what is said here is about writes that it does not refuse.
-/

set_option autoImplicit false

namespace Gohan.WriteBack

open Sync

/-! ## Resources -/

/-- A resource, with the identifier of its parent. -/
structure Resource where
  schema : Schema
  properties : GoMap ResourceValue
  parentID : String := ""

/-- `v.(string)`, where a value that is no string gives the empty one. -/
def stringOf : ResourceValue → String
  | .value (.str s) => s
  | _ => ""

namespace Resource

/-- `SetParentID`. -/
def setParentID (resource : Resource) (id : String) : Resource :=
  if resource.schema.parent ≠ "" then
    { resource with
      properties := resource.properties.insert resource.schema.parentPropertyID (.value (.str id))
      parentID := id }
  else resource

/-- `NewResource`. -/
def newResource (schema : Schema) (properties : GoMap ResourceValue) : Resource :=
  let resource : Resource := { schema, properties }
  if schema.parent ≠ "" then
    match properties.lookup schema.parentPropertyID with
    | some parentID => resource.setParentID (stringOf parentID)
    | none => resource
  else resource

end Resource

/-! ## Writing -/

/-- A row of the table, without what belongs to no property and not to the state. -/
structure StoredRow where
  columns : String → SqlValue
  state : ResourceState := {}

/-- What the server makes of `id = ?`: is this the column of the identifier, which is printed? -/
structure IdColumn where
  isRow : SqlValue → Option ResourceValue → Bool

/-- The loop of `updateQuery`. -/
def setClauses (data : GoMap ResourceValue) : List Property → List (String × Encoded)
  | [] => []
  | attr :: properties =>
    match data.lookup attr.id with
    | some v => (attr.id, (handler attr.type).encode v) :: setClauses data properties
    | none => setClauses data properties

/-- `updateQuery`. -/
def updateQuery (resource : Resource) : List (String × Encoded) :=
  let q := setClauses resource.properties resource.schema.properties
  if resource.schema.parent ≠ "" then
    q ++ [(resource.schema.parentPropertyID, .plain (.value (.str resource.parentID)))]
  else q

/-- The parameters of a statement. -/
def parameters : List (String × Encoded) → Go (List (String × SqlValue))
  | [] => .ok []
  | (name, encoded) :: q =>
    match encoded.parameter? with
    | some x => do .ok ((name, x) :: (← parameters q))
    | none => .errorf "sql: converting argument type: unsupported type %T"

/-- `ToSql`, and what `database/sql` makes of the arguments. -/
def toSql (q : List (String × Encoded)) : Go (List (String × SqlValue)) :=
  if q.isEmpty then .errorf "update statements must have at least one Set clause"
  else parameters q

/-- The type of a column. -/
def columnType (s : Schema) (name : String) : ColumnType :=
  match s.properties.find? (·.id == name) with
  | some property => (handler property.type).dataType
  | none => .text

section Engine

variable [TextEngine]

/-- Columns are set one after the other. -/
def assign (s : Schema) : List (String × SqlValue) → (String → SqlValue) → String → SqlValue
  | [], columns => columns
  | (name, x) :: sets, columns =>
    assign s sets (Function.update columns name ((columnType s name).store x))

/-- `updateQuery`, sent for the row with the identifier of the resource, together with a change of
its state. -/
def write (D : IdColumn) (rows : List StoredRow) (resource : Resource)
    (after : ResourceState → ResourceState) : Go (List StoredRow) := do
  let sets ← toSql (updateQuery resource)
  .ok (rows.map fun row ↦
    if D.isRow (row.columns "id") (resource.properties.lookup "id") then
      { columns := assign resource.schema sets row.columns, state := after row.state }
    else row)

/-- `Update`: the server counts the versions of the configuration. -/
def update (D : IdColumn) (rows : List StoredRow) (resource : Resource) : Go (List StoredRow) :=
  write D rows resource fun state ↦
    if resource.schema.stateVersioning then
      { state with configVersion := state.configVersion + 1 }
    else state

/-- `StateUpdate`: the other columns of the state, if one is given. -/
def stateUpdate (D : IdColumn) (rows : List StoredRow) (resource : Resource)
    (state : Option ResourceState) : Go (List StoredRow) :=
  write D rows resource fun old ↦
    match state with
    | some state =>
      if resource.schema.stateVersioning then
        { state with configVersion := old.configVersion }
      else old
    | none => old

/-- An update, of the resource or of its state. -/
inductive Operation where
  | update
  | stateUpdate (state : Option ResourceState)

namespace Operation

/-- The update is carried out. -/
def perform (op : Operation) (D : IdColumn) (rows : List StoredRow) (resource : Resource) :
    Go (List StoredRow) :=
  match op with
  | .update => WriteBack.update D rows resource
  | .stateUpdate state => WriteBack.stateUpdate D rows resource state

/-- What is to become of the state. -/
def after (op : Operation) (s : Schema) (old : ResourceState) : ResourceState :=
  match s.stateVersioning, op with
  | true, .update => { old with configVersion := old.configVersion + 1 }
  | true, .stateUpdate (some state) => { state with configVersion := old.configVersion }
  | _, _ => old

theorem perform_eq (op : Operation) (D : IdColumn) (rows : List StoredRow) (resource : Resource) :
    op.perform D rows resource = write D rows resource (op.after resource.schema) := by
  cases op with
  | update =>
    rw [perform, WriteBack.update]
    refine congrArg _ (funext fun old ↦ ?_)
    cases h : resource.schema.stateVersioning <;> simp [after, h]
  | stateUpdate state =>
    rw [perform, WriteBack.stateUpdate]
    refine congrArg _ (funext fun old ↦ ?_)
    cases state <;> cases h : resource.schema.stateVersioning <;> simp [after, h]

end Operation

/-! ## Reading -/

/-- `decode`, without a join: the row is read under the names of the columns. -/
def decodeRow (data : String → SqlValue) :
    List Property → GoMap ResourceValue → Option (GoMap ResourceValue)
  | [], resourceData => some resourceData
  | property :: properties, resourceData =>
    let value := data property.id
    if value.isNull = false ∨ property.nullable = true then
      match ((handler property.type).decode value).1 with
      | .value v => decodeRow data properties (resourceData.insert property.id (.value v))
      | _ => none
    else decodeRow data properties resourceData

/-! ## What is asked of a write -/

/-- The properties that have columns of their own: among them the identifier and, if the resource
has a parent, the identifier of that. -/
structure HasTable (s : Schema) : Prop where
  nodup : (s.properties.map (·.id)).Nodup
  id : s.hasPropertyID "id" = true
  parent : s.parent ≠ "" → s.hasPropertyID s.parentPropertyID = true

/-- The values are values of properties. -/
def OfProperties (s : Schema) (m : GoMap ResourceValue) : Prop :=
  ∀ key v, m.lookup key = some v → ∃ property ∈ s.properties,
    property.id = key ∧ Allowed property.type v

/-- The row is the one under the identifier, the key of the table. -/
structure Under (D : IdColumn) (rows : List StoredRow) (id : Option ResourceValue)
    (row : StoredRow) : Prop where
  mem : row ∈ rows
  isRow : ∀ other ∈ rows, D.isRow (other.columns "id") id = true ↔ other = row

/-- The columns of the properties that the map has hold its values, null as null, and those of the
others what they held. -/
structure Writes (s : Schema) (m : GoMap ResourceValue) (columns columns' : String → SqlValue) :
    Prop where
  written : ∀ property ∈ s.properties, ∀ v, m.lookup property.id = some v →
    (handler property.type).ReadsBack (columns' property.id) v.plain ∧
      (v.plain = .nil → columns' property.id = .null)
  kept : ∀ property ∈ s.properties, m.lookup property.id = none →
    columns' property.id = columns property.id

/-- What is in a column, where JSON texts of the same value are the same. -/
def content : SqlValue → SqlValue
  | .text (.json v) => .text (.json v.json)
  | x => x

/-- No column of a property has changed. -/
def SameColumns (s : Schema) (columns columns' : String → SqlValue) : Prop :=
  ∀ property ∈ s.properties, content (columns' property.id) = content (columns property.id)

/-- The operation succeeds.  Of the row under the identifier it changes the columns as it should and
the state as the operation does, and it changes no other row. -/
def Changes (op : Operation) (D : IdColumn) (rows : List StoredRow) (resource : Resource)
    (row : StoredRow) (P : (String → SqlValue) → Prop) : Prop :=
  ∃ rows', op.perform D rows resource = .ok rows' ∧ List.Forall₂ (fun other other' ↦
    (other = row → P other'.columns ∧ other'.state = op.after resource.schema row.state) ∧
      (other ≠ row → other' = other)) rows rows'

/-! ## What a write does -/

variable {D : IdColumn} {rows : List StoredRow} {s : Schema} {m : GoMap ResourceValue}
  {row : StoredRow} {op : Operation} {resource : Resource} {property : Property}
  {sets : List (String × SqlValue)} {columns : String → SqlValue} {name : String} {x : SqlValue}

section Clauses

omit [TextEngine]

/-- The property is the identifier of the parent. -/
def IsParent (s : Schema) (name : String) : Prop := s.parent ≠ "" ∧ name = s.parentPropertyID

instance (s : Schema) (name : String) : Decidable (IsParent s name) :=
  inferInstanceAs (Decidable (_ ∧ _))

/-- A resource keeps the properties of the map, with the identifier of the parent as a string. -/
theorem lookup_newResource (s : Schema) (m : GoMap ResourceValue) (key : String) :
    (Resource.newResource s m).properties.lookup key =
      if IsParent s key then (m.lookup key).map fun v ↦ .value (.str (stringOf v))
      else m.lookup key := by
  rw [Resource.newResource]
  by_cases hparent : s.parent = ""
  · rw [if_neg (not_not.mpr hparent), if_neg fun h ↦ h.1 hparent]
  · rw [if_pos hparent]
    cases hm : m.lookup s.parentPropertyID with
    | none =>
      show m.lookup key = _
      split
      · next h => rw [h.2, hm]; rfl
      · rfl
    | some v =>
      simp only [Resource.setParentID, if_pos hparent]
      split
      · next h => rw [h.2, AList.lookup_insert, hm]; rfl
      · next h => exact AList.lookup_insert_ne fun hkey ↦ h ⟨hparent, hkey⟩

@[simp] theorem schema_newResource (s : Schema) (m : GoMap ResourceValue) :
    (Resource.newResource s m).schema = s := by
  rw [Resource.newResource]
  split
  · split
    · rw [Resource.setParentID]
      split <;> rfl
    · rfl
  · rfl

theorem parentID_newResource (s : Schema) (m : GoMap ResourceValue) :
    (Resource.newResource s m).parentID =
      if s.parent ≠ "" then ((m.lookup s.parentPropertyID).map stringOf).getD "" else "" := by
  rw [Resource.newResource]
  split
  · next hparent =>
    cases hm : m.lookup s.parentPropertyID with
    | none => rfl
    | some v => simp only [Resource.setParentID, if_pos hparent]; rfl
  · rfl

theorem lookup_newResource_id (s : Schema) (m : GoMap ResourceValue) :
    (Resource.newResource s m).properties.lookup "id" = m.lookup "id" := by
  rw [lookup_newResource, if_neg]
  rintro ⟨hparent, hid⟩
  have hlength := congrArg String.length hid
  rw [Schema.parentPropertyID, String.length_append] at hlength
  have hzero : s.parent.length = 0 := by
    have : "_id".length = 3 := rfl
    have : "id".length = 2 := rfl
    omega
  exact hparent (String.length_eq_zero_iff.mp hzero)

theorem mem_setClauses {data : GoMap ResourceValue} {properties : List Property}
    {encoded : Encoded} : (name, encoded) ∈ setClauses data properties ↔
      ∃ property ∈ properties, ∃ v, data.lookup property.id = some v ∧
        property.id = name ∧ (handler property.type).encode v = encoded := by
  induction properties with
  | nil => simp [setClauses]
  | cons attr properties ih =>
    rw [setClauses]
    cases hv : data.lookup attr.id with
    | none => simp [ih, hv]
    | some v => simp [ih, hv, eq_comm]

theorem sublist_names (data : GoMap ResourceValue) (properties : List Property) :
    ((setClauses data properties).map Prod.fst).Sublist (properties.map (·.id)) := by
  induction properties with
  | nil => exact .slnil
  | cons attr properties ih =>
    rw [setClauses]
    split
    · exact ih.cons_cons _
    · exact ih.cons _

theorem parameters_cons_eq_ok {encoded : Encoded} {q : List (String × Encoded)} :
    parameters ((name, encoded) :: q) = .ok sets ↔ ∃ x rest, encoded.parameter? = some x ∧
      parameters q = .ok rest ∧ sets = (name, x) :: rest := by
  rw [parameters]
  cases hx : encoded.parameter? with
  | none => simp
  | some x =>
    rw [Go.bind_eq_ok]
    constructor
    · rintro ⟨rest, hrest, hsets⟩
      exact ⟨x, rest, rfl, hrest, (Except.ok.inj hsets).symm⟩
    · rintro ⟨_, rest, ⟨⟩, hrest, rfl⟩
      exact ⟨rest, hrest, rfl⟩

theorem names_of_parameters {q : List (String × Encoded)} (h : parameters q = .ok sets) :
    sets.map Prod.fst = q.map Prod.fst := by
  induction q generalizing sets with
  | nil =>
    obtain rfl := Except.ok.inj h
    rfl
  | cons clause q ih =>
    obtain ⟨x, rest, -, hrest, rfl⟩ := parameters_cons_eq_ok.mp h
    rw [List.map_cons, List.map_cons, ih hrest]

theorem mem_of_parameters {q : List (String × Encoded)} (h : parameters q = .ok sets)
    {encoded : Encoded} (hmem : (name, encoded) ∈ q) :
    ∃ x, encoded.parameter? = some x ∧ (name, x) ∈ sets := by
  induction q generalizing sets with
  | nil => cases hmem
  | cons clause q ih =>
    obtain ⟨x, rest, hx, hrest, rfl⟩ := parameters_cons_eq_ok.mp h
    rcases List.mem_cons.mp hmem with rfl | hmem
    · exact ⟨x, hx, List.mem_cons_self⟩
    · obtain ⟨y, hy, hset⟩ := ih hrest hmem
      exact ⟨y, hy, List.mem_cons_of_mem _ hset⟩

theorem exists_of_parameters_append {a b : List (String × Encoded)}
    (h : parameters (a ++ b) = .ok sets) :
    ∃ base rest, parameters a = .ok base ∧ parameters b = .ok rest ∧ sets = base ++ rest := by
  induction a generalizing sets with
  | nil => exact ⟨[], sets, rfl, h, rfl⟩
  | cons clause a ih =>
    obtain ⟨x, rest, hx, hrest, rfl⟩ := parameters_cons_eq_ok.mp h
    obtain ⟨base, last, hbase, hlast, rfl⟩ := ih hrest
    exact ⟨_, last, parameters_cons_eq_ok.mpr ⟨x, base, hx, hbase, rfl⟩, hlast, rfl⟩

theorem toSql_eq_ok {q : List (String × Encoded)} :
    toSql q = .ok sets ↔ q ≠ [] ∧ parameters q = .ok sets := by
  rw [toSql]
  cases q <;> simp

/-- The parameters can be made when each can. -/
theorem exists_parameters_iff {q : List (String × Encoded)} :
    (∃ sets, parameters q = .ok sets) ↔ ∀ clause ∈ q, ∃ x, clause.2.parameter? = some x := by
  induction q with
  | nil => simp [parameters]
  | cons clause q ih =>
    obtain ⟨name, encoded⟩ := clause
    rw [List.forall_mem_cons, ← ih, parameters]
    cases hx : encoded.parameter? with
    | none => simp
    | some x => simp [Go.bind_eq_ok]

end Clauses

/-! ## Columns that are set -/

theorem assign_append (a b : List (String × SqlValue)) (columns : String → SqlValue) :
    assign s (a ++ b) columns = assign s b (assign s a columns) := by
  induction a generalizing columns with
  | nil => rfl
  | cons set a ih => exact ih _

theorem assign_of_notMem (h : name ∉ sets.map Prod.fst) :
    assign s sets columns name = columns name := by
  induction sets generalizing columns with
  | nil => rfl
  | cons set sets ih =>
    rw [List.map_cons, List.mem_cons, not_or] at h
    rw [assign, ih h.2, Function.update_of_ne h.1]

theorem assign_of_mem (hnodup : (sets.map Prod.fst).Nodup) (h : (name, x) ∈ sets) :
    assign s sets columns name = (columnType s name).store x := by
  induction sets generalizing columns with
  | nil => cases h
  | cons set sets ih =>
    rw [List.map_cons, List.nodup_cons] at hnodup
    rcases List.mem_cons.mp h with rfl | hmem
    · rw [assign, assign_of_notMem hnodup.1, Function.update_self]
    · exact ih hnodup.2 hmem

omit [TextEngine] in
theorem columnType_eq (hs : HasTable s) (hp : property ∈ s.properties) :
    columnType s property.id = (handler property.type).dataType := by
  rw [columnType]
  cases hfind : s.properties.find? (·.id == property.id) with
  | none =>
    rw [List.find?_eq_none] at hfind
    exact absurd (beq_self_eq_true property.id) (hfind property hp)
  | some other =>
    have hid : other.id = property.id := by simpa using List.find?_some hfind
    obtain rfl := List.inj_on_of_nodup_map hs.nodup (List.mem_of_find?_eq_some hfind) hp hid
    rfl

omit [TextEngine] in
/-- The statement can be sent when the driver takes every value that the resource has. -/
theorem exists_toSql_iff (hid : resource.properties.lookup "id" ≠ none)
    (hs : HasTable resource.schema) : (∃ sets, toSql (updateQuery resource) = .ok sets) ↔
      ∀ property ∈ resource.schema.properties, ∀ v,
        resource.properties.lookup property.id = some v →
          ∃ x, ((handler property.type).encode v).parameter? = some x := by
  obtain ⟨id, hid⟩ := Option.ne_none_iff_exists'.mp hid
  obtain ⟨idProperty, -, hmem, hname⟩ := Schema.getPropertyByID_of_has hs.id
  have hclause := mem_setClauses.mpr ⟨idProperty, hmem, id, hname ▸ hid, rfl, rfl⟩
  have hne : updateQuery resource ≠ [] := by
    rw [updateQuery]
    split
    · simp
    · exact List.ne_nil_of_mem hclause
  simp only [toSql_eq_ok, hne, ne_eq, not_false_eq_true, true_and]
  have hsets : (∀ clause ∈ setClauses resource.properties resource.schema.properties,
      ∃ x, clause.2.parameter? = some x) ↔ ∀ property ∈ resource.schema.properties, ∀ v,
        resource.properties.lookup property.id = some v →
          ∃ x, ((handler property.type).encode v).parameter? = some x := by
    constructor
    · intro h property hp v hv
      exact h _ (mem_setClauses.mpr ⟨property, hp, v, hv, rfl, rfl⟩)
    · rintro h ⟨name, encoded⟩ hmem
      obtain ⟨property, hp, v, hv, -, rfl⟩ := mem_setClauses.mp hmem
      exact h property hp v hv
  rw [exists_parameters_iff, ← hsets, updateQuery]
  split
  · -- the identifier of the parent is a string
    rw [List.forall_mem_append, and_iff_left_iff_imp]
    rintro - clause hclause
    rw [List.mem_singleton] at hclause
    exact ⟨.text (.chars resource.parentID), by rw [hclause]; rfl⟩
  · rfl

/-- The columns that the loop sets, and those it does not. -/
theorem assign_setClauses (hs : HasTable s) (hp : property ∈ s.properties)
    {data : GoMap ResourceValue} (h : parameters (setClauses data s.properties) = .ok sets)
    (columns : String → SqlValue) :
    (∀ v, data.lookup property.id = some v →
      ∃ x, ((handler property.type).encode v).parameter? = some x ∧
        assign s sets columns property.id = (handler property.type).dataType.store x) ∧
    (data.lookup property.id = none →
      assign s sets columns property.id = columns property.id) := by
  have hnames := names_of_parameters h
  have hnodup : (sets.map Prod.fst).Nodup :=
    hnames ▸ (sublist_names data s.properties).nodup hs.nodup
  constructor
  · intro v hv
    have hclause := mem_setClauses.mpr ⟨property, hp, v, hv, rfl, rfl⟩
    obtain ⟨x, hx, hset⟩ := mem_of_parameters h hclause
    refine ⟨x, hx, ?_⟩
    rw [← columnType_eq hs hp]
    exact assign_of_mem hnodup hset
  · intro hnone
    refine assign_of_notMem ?_
    rw [hnames, List.mem_map]
    rintro ⟨⟨name, encoded⟩, hmem, rfl⟩
    obtain ⟨other, -, v, hv, hname, -⟩ := mem_setClauses.mp hmem
    rw [show other.id = property.id from hname, hnone] at hv
    cases hv

/-- The identifier of the parent is set last. -/
theorem assign_updateQuery (h : toSql (updateQuery resource) = .ok sets)
    (columns : String → SqlValue) :
    ∃ base, parameters (setClauses resource.properties resource.schema.properties) = .ok base ∧
      assign resource.schema sets columns =
        if resource.schema.parent ≠ "" then
          Function.update (assign resource.schema base columns) resource.schema.parentPropertyID
            ((columnType resource.schema resource.schema.parentPropertyID).store
              (.text (.chars resource.parentID)))
        else assign resource.schema base columns := by
  obtain ⟨-, hparameters⟩ := toSql_eq_ok.mp h
  rw [updateQuery] at hparameters
  split at hparameters
  · next hparent =>
    obtain ⟨base, rest, hbase, hrest, rfl⟩ := exists_of_parameters_append hparameters
    obtain ⟨x, nothing, hx, hnothing, rfl⟩ := parameters_cons_eq_ok.mp hrest
    cases hx
    cases hnothing
    exact ⟨base, hbase, by rw [assign_append, if_pos hparent]; rfl⟩
  · next hparent => exact ⟨sets, hparameters, (if_neg hparent).symm⟩

/-! ## Changes of one row -/

/-- What an operation does to the row. -/
theorem changes_iff {P : (String → SqlValue) → Prop}
    (hrow : Under D rows (resource.properties.lookup "id") row) :
    Changes op D rows resource row P ↔ ∃ sets, toSql (updateQuery resource) = .ok sets ∧
      P (assign resource.schema sets row.columns) := by
  rw [Changes, Operation.perform_eq, write]
  constructor
  · rintro ⟨rows', hwrite, hall⟩
    obtain ⟨sets, hsets, hrows⟩ := Go.bind_eq_ok.mp hwrite
    obtain rfl := Except.ok.inj hrows
    rw [List.forall₂_map_right_iff, List.forall₂_same] at hall
    have hP := ((hall row hrow.mem).1 rfl).1
    rw [if_pos ((hrow.isRow row hrow.mem).mpr rfl)] at hP
    exact ⟨sets, hsets, hP⟩
  · rintro ⟨sets, hsets, hP⟩
    refine ⟨_, Go.bind_eq_ok.mpr ⟨sets, hsets, rfl⟩, ?_⟩
    rw [List.forall₂_map_right_iff, List.forall₂_same]
    intro other hother
    constructor
    · rintro rfl
      rw [if_pos ((hrow.isRow other hother).mpr rfl)]
      exact ⟨hP, rfl⟩
    · intro hne
      exact if_neg fun h ↦ hne ((hrow.isRow other hother).mp h)

/-- The columns of properties after a write, from what the resource has. -/
theorem column_of_toSql (hs : HasTable s) (hp : property ∈ s.properties)
    (h : toSql (updateQuery (Resource.newResource s m)) = .ok sets)
    (columns : String → SqlValue) :
    (IsParent s property.id → assign s sets columns property.id =
      .text (.chars (((m.lookup property.id).map stringOf).getD ""))) ∧
    (¬IsParent s property.id → ∀ v, m.lookup property.id = some v →
      ∃ x, ((handler property.type).encode v).parameter? = some x ∧
        assign s sets columns property.id = (handler property.type).dataType.store x) ∧
    (¬IsParent s property.id → m.lookup property.id = none →
      assign s sets columns property.id = columns property.id) := by
  obtain ⟨base, hbase, hassign⟩ := assign_updateQuery h columns
  rw [schema_newResource] at hbase hassign
  rw [hassign]
  have hloop := assign_setClauses hs hp hbase columns
  have hother (hnot : ¬IsParent s property.id) : (if s.parent ≠ "" then
      Function.update (assign s base columns) s.parentPropertyID
        ((columnType s s.parentPropertyID).store
          (.text (.chars (Resource.newResource s m).parentID)))
      else assign s base columns) property.id = assign s base columns property.id := by
    split
    · next hparent => exact Function.update_of_ne (fun hkey ↦ hnot ⟨hparent, hkey⟩) _ _
    · rfl
  refine ⟨?_, fun hnot ↦ ?_, fun hnot ↦ ?_⟩
  · rintro ⟨hparent, hkey⟩
    have hstore (c : ColumnType) (t : Text) : c.store (.text t) = .text t := by cases c <;> rfl
    rw [if_pos hparent, hkey, Function.update_self, hstore, parentID_newResource, if_pos hparent]
  · rw [hother hnot]
    rw [lookup_newResource, if_neg hnot] at hloop
    exact hloop.1
  · rw [hother hnot]
    rw [lookup_newResource, if_neg hnot] at hloop
    exact hloop.2

/-! ## Writing any map -/

/-- What the columns and the values must be like for a write to do what it should: every value
comes back from its column, and none is a null that is written as a JSON text; the identifier of the
parent is a string, or what an empty string is read as; and if it is missing, it is empty. -/
structure Writable (s : Schema) (m : GoMap ResourceValue) (row : StoredRow) : Prop where
  values : ∀ property ∈ s.properties, ¬IsParent s property.id → ∀ v,
    m.lookup property.id = some v →
      v.Survives property.type ∧ (handler property.type = .json → v.plain ≠ .nil)
  parent : s.parent ≠ "" → ∀ v, m.lookup s.parentPropertyID = some v →
    v.plain = .str (stringOf v) ∨ v.plain.json = .float 0
  noParent : s.parent ≠ "" → m.lookup s.parentPropertyID = none →
    row.columns s.parentPropertyID = .text (.chars "")

section Values

variable {type : String} {v : ResourceValue}

/-- Null is encoded into null, but by the handler for JSON. -/
theorem parameter_of_plain_nil (hv : Allowed type v) (hsurvives : v.Survives type)
    (hnil : v.plain = .nil) (hjson : handler type ≠ .json) :
    ((handler type).encode v).parameter? = some .null := by
  have hmaybe {α : Type} (m : Maybe α) (ofValue : α → Value) (hm : m.hasValue = false) :
      (Handler.encodeMaybe m ofValue).parameter? = some .null := by
    rw [Handler.parameter?_encodeMaybe, hm]
    rfl
  cases hv with
  | null =>
    cases h : handler type with
    | json => exact absurd h hjson
    | _ => rfl
  | maybeString m => exact hmaybe m .str hsurvives
  | maybeBool m => exact hmaybe m .bool hsurvives
  | maybeInt m => exact hmaybe m .int hsurvives
  | maybeFloat m => exact hsurvives.elim
  | _ => cases hnil

/-- A value that has a parameter is in its column as it should, or not. -/
theorem written_iff (hv : Allowed type v) (hx : ((handler type).encode v).parameter? = some x) :
    ((handler type).ReadsBack ((handler type).dataType.store x) v.plain ∧
        (v.plain = .nil → (handler type).dataType.store x = .null)) ↔
      v.Survives type ∧ (handler type = .json → v.plain ≠ .nil) := by
  rw [← Handler.roundTrips_iff_of_parameter hx, handler_roundTrips_iff hv]
  refine and_congr_right fun hsurvives ↦ ?_
  by_cases hjson : handler type = .json
  · rw [forall_prop_of_true hjson]
    rw [hjson] at hx ⊢
    cases hx
    exact ⟨fun h hnil ↦ absurd (h hnil) (by rintro ⟨⟩), fun h hnil ↦ absurd hnil h⟩
  · refine iff_of_true (fun hnil ↦ ?_) fun h ↦ absurd h hjson
    rw [parameter_of_plain_nil hv hsurvives hnil hjson] at hx
    cases hx
    cases handler type <;> rfl

/-- The plain values of the properties of a handler. -/
inductive Plain : Handler → Value → Prop where
  | nil (h : Handler) : Plain h .nil
  | string (t : String) : Plain .string (.str t)
  | bool (b : Bool) : Plain .bool (.bool b)
  | integer (n : ℤ) : Plain .integer (.int n)
  | whole (q : ℚ) : Plain .integer (.float q)
  | number (q : ℚ) : Plain .number (.float q)
  | integral (n : ℤ) : Plain .number (.int n)
  | map (m : List (String × Value)) : Plain .json (.map m)
  | list (vs : List Value) : Plain .json (.list vs)
  | strs (ss : List String) : Plain .json (.strs ss)

omit [TextEngine] in
theorem plain_of_allowed (hv : Allowed type v) : Plain (handler type) v.plain := by
  have hmaybe {α : Type} (h : Handler) (m : Maybe α) (ofValue : α → Value)
      (hvalue : ∀ a, Plain h (ofValue a)) : Plain h (m.plain ofValue) := by
    rw [Maybe.plain]
    split
    · exact hvalue _
    · exact .nil h
  cases hv with
  | null => exact .nil _
  | string t => exact .string t
  | boolean b => exact .bool b
  | integer n => exact .integer n
  | whole n => exact .whole n
  | number q => exact .number q
  | integral n => exact .integral n
  | object m => exact .map m
  | array vs => exact .list vs
  | strings ss => exact .strs ss
  | maybeString m => exact hmaybe _ m _ .string
  | maybeBool m => exact hmaybe _ m _ .bool
  | maybeInt m => exact hmaybe _ m _ .integer
  | maybeFloat m => exact hmaybe _ m _ .number

/-- What a string is read as, in any column. -/
theorem decodesTo_chars_iff {h : Handler} {w : Value} (hw : Plain h w) (hne : w ≠ .nil)
    (t : String) : h.DecodesTo (.text (.chars t)) w ↔ w = .str t ∨ w.json = .float 0 := by
  rw [Handler.DecodesTo]
  cases hw with
  | nil => exact absurd rfl hne
  | string u => simp [Handler.decode, Text.toString, Value.json, eq_comm]
  | bool b => simp [Handler.decode, Text.parseUint, Text.number?, Value.json]
  | integer n =>
    simp [Handler.decode, Text.parseInt, Text.number?, Value.json, eq_comm (a := (0 : ℚ))]
  | whole q =>
    simp [Handler.decode, Text.parseInt, Text.number?, Value.json, eq_comm (a := (0 : ℚ))]
  | number q => simp [Handler.decode, Text.parseFloat, Text.number?, Value.json, eq_comm]
  | integral n =>
    simp [Handler.decode, Text.parseFloat, Text.number?, Value.json, eq_comm (a := (0 : ℚ))]
  | map m => simp [Handler.decode, Text.unmarshal, Value.json]
  | list vs => simp [Handler.decode, Text.unmarshal, Value.json]
  | strs ss => simp [Handler.decode, Text.unmarshal, Value.json]

/-- What the string of an identifier is read as. -/
theorem written_parent_iff (hv : Allowed type v) :
    ((handler type).ReadsBack (.text (.chars (stringOf v))) v.plain ∧
        (v.plain = .nil → SqlValue.text (.chars (stringOf v)) = .null)) ↔
      v.plain = .str (stringOf v) ∨ v.plain.json = .float 0 := by
  by_cases hnil : v.plain = .nil
  · rw [hnil]
    refine iff_of_false (fun h ↦ absurd (h.2 rfl) (by rintro ⟨⟩)) ?_
    rintro (⟨⟨⟩⟩ | ⟨⟨⟩⟩)
  · rw [Handler.readsBack_text_iff, and_iff_left fun h ↦ absurd h hnil]
    exact decodesTo_chars_iff (plain_of_allowed hv) hnil _

end Values

section Any

omit [TextEngine]

theorem Under.newResource (hrow : Under D rows (m.lookup "id") row) :
    Under D rows ((Resource.newResource s m).properties.lookup "id") row :=
  (lookup_newResource_id s m).symm ▸ hrow

theorem parameter_string (h : Handler) (t : String) :
    ∃ x, (h.encode (.value (.str t))).parameter? = some x := by
  cases h <;> exact ⟨_, rfl⟩

/-- The statement for a map of values that all have parameters. -/
theorem exists_toSql_newResource (hs : HasTable s) (hid : m.lookup "id" ≠ none)
    (hvalues : ∀ property ∈ s.properties, ¬IsParent s property.id → ∀ v,
      m.lookup property.id = some v →
        ∃ x, ((handler property.type).encode v).parameter? = some x) :
    ∃ sets, toSql (updateQuery (Resource.newResource s m)) = .ok sets := by
  refine (exists_toSql_iff ?_ ?_).mpr fun property hp v hv ↦ ?_
  · rwa [lookup_newResource_id]
  · rwa [schema_newResource]
  · rw [schema_newResource] at hp
    rw [lookup_newResource] at hv
    split at hv
    · obtain ⟨u, -, rfl⟩ := Option.map_eq_some_iff.mp hv
      exact parameter_string _ _
    · next hnot => exact hvalues property hp hnot v hv

theorem exists_parentProperty (hs : HasTable s) (hparent : s.parent ≠ "") :
    ∃ property ∈ s.properties, property.id = s.parentPropertyID := by
  obtain ⟨property, -, hp, hkey⟩ := Schema.getPropertyByID_of_has (hs.parent hparent)
  exact ⟨property, hp, hkey⟩

end Any

/-- When a write does to the row what the map says. -/
theorem writes_iff (hs : HasTable s) (hm : OfProperties s m) (hid : m.lookup "id" ≠ none)
    (hrow : Under D rows (m.lookup "id") row) :
    Changes op D rows (Resource.newResource s m) row (Writes s m row.columns) ↔
      Writable s m row := by
  have hallowed {property : Property} (hp : property ∈ s.properties) {v : ResourceValue}
      (hv : m.lookup property.id = some v) : Allowed property.type v := by
    obtain ⟨other, hother, hid, hallowed⟩ := hm _ v hv
    obtain rfl := List.inj_on_of_nodup_map hs.nodup hother hp hid
    exact hallowed
  rw [changes_iff hrow.newResource, schema_newResource]
  constructor
  · rintro ⟨sets, hsets, hwrites⟩
    refine ⟨fun property hp hnot v hv ↦ ?_, fun hparent v hv ↦ ?_, fun hparent hnone ↦ ?_⟩
    · obtain ⟨-, hcolumn, -⟩ := column_of_toSql hs hp hsets row.columns
      obtain ⟨x, hx, hstored⟩ := hcolumn hnot v hv
      have hwritten := hwrites.written property hp v hv
      rw [hstored] at hwritten
      exact (written_iff (hallowed hp hv) hx).mp hwritten
    · obtain ⟨property, hp, hkey⟩ := exists_parentProperty hs hparent
      obtain ⟨hcolumn, -⟩ := column_of_toSql hs hp hsets row.columns
      rw [← hkey] at hv
      have hwritten := hwrites.written property hp v hv
      rw [hcolumn ⟨hparent, hkey⟩, hv] at hwritten
      exact (written_parent_iff (hallowed hp hv)).mp hwritten
    · obtain ⟨property, hp, hkey⟩ := exists_parentProperty hs hparent
      obtain ⟨hcolumn, -⟩ := column_of_toSql hs hp hsets row.columns
      rw [← hkey] at hnone ⊢
      rw [← hwrites.kept property hp hnone, hcolumn ⟨hparent, hkey⟩, hnone]
      rfl
  · intro h
    obtain ⟨sets, hsets⟩ := exists_toSql_newResource hs hid fun property hp hnot v hv ↦ by
      have hsurvives := (h.values property hp hnot v hv).1
      obtain ⟨x, hx, -⟩ := (handler_roundTrips_iff (hallowed hp hv)).mpr hsurvives
      exact ⟨x, hx⟩
    refine ⟨sets, hsets, fun property hp v hv ↦ ?_, fun property hp hnone ↦ ?_⟩
    · obtain ⟨hparentColumn, hcolumn, -⟩ := column_of_toSql hs hp hsets row.columns
      by_cases hkey : IsParent s property.id
      · rw [hparentColumn hkey, hv]
        exact (written_parent_iff (hallowed hp hv)).mpr (h.parent hkey.1 v (hkey.2 ▸ hv))
      · obtain ⟨x, hx, hstored⟩ := hcolumn hkey v hv
        rw [hstored]
        exact (written_iff (hallowed hp hv) hx).mpr (h.values property hp hkey v hv)
    · obtain ⟨hparentColumn, -, hcolumn⟩ := column_of_toSql hs hp hsets row.columns
      by_cases hkey : IsParent s property.id
      · have hempty := h.noParent hkey.1 (hkey.2 ▸ hnone)
        rw [hparentColumn hkey, hnone, hkey.2, hempty]
        rfl
      · exact hcolumn hkey hnone

/-! ## Writing back what was read -/

/-- What is in the column of a property of the type. -/
inductive Holds : String → SqlValue → Prop where
  | null (type : String) : Holds type .null
  | string (t : String) : Holds "string" (.text (.chars t))
  | boolean (b : Bool) : Holds "boolean" (.bool b)
  | integer (n : ℤ) (h : IsInt64 n) : Holds "integer" (.int64 n)
  | number (q : ℚ) : Holds "number" (.float64 q)
  | json {type : String} (h : handler type = .json) (v : Value) : Holds type (.text (.json v))

section Reading

variable {type : String} {v : ResourceValue} {y : SqlValue} {data : String → SqlValue}
  {properties : List Property} {acc : GoMap ResourceValue}

/-- **What handlers encode is held by the columns.** -/
theorem holds_of_allowed (hv : Allowed type v)
    (hx : ((handler type).encode v).parameter? = some x) :
    Holds type ((handler type).dataType.store x) := by
  have hmaybe {α : Type} (m : Maybe α) (ofValue : α → Value)
      (h : (Handler.encodeMaybe m ofValue).parameter? = some x) : x = .null := by
    rw [Handler.parameter?_encodeMaybe] at h
    split at h
    · cases h
    · exact (Option.some.inj h).symm
  have hnull (h : x = .null) : Holds type ((handler type).dataType.store x) := by
    have hstore : (handler type).dataType.store .null = .null := by cases handler type <;> rfl
    rw [h, hstore]
    exact .null type
  cases hv with
  | null =>
    cases h : handler type with
    | json =>
      rw [h] at hx
      cases hx
      exact .json h .nil
    | _ =>
      rw [h] at hx hnull
      cases hx
      exact hnull rfl
  | string t => cases hx; exact .string t
  | boolean b => cases hx; exact .boolean b
  | integer n h => cases hx; exact .integer n h
  | whole n h =>
    cases hx
    exact Handler.store_whole h ▸ Holds.integer n h
  | number q => cases hx; exact .number q
  | integral n => cases hx; exact .number _
  | object m => cases hx; exact .json rfl _
  | array vs => cases hx; exact .json rfl _
  | strings ss => cases hx; exact .json rfl _
  | maybeString m => exact hnull (hmaybe m _ hx)
  | maybeBool m => exact hnull (hmaybe m _ hx)
  | maybeInt m => exact hnull (hmaybe m _ hx)
  | maybeFloat m => cases hx

omit [TextEngine] in
theorem isNull_eq (hx : Holds type x) (hy : Yields (handler type).dataType x y) :
    y.isNull = x.isNull := by
  cases hx with
  | null => rw [Handler.yields_null_iff.mp hy]
  | string t => rw [Handler.yields_text_iff.mp hy]
  | json h v => rw [Handler.yields_text_iff.mp hy]
  | boolean b => cases hy <;> rfl
  | integer n => cases hy <;> rfl
  | number q => cases hy <;> rfl

/-- A value that was read is encoded again, and gives what was in the column, unless its JSON text
has lost an integer. -/
theorem exists_rewritten (hx : Holds type x) (hne : x ≠ .null)
    (hy : Yields (handler type).dataType x y) {w : Value}
    (hw : ((handler type).decode y).1 = .value w) :
    ∃ x', ((handler type).encode (.value w)).parameter? = some x' ∧
      (content ((handler type).dataType.store x') = content x ↔
        ∀ v, x = .text (.json v) → v.Exact) := by
  have hplain {x : SqlValue} (hnot : ∀ v, x ≠ .text (.json v)) :
      content x = content x ↔ ∀ v, x = .text (.json v) → v.Exact :=
    iff_of_true rfl fun v hv ↦ absurd hv (hnot v)
  cases hx with
  | null => exact absurd rfl hne
  | string t =>
    obtain rfl := Handler.yields_text_iff.mp hy
    cases hw
    exact ⟨_, rfl, hplain (by rintro v ⟨⟩)⟩
  | json h v =>
    obtain rfl := Handler.yields_text_iff.mp hy
    rw [h] at hw ⊢
    cases hw
    refine ⟨_, rfl, ?_⟩
    show SqlValue.text (.json v.decode.json) = .text (.json v.json) ↔ _
    rw [SqlValue.text.injEq, Text.json.injEq, Value.json_decode, Value.decode_eq_json_iff]
    constructor
    · rintro hexact _ ⟨⟩
      exact hexact
    · exact fun hexact ↦ hexact v rfl
  | boolean b =>
    obtain rfl : Value.bool b = w := by
      have hdecode := congrArg Prod.fst (Handler.decode_boolean hy)
      exact Decoded.value.inj (hdecode.symm.trans hw)
    exact ⟨_, rfl, hplain (by rintro v ⟨⟩)⟩
  | integer n hn =>
    obtain rfl : Value.int n = w := by
      have hdecode := congrArg Prod.fst (Handler.decode_numeric hn hy)
      exact Decoded.value.inj (hdecode.symm.trans hw)
    exact ⟨_, rfl, hplain (by rintro v ⟨⟩)⟩
  | number q =>
    obtain rfl : Value.float q = w := by
      have hdecode := congrArg Prod.fst (Handler.decode_real hy)
      exact Decoded.value.inj (hdecode.symm.trans hw)
    exact ⟨_, rfl, hplain (by rintro v ⟨⟩)⟩

omit [TextEngine] in
theorem content_eq_iff (hy : ∀ v, y ≠ .text (.json v)) : content x = y ↔ x = y := by
  by_cases hx : ∃ v, x = .text (.json v)
  · obtain ⟨v, rfl⟩ := hx
    exact iff_of_false (fun h ↦ hy v.json h.symm) fun h ↦ hy v h.symm
  · rw [content.eq_2 x fun v hv ↦ hx ⟨v, hv⟩]

/-! ### The map of a row -/

theorem lookup_decodeRow_of_notMem (h : decodeRow data properties acc = some m)
    (hname : name ∉ properties.map (·.id)) : m.lookup name = acc.lookup name := by
  induction properties generalizing acc with
  | nil =>
    obtain rfl := Option.some.inj h
    rfl
  | cons property properties ih =>
    rw [List.map_cons, List.mem_cons, not_or] at hname
    rw [decodeRow] at h
    split at h
    · split at h
      · rw [ih h hname.2]
        exact AList.lookup_insert_ne hname.1
      · cases h
    · exact ih h hname.2

/-- What is read under the name of a property. -/
theorem lookup_decodeRow (h : decodeRow data properties acc = some m)
    (hnodup : (properties.map (·.id)).Nodup) (hp : property ∈ properties) :
    ((data property.id).isNull = false ∨ property.nullable = true → ∃ w,
      ((handler property.type).decode (data property.id)).1 = .value w ∧
        m.lookup property.id = some (.value w)) ∧
    ((data property.id).isNull = true → property.nullable = false →
      m.lookup property.id = acc.lookup property.id) := by
  induction properties generalizing acc with
  | nil => cases hp
  | cons first properties ih =>
    rw [List.map_cons, List.nodup_cons] at hnodup
    rw [decodeRow] at h
    rcases List.mem_cons.mp hp with rfl | hmem
    · split at h
      · next hread =>
        split at h
        · next w hw =>
          have hlookup := lookup_decodeRow_of_notMem h hnodup.1
          rw [AList.lookup_insert] at hlookup
          refine ⟨fun _ ↦ ⟨w, hw, hlookup⟩, fun hnull hnot ↦ ?_⟩
          rw [hnull, hnot] at hread
          simp at hread
        · cases h
      · next hread =>
        exact ⟨fun h ↦ absurd h hread, fun _ _ ↦ lookup_decodeRow_of_notMem h hnodup.1⟩
    · have hne : property.id ≠ first.id :=
        fun heq ↦ hnodup.1 (List.mem_map.mpr ⟨property, hmem, heq⟩)
      split at h
      · split at h
        · have hrest := ih h hnodup.2 hmem
          rwa [AList.lookup_insert_ne hne] at hrest
        · cases h
      · exact ih h hnodup.2 hmem

end Reading

/-- The map was read from the columns, in whatever form the driver returned them. -/
structure ReadFrom (s : Schema) (columns data : String → SqlValue) (m : GoMap ResourceValue) :
    Prop where
  holds : ∀ property ∈ s.properties, Holds property.type (columns property.id)
  id : columns "id" ≠ .null
  yields : ∀ property ∈ s.properties,
    Yields (handler property.type).dataType (columns property.id) (data property.id)
  decoded : decodeRow data s.properties ∅ = some m

/-- What the columns must be like for writing back to change none: no null that would be written as
a JSON text, no integer in a JSON text that would become another one, and a parent. -/
structure Rewritable (s : Schema) (columns : String → SqlValue) : Prop where
  null : ∀ property ∈ s.properties, handler property.type = .json →
    columns property.id = .null → property.nullable = false
  exact : ∀ property ∈ s.properties, ∀ v, columns property.id = .text (.json v) → v.Exact
  parent : s.parent ≠ "" → ∃ t, columns s.parentPropertyID = .text (.chars t)

section Fetched

variable {data : String → SqlValue}

/-- The values of a map that was read. -/
theorem lookup_of_readFrom (hs : HasTable s) (hread : ReadFrom s columns data m)
    (hp : property ∈ s.properties) :
    (columns property.id = .null → m.lookup property.id =
      if property.nullable then some (.value .nil) else none) ∧
    (columns property.id ≠ .null → ∃ w, m.lookup property.id = some (.value w) ∧
      ((handler property.type).decode (data property.id)).1 = .value w) := by
  have hnull := isNull_eq (hread.holds property hp) (hread.yields property hp)
  obtain ⟨hread', hskip⟩ := lookup_decodeRow hread.decoded hs.nodup hp
  constructor
  · intro hcolumn
    have hyields := hread.yields property hp
    rw [hcolumn] at hyields
    have hdata := Handler.yields_null_iff.mp hyields
    split
    · next hnullable =>
      obtain ⟨w, hw, hlookup⟩ := hread' (.inr hnullable)
      rw [hdata] at hw
      rw [hlookup]
      cases h : handler property.type <;> rw [h] at hw <;> cases hw <;> rfl
    · next hnullable =>
      rw [hdata] at hskip
      exact hskip rfl (by simpa using hnullable)
  · intro hcolumn
    have hne : (columns property.id).isNull = false := by
      cases h : columns property.id with
      | null => exact absurd h hcolumn
      | _ => rfl
    obtain ⟨w, hw, hlookup⟩ := hread' (.inl (hnull.trans hne))
    exact ⟨w, hlookup, hw⟩

/-- The string of an identifier comes back. -/
theorem lookup_of_chars (hs : HasTable s) (hread : ReadFrom s columns data m)
    (hp : property ∈ s.properties) {t : String} (ht : columns property.id = .text (.chars t)) :
    m.lookup property.id = some (.value (.str t)) := by
  have hholds := hread.holds property hp
  have hyields := hread.yields property hp
  obtain ⟨w, hlookup, hw⟩ := (lookup_of_readFrom hs hread hp).2 (by rw [ht]; rintro ⟨⟩)
  rw [ht] at hholds hyields
  rw [Handler.yields_text_iff.mp hyields] at hw
  generalize property.type = type at hholds hw
  cases hholds
  cases hw
  exact hlookup

/-- The column of the parent's identifier is as it was, if there is an identifier in it. -/
theorem content_parent_iff (hs : HasTable s) (hread : ReadFrom s columns data m)
    (hp : property ∈ s.properties) (hkey : IsParent s property.id)
    (hsets : toSql (updateQuery (Resource.newResource s m)) = .ok sets) :
    content (assign s sets columns property.id) = content (columns property.id) ↔
      ∃ t, columns property.id = .text (.chars t) := by
  rw [(column_of_toSql hs hp hsets columns).1 hkey, eq_comm]
  rw [show content (.text (.chars _)) = .text (.chars _) from rfl,
    content_eq_iff (by rintro v ⟨⟩)]
  constructor
  · exact fun h ↦ ⟨_, h⟩
  · rintro ⟨t, ht⟩
    rw [lookup_of_chars hs hread hp ht, ht]
    rfl

theorem content_other_iff (hs : HasTable s) (hread : ReadFrom s columns data m)
    (hp : property ∈ s.properties) (hnot : ¬IsParent s property.id)
    (hsets : toSql (updateQuery (Resource.newResource s m)) = .ok sets) :
    content (assign s sets columns property.id) = content (columns property.id) ↔
      (handler property.type = .json → columns property.id = .null → property.nullable = false) ∧
        ∀ v, columns property.id = .text (.json v) → v.Exact := by
  obtain ⟨-, hsome, hnone⟩ := column_of_toSql hs hp hsets columns
  obtain ⟨hnull, hvalue⟩ := lookup_of_readFrom hs hread hp
  by_cases hcolumn : columns property.id = .null
  · have hexact : ∀ v, columns property.id = .text (.json v) → v.Exact := by
      rw [hcolumn]
      rintro v ⟨⟩
    rw [and_iff_left hexact]
    cases hnullable : property.nullable with
    | false =>
      rw [hnullable] at hnull
      rw [hnone hnot (hnull hcolumn)]
      exact iff_of_true rfl fun _ _ ↦ rfl
    | true =>
      rw [hnullable] at hnull
      obtain ⟨x, hx, hstored⟩ := hsome hnot _ (hnull hcolumn)
      rw [hstored, hcolumn]
      cases h : handler property.type with
      | json =>
        rw [h] at hx
        cases hx
        exact iff_of_false (by rintro ⟨⟩) fun h ↦ by simpa using h rfl rfl
      | _ =>
        rw [h] at hx
        cases hx
        exact iff_of_true rfl (by rintro ⟨⟩)
  · rw [and_iff_right fun _ h ↦ absurd h hcolumn]
    obtain ⟨w, hlookup, hw⟩ := hvalue hcolumn
    obtain ⟨x, hx, hsame⟩ :=
      exists_rewritten (hread.holds property hp) hcolumn (hread.yields property hp) hw
    obtain ⟨x', hx', hstored⟩ := hsome hnot _ hlookup
    obtain rfl : x = x' := Option.some.inj (hx.symm.trans hx')
    rw [hstored]
    exact hsame

/-- Everything that was read can be written. -/
theorem exists_toSql_of_readFrom (hs : HasTable s) (hread : ReadFrom s columns data m) :
    ∃ sets, toSql (updateQuery (Resource.newResource s m)) = .ok sets := by
  obtain ⟨idProperty, -, hid, hname⟩ := Schema.getPropertyByID_of_has hs.id
  have hlookup := (lookup_of_readFrom hs hread hid).2 (hname ▸ hread.id)
  obtain ⟨w, hw, -⟩ := hlookup
  refine exists_toSql_newResource hs ?_ fun property hp _ v hv ↦ ?_
  · rw [← hname, hw]
    rintro ⟨⟩
  · obtain ⟨hnull, hvalue⟩ := lookup_of_readFrom hs hread hp
    by_cases hcolumn : columns property.id = .null
    · rw [hnull hcolumn] at hv
      split at hv
      · cases hv
        cases handler property.type <;> exact ⟨_, rfl⟩
      · cases hv
    · obtain ⟨w, hlookup, hw⟩ := hvalue hcolumn
      obtain ⟨x, hx, -⟩ :=
        exists_rewritten (hread.holds property hp) hcolumn (hread.yields property hp) hw
      obtain rfl : v = .value w := Option.some.inj (hv.symm.trans hlookup)
      exact ⟨x, hx⟩

/-- When writing back changes no column of a property. -/
theorem writeBack_iff (hs : HasTable s) (hread : ReadFrom s row.columns data m)
    (hrow : Under D rows (m.lookup "id") row) :
    Changes op D rows (Resource.newResource s m) row (SameColumns s row.columns) ↔
      Rewritable s row.columns := by
  rw [changes_iff hrow.newResource, schema_newResource]
  constructor
  · rintro ⟨sets, hsets, hsame⟩
    have hlocal {property : Property} (hp : property ∈ s.properties) :
        (handler property.type = .json → row.columns property.id = .null →
          property.nullable = false) ∧
        ∀ v, row.columns property.id = .text (.json v) → v.Exact := by
      by_cases hkey : IsParent s property.id
      · obtain ⟨t, ht⟩ := (content_parent_iff hs hread hp hkey hsets).mp (hsame property hp)
        rw [ht]
        exact ⟨by rintro - ⟨⟩, by rintro v ⟨⟩⟩
      · exact (content_other_iff hs hread hp hkey hsets).mp (hsame property hp)
    refine ⟨fun property hp ↦ (hlocal hp).1, fun property hp ↦ (hlocal hp).2, fun hparent ↦ ?_⟩
    obtain ⟨property, hp, hkey⟩ := exists_parentProperty hs hparent
    rw [← hkey]
    exact (content_parent_iff hs hread hp ⟨hparent, hkey⟩ hsets).mp (hsame property hp)
  · intro h
    obtain ⟨sets, hsets⟩ := exists_toSql_of_readFrom hs hread
    refine ⟨sets, hsets, fun property hp ↦ ?_⟩
    by_cases hkey : IsParent s property.id
    · exact (content_parent_iff hs hread hp hkey hsets).mpr (hkey.2 ▸ h.parent hkey.1)
    · exact (content_other_iff hs hread hp hkey hsets).mpr
        ⟨h.null property hp, h.exact property hp⟩

end Fetched

/-- **The values that are read from the columns after a write** are those of `updateRow`. -/
theorem readsBack_updateRow (hs : HasTable s) {data read : Dict}
    (hdata : ∀ key, m.lookup key = (data.lookup key).map .value)
    (hvalues : ∀ property ∈ s.properties, ∀ v, data.lookup property.id = some v →
      (handler property.type).RoundTrips (.value v))
    (hparent : ∀ property ∈ s.properties, IsParent s property.id → property.type = "string")
    (hread : ∀ property ∈ s.properties,
      (handler property.type).ReadsBack (columns property.id) (read.get property.id))
    (hsets : toSql (updateQuery (Resource.newResource s m)) = .ok sets)
    (hp : property ∈ s.properties) :
    (handler property.type).ReadsBack (assign s sets columns property.id)
      ((updateRow s data read).get property.id) := by
  obtain ⟨hparentColumn, hsome, hnone⟩ := column_of_toSql hs hp hsets columns
  by_cases hkey : IsParent s property.id
  · rw [hparentColumn hkey, hparent property hp hkey, updateRow, if_neg hkey.1, hkey.2,
      GoMap.get_insert_self, hdata]
    have hstring : (((data.lookup s.parentPropertyID).map ResourceValue.value).map stringOf).getD ""
        = (data.get s.parentPropertyID).maybeString := by
      rw [GoMap.get]
      cases data.lookup s.parentPropertyID with
      | none => rfl
      | some v => cases v <;> rfl
    rw [hstring]
    exact Handler.readsBack_string _
  · rw [get_updateRow (by rw [IsParent] at hkey; tauto)]
    cases hv : data.lookup property.id with
    | none =>
      rw [get_setColumns_of_none hv, hnone hkey (by rw [hdata, hv]; rfl)]
      exact hread property hp
    | some v =>
      obtain ⟨x, hx, hstored⟩ := hsome hkey (.value v) (by rw [hdata, hv]; rfl)
      have hany : s.properties.any (·.id == property.id) = true :=
        List.any_eq_true.mpr ⟨property, hp, beq_self_eq_true _⟩
      rw [get_setColumns_of_some hv, hany, hstored]
      exact (Handler.roundTrips_iff_of_parameter hx).mp (hvalues property hp v hv)

/-- **What `Update` and `StateUpdate` do to the columns**, for any map of values, and for a map that
was read from the row. -/
theorem operation_columns_iff (hs : HasTable s) (op : Operation) :
    (∀ m, OfProperties s m → m.lookup "id" ≠ none → Under D rows (m.lookup "id") row →
      (Changes op D rows (Resource.newResource s m) row (Writes s m row.columns) ↔
        Writable s m row)) ∧
    (∀ data m, ReadFrom s row.columns data m → Under D rows (m.lookup "id") row →
      (Changes op D rows (Resource.newResource s m) row (SameColumns s row.columns) ↔
        Rewritable s row.columns)) :=
  ⟨fun _ hm hid hrow ↦ writes_iff hs hm hid hrow, fun _ _ hread hrow ↦ writeBack_iff hs hread hrow⟩

end Engine

/-! ## A port of a network -/

theorem OfProperties.empty (s : Schema) : OfProperties s ∅ := by
  intro key v h
  cases h

theorem OfProperties.insert {s : Schema} {m : GoMap ResourceValue} (h : OfProperties s m)
    {property : Property} (hp : property ∈ s.properties) {v : ResourceValue}
    (hv : Allowed property.type v) : OfProperties s (m.insert property.id v) := by
  intro key u hu
  by_cases hkey : key = property.id
  · subst hkey
    rw [AList.lookup_insert] at hu
    exact ⟨property, hp, rfl, Option.some.inj hu ▸ hv⟩
  · rw [AList.lookup_insert_ne hkey] at hu
    exact h key u hu

/-- A comparison of texts. -/
def textIds : IdColumn where
  isRow x id := match x, id with
    | .text (.chars s), some (.value (.str t)) => s == t
    | _, _ => false

/-- Ports have a network for a parent. -/
def portOfNetwork : Schema where
  id := "port"
  singular := "port"
  plural := "ports"
  url := "/v1.0/ports"
  parent := "network"
  properties := [{ id := "id" }, { id := "name", nullable := true }, { id := "network_id" },
    { id := "fixed_ips", type := "array", nullable := true }]

/-- A port as it is stored. -/
def portRow : StoredRow where
  columns name := match name with
    | "id" => .text (.chars "port-1")
    | "name" => .text (.chars "eth0")
    | "network_id" => .text (.chars "net-1")
    | "fixed_ips" => .text (.json (.list []))
    | _ => .null

/-- The identifier and another name. -/
def renamedPort : GoMap ResourceValue :=
  ((∅ : GoMap ResourceValue).insert "id" (.value (.str "port-1"))).insert "name"
    (.value (.str "eth1"))

/-- The port with another name, in its network. -/
def renamedPortOfNetwork : GoMap ResourceValue :=
  renamedPort.insert "network_id" (.value (.str "net-1"))

/-- What is read from the row. -/
def fetchedPort : GoMap ResourceValue :=
  ((((∅ : GoMap ResourceValue).insert "id" (.value (.str "port-1"))).insert "name"
    (.value (.str "eth0"))).insert "network_id" (.value (.str "net-1"))).insert "fixed_ips"
    (.value (.list []))

theorem hasTable_port : HasTable portOfNetwork := ⟨by decide, by decide, fun _ ↦ by decide⟩

theorem ofProperties_renamedPort : OfProperties portOfNetwork renamedPort := by
  have hid : OfProperties portOfNetwork
      ((∅ : GoMap ResourceValue).insert "id" (.value (.str "port-1"))) :=
    @OfProperties.insert _ _ (.empty _) { id := "id" } (by simp [portOfNetwork]) _ (.string _)
  exact @OfProperties.insert _ _ hid { id := "name", nullable := true } (by simp [portOfNetwork]) _
    (.string _)

theorem ofProperties_renamedPortOfNetwork : OfProperties portOfNetwork renamedPortOfNetwork :=
  @OfProperties.insert _ _ ofProperties_renamedPort { id := "network_id" }
    (by simp [portOfNetwork]) _ (.string _)

theorem under_port {id : Option ResourceValue} (h : id = some (.value (.str "port-1"))) :
    Under textIds [portRow] id portRow where
  mem := List.mem_singleton.mpr rfl
  isRow other hother := by
    obtain rfl := List.mem_singleton.mp hother
    rw [h]
    exact iff_of_true (by decide) rfl

/-- A port whose network is named is renamed, and one that was fetched is written back as it was. -/
theorem operation_columns_port : letI := placeholders
    Changes .update textIds [portRow] (Resource.newResource portOfNetwork renamedPortOfNetwork)
      portRow (Writes portOfNetwork renamedPortOfNetwork portRow.columns) ∧
    Changes (.stateUpdate none) textIds [portRow] (Resource.newResource portOfNetwork fetchedPort)
      portRow (SameColumns portOfNetwork portRow.columns) := by
  let := placeholders
  constructor
  · refine ((operation_columns_iff hasTable_port .update).1 renamedPortOfNetwork
      ofProperties_renamedPortOfNetwork (by rintro ⟨⟩) (under_port rfl)).mpr ?_
    refine ⟨?_, fun _ v hv ↦ ?_, fun _ hnone ↦ ?_⟩
    · simp only [portOfNetwork, List.forall_mem_cons]
      have hstring (t : String) {v : ResourceValue}
          (hv : some (ResourceValue.value (.str t)) = some v) :
          v.Survives "string" ∧ (handler "string" = .json → v.plain ≠ .nil) := by
        obtain rfl := Option.some.inj hv
        exact ⟨fun _ ↦ trivial, by rintro ⟨⟩⟩
      exact ⟨fun _ v hv ↦ hstring _ hv, fun _ v hv ↦ hstring _ hv, fun _ v hv ↦ hstring _ hv,
        fun _ v hv ↦ (by cases hv), by rintro _ ⟨⟩⟩
    · obtain rfl : ResourceValue.value (.str "net-1") = v := Option.some.inj hv
      exact .inl rfl
    · cases hnone
  · refine ((operation_columns_iff hasTable_port (.stateUpdate none)).2 portRow.columns fetchedPort
      ⟨?_, by rintro ⟨⟩, ?_, rfl⟩ (under_port rfl)).mpr ⟨?_, ?_, fun _ ↦ ⟨"net-1", rfl⟩⟩
    · simp only [portOfNetwork, List.forall_mem_cons]
      exact ⟨.string _, .string _, .string _, .json rfl _, by rintro _ ⟨⟩⟩
    · simp only [portOfNetwork, List.forall_mem_cons]
      exact ⟨.text _ _, .text _ _, .text _ _, .text _ _, by rintro _ ⟨⟩⟩
    · simp only [portOfNetwork, List.forall_mem_cons]
      exact ⟨by rintro ⟨⟩, by rintro ⟨⟩, by rintro ⟨⟩, by rintro - ⟨⟩, by rintro _ ⟨⟩⟩
    · simp only [portOfNetwork, List.forall_mem_cons]
      exact ⟨by rintro v ⟨⟩, by rintro v ⟨⟩, by rintro v ⟨⟩, by rintro v ⟨⟩; trivial,
        by rintro _ ⟨⟩⟩

/-- A port is renamed by its identifier, and loses its network. -/
theorem not_operation_columns : letI := placeholders
    ¬∀ (D : IdColumn) (s : Schema) (rows : List StoredRow) (row : StoredRow)
      (m : GoMap ResourceValue) (op : Operation), HasTable s → OfProperties s m →
        m.lookup "id" ≠ none → Under D rows (m.lookup "id") row →
          Changes op D rows (Resource.newResource s m) row (Writes s m row.columns) := by
  let := placeholders
  intro h
  have hchanges := h textIds portOfNetwork [portRow] portRow renamedPort .update hasTable_port
    ofProperties_renamedPort (by rintro ⟨⟩) (under_port rfl)
  have hwritable := (writes_iff hasTable_port ofProperties_renamedPort (by rintro ⟨⟩)
    (under_port rfl)).mp hchanges
  have hempty := hwritable.noParent (by decide) rfl
  exact absurd (Text.chars.inj (SqlValue.text.inj hempty)) (by decide)

end Gohan.WriteBack
