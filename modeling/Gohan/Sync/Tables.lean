import Gohan.Sync.Event
import Gohan.Logic.Reach

/-!
# Tables

The rows of all tables, with their primary keys and foreign keys.  A row is found by the schema
whose table it is in and by the text of its `id`, and no two rows agree in both: a value of `Tables`
carries the proof.

`genTableCols` declares a foreign key for every property that refers to another schema.  Deleting a
row deletes the rows that refer to it through a key which cascades, those that refer to these, and
so on (`Tables.gone`); and it fails if a row that stays refers to a deleted one through another
key.  A database refuses operations for more reasons than are given here.  A transaction in which it
does is not committed.
-/

set_option autoImplicit false

namespace Gohan

/-- The columns of a table for given properties.  A column that is not given is NULL, and is read
back only where that is allowed. -/
def Schema.columns (s : Schema) (data : Dict) : Dict :=
  GoMap.ofList (s.properties.filterMap fun property ↦
    match data.get property.id with
    | .nil => if property.nullable then some (property.id, .nil) else none
    | v => some (property.id, v))

namespace Sync

/-! ## Foreign keys -/

/-- A column that refers to a table. -/
structure ForeignKey where
  column : String
  /-- The schema of the table referred to. -/
  table : String
  relationColumn : String
  onDeleteCascade : Bool

/-- The registered schemas, and what is read of a schema file only to create its table.  The switch
`cascade` makes every foreign key cascade. -/
structure Catalog where
  schemas : List Schema
  /-- The schemas are held in a map, by their identifiers. -/
  distinct : (schemas.map Schema.id).Nodup
  relationColumn : Schema → Property → String := fun _ _ ↦ ""
  onDeleteCascade : Schema → Property → Bool := fun _ _ ↦ false
  onParentDeleteCascade : Schema → Bool := fun _ ↦ false
  cascade : Bool := false

theorem Catalog.eq_of_id_eq (cat : Catalog) {s s' : Schema} (hs : s ∈ cat.schemas)
    (hs' : s' ∈ cat.schemas) (h : s.id = s'.id) : s = s' :=
  List.inj_on_of_nodup_map cat.distinct hs hs' h

/-- The relations of `genTableCols`. -/
def Catalog.foreignKeys (cat : Catalog) (s : Schema) : List ForeignKey :=
  s.properties.filterMap fun property ↦
    if property.relation = "" then none
    else
      (schemaByID cat.schemas property.relation).map fun foreignSchema ↦
        { column := property.id
          table := foreignSchema.id
          relationColumn :=
            if cat.relationColumn s property = "" then "id" else cat.relationColumn s property
          onDeleteCascade := cat.cascade || cat.onDeleteCascade s property ||
            (property.relation == s.parent && cat.onParentDeleteCascade s) }

variable [TextEngine]

/-! ## Rows -/

/-- A row: the resource and its version. -/
structure TableRow where
  resource : Resource
  configVersion : ℤ

namespace TableRow

/-- Does the row belong to a schema whose changes are logged? -/
def Synced (row : TableRow) : Prop := row.resource.schema.syncEventNeeded = true

/-- What a row is found by. -/
def key (row : TableRow) : String × String := (row.resource.schema.id, row.resource.ID)

/-- Is it the row with this identifier in the table of the schema? -/
def is (row : TableRow) (s : Schema) (resourceID : String) : Bool :=
  row.key == (s.id, resourceID)

/-- Does a foreign key that cascades, or one that does not, refer from the one row to the other? -/
def refersTo (cat : Catalog) (cascade : Bool) (child parent : TableRow) : Bool :=
  (cat.foreignKeys child.resource.schema).any fun foreignKey ↦
    let value := child.resource.properties.get foreignKey.column
    foreignKey.onDeleteCascade == cascade && foreignKey.table == parent.resource.schema.id &&
      value != .nil && value == parent.resource.properties.get foreignKey.relationColumn

/-- The row after `Update`.  The columns that are given are replaced, and with them the reference to
the parent; the primary key stays what it is. -/
def updated (row : TableRow) (resource : Resource) : TableRow :=
  let s := resource.schema
  let given := if s.parent = "" then resource.properties
    else resource.properties.insert s.parentPropertyID
      (.str (resource.properties.get s.parentPropertyID).maybeString)
  { resource := ⟨s, (s.columns (given ∪ row.resource.properties)).insert "id"
      (row.resource.properties.get "id")⟩
    configVersion := if s.stateVersioning then row.configVersion + 1 else row.configVersion }

end TableRow

/-- The resource as its row is read back. -/
def Resource.stored (resource : Resource) : Resource :=
  ⟨resource.schema, (resource.schema.columns resource.properties).insert "id"
    (resource.properties.get "id")⟩

@[simp] theorem Resource.stored_ID (resource : Resource) : resource.stored.ID = resource.ID := by
  simp [Resource.stored, Resource.ID]

theorem Resource.stored_path (resource : Resource) : resource.stored.path = resource.path := by
  rw [Resource.path, Resource.path, Resource.stored_ID]
  rfl

namespace TableRow

variable {row : TableRow} {resource : Resource}

theorem is_iff {s : Schema} {resourceID : String} :
    row.is s resourceID = true ↔ row.resource.schema.id = s.id ∧ row.resource.ID = resourceID := by
  simp [is, key]

theorem updated_ID (row : TableRow) (resource : Resource) :
    (row.updated resource).resource.ID = row.resource.ID := by
  simp [updated, Resource.ID]

/-- The row that an update is about keeps its key. -/
theorem updated_key (h : row.is resource.schema resource.ID = true) :
    (row.updated resource).key = row.key := by
  rw [key, updated_ID]
  exact Prod.ext (is_iff.mp h).1.symm rfl

theorem updated_path (h : row.is resource.schema resource.ID = true) :
    (row.updated resource).resource.path = resource.path := by
  rw [Resource.path, updated_ID, (is_iff.mp h).2]
  rfl

end TableRow

/-! ## The operations of a transaction -/

/-- The rows of all tables. -/
structure Tables where
  rows : List TableRow
  /-- The primary keys. -/
  primary : (rows.map TableRow.key).Nodup

namespace Tables

/-- There are no rows. -/
def empty : Tables := ⟨[], by simp⟩

/-- `Create`. -/
def create (db : Tables) (resource : Resource) : Go Tables :=
  if h : (resource.schema.id, resource.ID) ∈ db.rows.map TableRow.key then
    .errorf "UNIQUE constraint failed: %s.id" [.str resource.schema.id]
  else .ok
    { rows := db.rows ++ [⟨resource.stored, 1⟩]
      primary := by
        have hkey : (TableRow.mk resource.stored 1).key = (resource.schema.id, resource.ID) :=
          Prod.ext rfl resource.stored_ID
        rw [List.map_append, List.map_singleton, hkey]
        exact List.nodup_append.mpr ⟨db.primary, List.nodup_singleton _, fun k hk k' hk' heq ↦
          h (List.mem_singleton.mp hk' ▸ heq ▸ hk)⟩ }

/-- `Update`.  Without a row there is nothing to update, and that is no error. -/
def update (db : Tables) (resource : Resource) : Tables where
  rows := db.rows.map fun row ↦
    if row.is resource.schema resource.ID then row.updated resource else row
  primary := by
    have hkeys : (db.rows.map fun row ↦
        if row.is resource.schema resource.ID then row.updated resource else row).map TableRow.key =
          db.rows.map TableRow.key := by
      rw [List.map_map]
      refine List.map_congr_left fun row _ ↦ ?_
      simp only [Function.comp_apply]
      split
      · next h => exact TableRow.updated_key h
      · rfl
    rw [hkeys]
    exact db.primary

/-- `Fetch` and `StateFetch`. -/
def fetch (db : Tables) (s : Schema) (resourceID : String) : Go TableRow :=
  match db.rows.find? (·.is s resourceID) with
  | some row => .ok row
  | none => .errorf "resource not found"

/-- The rows that go with those in `targets`. -/
def gone (cat : Catalog) (db : Tables) (targets : TableRow → Bool) : TableRow → Bool :=
  Reach.closure (TableRow.refersTo cat true) db.rows targets

/-- `Delete` and `DeleteFilter`. -/
def delete (cat : Catalog) (db : Tables) (targets : TableRow → Bool) : Go Tables :=
  let staying := db.rows.filter fun row ↦ !db.gone cat targets row
  if staying.any fun child ↦ db.rows.any fun parent ↦
      db.gone cat targets parent && child.refersTo cat false parent then
    .errorf "FOREIGN KEY constraint failed"
  else .ok
    { rows := staying
      primary := db.primary.sublist (List.filter_sublist.map _) }

variable {cat : Catalog} {db db' : Tables} {resource : Resource} {row row' : TableRow}

theorem eq_of_key_eq (hrow : row ∈ db.rows) (hrow' : row' ∈ db.rows) (h : row.key = row'.key) :
    row = row' := List.inj_on_of_nodup_map db.primary hrow hrow' h

theorem create_eq_ok (h : db.create resource = .ok db') :
    (∀ row ∈ db.rows, row.key ≠ (resource.schema.id, resource.ID)) ∧
      db'.rows = db.rows ++ [⟨resource.stored, 1⟩] := by
  rw [create] at h
  split at h
  · cases h
  · next hnew =>
    cases h
    exact ⟨fun row hrow hkey ↦ hnew (List.mem_map.mpr ⟨row, hrow, hkey⟩), rfl⟩

theorem mem_update : row' ∈ (db.update resource).rows ↔ ∃ row ∈ db.rows,
    row' = if row.is resource.schema resource.ID then row.updated resource else row := by
  rw [update, List.mem_map]
  exact exists_congr fun row ↦ and_congr_right fun _ ↦ eq_comm

theorem fetch_eq_ok {s : Schema} {resourceID : String} :
    db.fetch s resourceID = .ok row ↔ row ∈ db.rows ∧ row.is s resourceID = true := by
  rw [fetch]
  constructor
  · intro h
    split at h
    · next hfind =>
      cases h
      exact ⟨List.mem_of_find?_eq_some hfind, by simpa using List.find?_some hfind⟩
    · cases h
  · rintro ⟨hmem, his⟩
    split
    · next row' hfind =>
      have hkey : row'.key = row.key := by
        have his' : row'.is s resourceID = true := by simpa using List.find?_some hfind
        rw [TableRow.is, beq_iff_eq] at his his'
        rw [his, his']
      rw [eq_of_key_eq (List.mem_of_find?_eq_some hfind) hmem hkey]
    · next hnone => exact absurd his (by simpa using List.find?_eq_none.mp hnone row hmem)

theorem mem_of_delete_eq_ok {targets : TableRow → Bool} (h : db.delete cat targets = .ok db') :
    row ∈ db'.rows ↔ row ∈ db.rows ∧ db.gone cat targets row = false := by
  rw [delete] at h
  split at h
  · cases h
  · cases h
    simp

theorem gone_of_target {targets : TableRow → Bool} (hrow : row ∈ db.rows)
    (h : targets row = true) : db.gone cat targets row = true :=
  (Reach.closure_iff hrow).mpr ⟨row, h, .refl⟩

/-- What is deleted with the rows in `targets`: the rows from which one of them can be reached. -/
theorem gone_iff {targets : TableRow → Bool} (hrow : row ∈ db.rows) :
    db.gone cat targets row = true ↔ ∃ target, targets target = true ∧ Relation.ReflTransGen
      (fun child parent ↦ child.refersTo cat true parent = true ∧ parent ∈ db.rows) row target :=
  Reach.closure_iff hrow

end Tables

end Sync

end Gohan
