import Gohan.Db.Fetch

/-!
# Writing a resource back

`Update` writes every property that the resource has a value for into the row under the resource's
identifier, and with a parent the identifier of that.  Properties without a value keep their
columns.

The columns a resource was read from are the properties it has (`get_rowResource`), unless a related
resource, when one is joined, is entered under the name of a property.
-/

set_option autoImplicit false

namespace Gohan

/-! ## Writing -/

/-- The loop of `updateQuery` over the properties. -/
def setColumns (data : Dict) : List Property → Dict → Dict
  | [], row => row
  | property :: properties, row =>
    match data.lookup property.id with
    | some value => setColumns data properties (row.insert property.id value)
    | none => setColumns data properties row

/-- What `updateQuery` makes of a row. -/
def updateRow (s : Schema) (data row : Dict) : Dict :=
  let row := setColumns data s.properties row
  if s.parent = "" then row
  else row.insert s.parentPropertyID (.str (data.get s.parentPropertyID).maybeString)

variable {s : Schema} {data row : Dict} {key : String}

theorem get_setColumns_of_none {properties : List Property} (h : data.lookup key = none) :
    (setColumns data properties row).get key = row.get key := by
  induction properties generalizing row with
  | nil => rfl
  | cons property properties ih =>
    rw [setColumns]
    split
    · next value hvalue =>
      have hne : key ≠ property.id := by
        rintro rfl
        cases h.symm.trans hvalue
      rw [ih, GoMap.get, AList.lookup_insert_ne hne, GoMap.get]
    · exact ih

theorem get_setColumns_of_some {properties : List Property} {value : Value}
    (h : data.lookup key = some value) : (setColumns data properties row).get key =
      if properties.any (·.id == key) then value else row.get key := by
  induction properties generalizing row with
  | nil => rfl
  | cons property properties ih =>
    rw [setColumns, List.any_cons]
    by_cases hk : property.id = key
    · rw [hk, h]
      simp [ih]
    · have hbeq : (property.id == key) = false := by simpa using hk
      rw [hbeq, Bool.false_or]
      split
      · rw [ih, GoMap.get, AList.lookup_insert_ne (Ne.symm hk), GoMap.get]
      · exact ih

theorem parentPropertyID_ne_id (s : Schema) (h : s.parent ≠ "") :
    s.parentPropertyID ≠ "id" := by
  intro heq
  have hlength := congrArg String.length heq
  rw [Schema.parentPropertyID, String.length_append] at hlength
  have hparent : s.parent.length = 0 := by
    have : "_id".length = 3 := rfl
    have : "id".length = 2 := rfl
    omega
  exact h (String.length_eq_zero_iff.mp hparent)

/-- The identifier of the parent has a column of its own. -/
theorem get_updateRow (h : s.parent = "" ∨ key ≠ s.parentPropertyID) :
    (updateRow s data row).get key = (setColumns data s.properties row).get key := by
  rw [updateRow]
  split
  · rfl
  · next hparent =>
    rw [GoMap.get, AList.lookup_insert_ne (h.resolve_left hparent), GoMap.get]

theorem get_updateRow_id : (updateRow s data row).get "id" =
    (setColumns data s.properties row).get "id" := by
  refine get_updateRow ?_
  by_cases h : s.parent = ""
  · exact .inl h
  · exact .inr (parentPropertyID_ne_id s h).symm

/-- The key of a row is not cleared. -/
theorem get_updateRow_id_ne_nil (hdata : data.lookup "id" ≠ some .nil)
    (hrow : row.get "id" ≠ .nil) : (updateRow s data row).get "id" ≠ .nil := by
  rw [get_updateRow_id]
  cases hid : data.lookup "id" with
  | none => rwa [get_setColumns_of_none hid]
  | some value =>
    rw [get_setColumns_of_some hid]
    split
    · rintro rfl
      exact hdata hid
    · exact hrow

namespace DB

/-- `Update`, of the row with an identifier. -/
def update (D : DB) (db : Database) (s : Schema) (data : Dict) (resourceID : String) :
    Go Database :=
  if hid : data.lookup "id" = some .nil then
    .errorf "NOT NULL constraint failed: %s.id" [.str (s.getDbTableName D.legacy)]
  else
    .ok fun name ↦
      if name = s.getDbTableName D.legacy then
        { rows := (db name).rows.map fun row ↦
            if D.server.eq (row.get "id") (.str resourceID) = .tt then updateRow s data row else row
          id_ne_nil := by
            intro row hrow
            obtain ⟨old, hold, rfl⟩ := List.mem_map.mp hrow
            have hne := (db name).id_ne_nil old hold
            split
            · exact get_updateRow_id_ne_nil hid hne
            · exact hne }
      else db name

variable {D : DB} {db db' : Database} {resourceID : String} {resource : Dict}

/-- What is in the table after an update. -/
theorem rows_update (h : D.update db s data resourceID = .ok db') :
    (db' (s.getDbTableName D.legacy)).rows = (db (s.getDbTableName D.legacy)).rows.map fun row ↦
      if D.server.eq (row.get "id") (.str resourceID) = .tt then updateRow s data row else row := by
  rw [update] at h
  split at h
  · exact absurd h (Go.errorf_ne_ok _ _ _)
  · cases h
    simp

/-- Two identifiers of the same row. -/
theorem update_congr {resourceID' : String}
    (h : ∀ row ∈ (db (s.getDbTableName D.legacy)).rows,
      D.server.eq (row.get "id") (.str resourceID) = .tt ↔
        D.server.eq (row.get "id") (.str resourceID') = .tt) :
    D.update db s data resourceID = D.update db s data resourceID' := by
  rw [update, update]
  split
  · rfl
  · refine congrArg Except.ok (funext fun name ↦ ?_)
    split
    · next hname =>
      subst hname
      congr 1
      refine List.map_congr_left fun row hrow ↦ ?_
      simp only [h row hrow]
    · rfl

/-- **The row under an identifier, after an update.** -/
theorem rowsUnder_update (h : D.update db s data resourceID = .ok db')
    (hkeep : ∀ row ∈ D.rowsUnder db s resourceID,
      D.server.eq ((updateRow s data row).get "id") (.str resourceID) = .tt) :
    D.rowsUnder db' s resourceID = (D.rowsUnder db s resourceID).map (updateRow s data) := by
  have hmem (row : Dict) (hrow : row ∈ (db (s.getDbTableName D.legacy)).rows)
      (hid : D.server.eq (row.get "id") (.str resourceID) = .tt) :
      D.server.eq ((updateRow s data row).get "id") (.str resourceID) = .tt :=
    hkeep row (mem_rowsUnder.mpr ⟨hrow, hid⟩)
  rw [rowsUnder, rows_update h, rowsUnder]
  generalize (db (s.getDbTableName D.legacy)).rows = rows at hmem
  induction rows with
  | nil => rfl
  | cons row rows ih =>
    rw [List.forall_mem_cons] at hmem
    rw [List.map_cons, List.filter_cons, List.filter_cons, ih hmem.2]
    by_cases hid : D.server.eq (row.get "id") (.str resourceID) = .tt
    · simp [hid, hmem.1 hid]
    · simp [hid]

/-! ## Reading -/

theorem get_decodeColumn {skipNil : Bool} {property : Property}
    (hdata : data.get key = .nil ∨ data.get key = row.get key) :
    (decodeColumn skipNil property true row data).get key =
      if property.id = key then row.get key else data.get key := by
  simp only [decodeColumn, if_true]
  split
  · by_cases hk : property.id = key
    · rw [if_pos hk, hk, GoMap.get_insert_self]
    · rw [if_neg hk, GoMap.get, AList.lookup_insert_ne (Ne.symm hk), GoMap.get]
  · next hnil =>
    push Not at hnil
    split
    · next hk =>
      subst hk
      rcases hdata with h | h
      · rw [h, hnil.1]
      · exact h
    · rfl

/-- What is decoded under the name of a column is the column. -/
theorem get_decode {relatedColumns : Schema → Go Columns} {schemas : List Schema} {join : Bool}
    {properties : List Property} {columns : Columns}
    (h : columnsOf relatedColumns schemas none join s properties = .ok columns)
    (hnames : join = true → ∀ property ∈ properties, property.relationProperty ≠ "" →
      property.relationProperty ≠ key)
    (hdata : data.get key = .nil ∨ data.get key = row.get key) :
    (D.decode db false columns row data).get key =
      if properties.any (·.id == key) then row.get key else data.get key := by
  induction properties generalizing columns data with
  | nil =>
    cases h
    rfl
  | cons property properties ih =>
    have hrest (hjoin : join = true) : ∀ property ∈ properties, property.relationProperty ≠ "" →
        property.relationProperty ≠ key :=
      fun p hp ↦ hnames hjoin p (List.mem_cons_of_mem _ hp)
    have hcolumn := @get_decodeColumn _ row _ false property hdata
    have hnext : (decodeColumn false property true row data).get key = .nil ∨
        (decodeColumn false property true row data).get key = row.get key := by
      rw [hcolumn]
      split
      · exact .inr rfl
      · exact hdata
    have hfinal {data' : Dict} (hsame : data'.get key =
        (decodeColumn false property true row data).get key) :
        (if properties.any (·.id == key) then row.get key else data'.get key) =
          if (property :: properties).any (·.id == key) then row.get key else data.get key := by
      rw [hsame, hcolumn, List.any_cons]
      by_cases hk : property.id = key <;> simp [hk]
    have hincluded : includes none s property = true := rfl
    obtain ⟨rest, hrestColumns, ⟨-, rfl⟩ | ⟨hjoined, related, inner, -, -, rfl⟩⟩ :=
      columnsOf_cons_eq_ok.mp h
    · rw [decode, hincluded, ih hrestColumns hrest hnext]
      exact hfinal rfl
    · have hne := hnames hjoined.2 property List.mem_cons_self hjoined.1
      rw [decode, hincluded]
      have hsame : ∀ value : Value, GoMap.get ((decodeColumn false property true row data).insert
          property.relationProperty value) key =
            (decodeColumn false property true row data).get key := by
        intro value
        rw [GoMap.get, AList.lookup_insert_ne hne.symm, GoMap.get]
      simp only [or_true, if_true]
      rw [ih hrestColumns hrest (by rw [hsame]; exact hnext)]
      exact hfinal (hsame _)

/-- The parent's identifier is read as a text; nothing else is changed. -/
theorem get_newResource (h : s.parent = "" ∨ key ≠ s.parentPropertyID ∨ ∃ text, data.get key =
    .str text) : (newResource s data).get key = data.get key := by
  rw [newResource]
  split
  · rfl
  · next hparent =>
    split
    · next parentID hparentID =>
      by_cases hk : key = s.parentPropertyID
      · subst hk
        obtain ⟨text, htext⟩ := (h.resolve_left hparent).resolve_left (fun hne ↦ hne rfl)
        rw [GoMap.get_insert_self, htext]
        rw [GoMap.get, hparentID] at htext
        cases htext
        rfl
      · rw [GoMap.get, AList.lookup_insert_ne hk, GoMap.get]
    · rfl

/-- **A property of a resource is the column of its row.** -/
theorem get_rowResource {join : Bool} (h : D.rowResource db s join row = .ok resource)
    (hkey : s.hasPropertyID key = true)
    (hnames : join = true → ∀ property ∈ s.properties, property.relationProperty ≠ "" →
      property.relationProperty ≠ key)
    (hparent : s.parent = "" ∨ key ≠ s.parentPropertyID ∨ ∃ text, row.get key = .str text) :
    resource.get key = row.get key := by
  obtain ⟨columns, hcolumns, ⟨⟩⟩ := Go.bind_eq_ok.mp h
  have hdecode : (D.decode db false columns row ∅).get key = row.get key := by
    rw [get_decode hcolumns hnames (.inl rfl)]
    exact if_pos hkey
  rw [resourceOf, get_newResource (by rwa [hdecode]), hdecode]

end DB

end Gohan
