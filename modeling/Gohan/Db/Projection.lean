import Gohan.Db.Select

/-!
# A resource with some of its columns

A query may ask for some columns only, and leave out the resources that a row refers to.  What is
decoded then is compared here with what is decoded of the same row when everything is asked for.

* `Columns.part` — the part of a resource that a query asks for.  With fields, a column that is NULL
  is left out, and so is a related resource of which nothing is left.
* `decode_eq_part` — this is what is decoded, when no two properties of a schema have the same name,
  nor a property and a related resource.
-/

set_option autoImplicit false

namespace Gohan

namespace Columns

/-- What is left of an entry: with fields, NULL is left out. -/
def kept (skipNil : Bool) (entry : Option Value) : Option Value :=
  entry.filter fun v ↦ v != .nil || !skipNil

/-- Enter what is left of the entry of a resource under a key. -/
def copyKey (skipNil : Bool) (key : String) (resource data : Dict) : Dict :=
  match kept skipNil (resource.lookup key) with
  | some v => data.insert key v
  | none => data

/-- Enter what is left of the related resource that a resource has under a key. -/
def copyRelated (skipNil : Bool) (relatedPart : Dict → Dict) (key : String)
    (resource data : Dict) : Dict :=
  match resource.lookup key with
  | some relatedResource =>
    let relatedData := relatedPart relatedResource.maybeMap
    if relatedData ≠ ∅ ∨ skipNil = false then data.insert key (.map relatedData.toList) else data
  | none => data

/-- The part of a resource that a query asks for, added to other data. -/
def part (skipNil : Bool) : Columns → Dict → Dict → Dict
  | .done, _, data => data
  | .plain property included rest, resource, data =>
    part skipNil rest resource
      (if included then copyKey skipNil property.id resource data else data)
  | .joined property _ inner included rest, resource, data =>
    part skipNil rest resource
      (copyRelated skipNil (fun relatedResource ↦ part skipNil inner relatedResource ∅)
        property.relationProperty resource
        (if included then copyKey skipNil property.id resource data else data))

/-- Is the column with a name asked for? -/
def asks : Columns → String → Bool
  | .done, _ => false
  | .plain property included rest, key => property.id == key && included || rest.asks key
  | .joined property _ _ included rest, key => property.id == key && included || rest.asks key

/-- The keys that a resource can have. -/
def names : Columns → List String
  | .done => []
  | .plain property _ rest => property.id :: rest.names
  | .joined property _ _ _ rest => property.id :: property.relationProperty :: rest.names

/-- Can the column with a name be NULL? -/
def canBeNull : Columns → String → Bool
  | .done, _ => false
  | .plain property _ rest, key => property.id == key && property.nullable || rest.canBeNull key
  | .joined property _ _ _ rest, key =>
    property.id == key && property.nullable || rest.canBeNull key

/-- The keys of the related resources. -/
def relations : Columns → List String
  | .done => []
  | .plain _ _ rest => rest.relations
  | .joined property _ _ _ rest => property.relationProperty :: rest.relations

/-- No two properties have the same name, and no related resource the name of a property, in the
schema and in those it refers to. -/
def Distinct : Columns → Prop
  | .done => True
  | .plain property _ rest => property.id ∉ rest.names ∧ rest.Distinct
  | .joined property _ inner _ rest => property.id ≠ property.relationProperty ∧
      property.id ∉ rest.names ∧ property.relationProperty ∉ rest.names ∧
        inner.Distinct ∧ rest.Distinct

/-- All columns are asked for. -/
def all : Columns → Bool
  | .done => true
  | .plain _ included rest => included && rest.all
  | .joined _ _ inner included rest => included && inner.all && rest.all

/-- Some column is asked for; a query without columns is not built. -/
def any : Columns → Bool
  | .done => false
  | .plain _ included rest => included || rest.any
  | .joined _ _ inner included rest => included || inner.any || rest.any

/-- The second asks for part of what the first does. -/
inductive Thins : Columns → Columns → Prop
  | done : Thins .done .done
  | plain {property : Property} {included included' : Bool} {rest rest' : Columns}
      (h : Thins rest rest') :
      Thins (.plain property included rest) (.plain property included' rest')
  | joined {property : Property} {related : Schema} {inner inner' : Columns}
      {included included' : Bool} {rest rest' : Columns} (hinner : Thins inner inner')
      (h : Thins rest rest') : Thins (.joined property related inner included rest)
        (.joined property related inner' included' rest')
  | unjoined {property : Property} {related : Schema} {inner : Columns}
      {included included' : Bool} {rest rest' : Columns} (h : Thins rest rest') :
      Thins (.joined property related inner included rest) (.plain property included' rest')

theorem Thins.relations_subset {columns columns' : Columns} (h : Thins columns columns') :
    columns'.relations ⊆ columns.relations := by
  induction h with
  | done => exact List.Subset.refl _
  | plain _ ih => exact ih
  | joined _ _ _ ih => exact List.cons_subset_cons _ ih
  | unjoined _ ih => exact List.subset_cons_of_subset _ ih

/-! ## The part of a resource -/

section Part

variable {skipNil : Bool} {columns : Columns} {resource data : Dict} {key : String}

theorem lookup_copyKey (id : String) : (copyKey skipNil id resource data).lookup key =
    if key = id then (kept skipNil (resource.lookup key)).or (data.lookup key)
      else data.lookup key := by
  rw [copyKey]
  by_cases hkey : key = id
  · subst hkey
    rw [if_pos rfl]
    cases kept skipNil (resource.lookup key) with
    | none => rfl
    | some v => exact AList.lookup_insert _
  · rw [if_neg hkey]
    cases kept skipNil (resource.lookup id) with
    | none => rfl
    | some v => exact AList.lookup_insert_ne hkey

theorem lookup_copyRelated_of_ne {relatedPart : Dict → Dict} {relation : String}
    (hkey : key ≠ relation) :
    (copyRelated skipNil relatedPart relation resource data).lookup key = data.lookup key := by
  rw [copyRelated]
  split
  · dsimp only
    split
    · exact AList.lookup_insert_ne hkey
    · rfl
  · rfl

theorem lookup_copyRelated_congr {resource' data' : Dict} {relatedPart : Dict → Dict}
    {relation : String} (hsame : resource.lookup key = resource'.lookup key)
    (hdata : data.lookup key = data'.lookup key) :
    (copyRelated skipNil relatedPart relation resource data).lookup key =
      (copyRelated skipNil relatedPart relation resource' data').lookup key := by
  by_cases hkey : key = relation
  · subst hkey
    rw [copyRelated, copyRelated, ← hsame]
    cases resource.lookup key with
    | none => exact hdata
    | some relatedResource =>
      dsimp only
      split
      · rw [AList.lookup_insert, AList.lookup_insert]
      · exact hdata
  · rw [lookup_copyRelated_of_ne hkey, lookup_copyRelated_of_ne hkey, hdata]

/-- What the part has under a key depends on what the resource has under it. -/
theorem lookup_part_congr {resource' data' : Dict}
    (hsame : resource.lookup key = resource'.lookup key)
    (hdata : data.lookup key = data'.lookup key) :
    (columns.part skipNil resource data).lookup key =
      (columns.part skipNil resource' data').lookup key := by
  induction columns generalizing data data' with
  | done => exact hdata
  | plain property included rest ih =>
    refine ih ?_
    split
    · rw [lookup_copyKey, lookup_copyKey, hsame, hdata]
    · exact hdata
  | joined property related inner included rest _ ih =>
    refine ih (lookup_copyRelated_congr hsame ?_)
    split
    · rw [lookup_copyKey, lookup_copyKey, hsame, hdata]
    · exact hdata

/-- The part has nothing that the resource has not. -/
theorem lookup_part_of_none (hnone : resource.lookup key = none) :
    (columns.part skipNil resource data).lookup key = data.lookup key := by
  have hempty : (columns.part skipNil ∅ data).lookup key = data.lookup key := by
    induction columns generalizing data with
    | done => rfl
    | plain property included rest ih =>
      rw [part, ih]
      split
      · rfl
      · rfl
    | joined property related inner included rest _ ih =>
      rw [part, ih]
      show (if _ then copyKey skipNil property.id ∅ data else data).lookup key = data.lookup key
      split
      · rfl
      · rfl
  exact (lookup_part_congr (hnone.trans rfl) rfl).trans hempty

theorem lookup_ite_copyKey (id : String) (included : Bool) :
    (if included then copyKey skipNil id resource data else data).lookup key =
      if id == key && included then (kept skipNil (resource.lookup key)).or (data.lookup key)
        else data.lookup key := by
  cases included with
  | false => rw [Bool.and_false]; rfl
  | true =>
    rw [Bool.and_true, if_pos rfl, lookup_copyKey]
    simp only [beq_iff_eq, eq_comm (a := key)]

/-- Entering a value twice is entering it once. -/
theorem ite_or_ite_or {α : Type} (v d : Option α) (shown later : Bool) :
    (if later then v.or (if shown then v.or d else d) else if shown then v.or d else d) =
      if shown || later then v.or d else d := by
  cases shown <;> cases later <;> simp [← Option.or_assoc]

/-- **Under the key of a column the part has what is left of the entry**, if it is asked for. -/
theorem lookup_part_of_notMem_relations (hkey : key ∉ columns.relations) :
    (columns.part skipNil resource data).lookup key =
      if columns.asks key then (kept skipNil (resource.lookup key)).or (data.lookup key)
        else data.lookup key := by
  induction columns generalizing data with
  | done => rfl
  | plain property included rest ih =>
    rw [part, ih hkey, lookup_ite_copyKey, asks, ite_or_ite_or]
  | joined property related inner included rest _ ih =>
    rw [relations, List.mem_cons, not_or] at hkey
    rw [part, ih hkey.2, lookup_copyRelated_of_ne hkey.1, lookup_ite_copyKey, asks, ite_or_ite_or]

end Part

/-! ## Columns of one schema -/

section Schemas

variable {schemas : List Schema} {fields : Option (List String)} {join : Bool}

/-- Without fields all columns are asked for. -/
theorem all_columnsOf {relatedColumns : Schema → Go Columns} {s : Schema}
    (hrelated : ∀ related columns, relatedColumns related = .ok columns → columns.all = true)
    {properties : List Property} {columns : Columns}
    (h : columnsOf relatedColumns schemas none join s properties = .ok columns) :
    columns.all = true := by
  induction properties generalizing columns with
  | nil =>
    obtain rfl := Except.ok.inj h
    rfl
  | cons property properties ih =>
    obtain ⟨rest, hrest, ⟨-, rfl⟩ | ⟨-, related, inner, -, hinner, rfl⟩⟩ :=
      columnsOf_cons_eq_ok.mp h
    · simp [all, includes, ih hrest]
    · simp [all, includes, hrelated _ _ hinner, ih hrest]

theorem all_makeColumns {depth : ℕ} {s : Schema} {columns : Columns}
    (h : makeColumns schemas none join depth s = .ok columns) : columns.all = true := by
  induction depth generalizing s columns with
  | zero => exact absurd h (Go.panicf_ne_ok _ _ _)
  | succ depth ih => exact all_columnsOf (fun _ _ ↦ ih) h

/-- **Fields and joins only take columns away.** -/
theorem exists_columnsOf {relatedColumns relatedColumns' : Schema → Go Columns} {s : Schema}
    (hrelated : ∀ related columns, relatedColumns related = .ok columns →
      ∃ columns', relatedColumns' related = .ok columns' ∧ Thins columns columns')
    {properties : List Property} {columns : Columns}
    (h : columnsOf relatedColumns schemas none true s properties = .ok columns) :
    ∃ columns', columnsOf relatedColumns' schemas fields join s properties = .ok columns' ∧
      Thins columns columns' := by
  induction properties generalizing columns with
  | nil =>
    obtain rfl := Except.ok.inj h
    exact ⟨.done, rfl, .done⟩
  | cons property properties ih =>
    obtain ⟨rest, hrest, ⟨hplain, rfl⟩ | ⟨hjoined, related, inner, hschema, hinner, rfl⟩⟩ :=
      columnsOf_cons_eq_ok.mp h
    · obtain ⟨rest', hrest', hthins⟩ := ih hrest
      have hplain' : ¬(property.relationProperty ≠ "" ∧ join = true) :=
        fun hboth ↦ hplain ⟨hboth.1, rfl⟩
      exact ⟨_, columnsOf_cons_eq_ok.mpr ⟨rest', hrest', .inl ⟨hplain', rfl⟩⟩, .plain hthins⟩
    · obtain ⟨rest', hrest', hthins⟩ := ih hrest
      obtain ⟨inner', hinner', hthins'⟩ := hrelated _ _ hinner
      cases join with
      | true =>
        exact ⟨_, columnsOf_cons_eq_ok.mpr
          ⟨rest', hrest', .inr ⟨⟨hjoined.1, rfl⟩, related, inner', hschema, hinner', rfl⟩⟩,
          .joined hthins' hthins⟩
      | false =>
        exact ⟨_, columnsOf_cons_eq_ok.mpr ⟨rest', hrest', .inl ⟨by simp, rfl⟩⟩,
          .unjoined hthins⟩

theorem exists_makeColumns {depth : ℕ} {s : Schema} {columns : Columns}
    (h : makeColumns schemas none true depth s = .ok columns) :
    ∃ columns', makeColumns schemas fields join depth s = .ok columns' ∧
      Thins columns columns' := by
  induction depth generalizing s columns with
  | zero => exact absurd h (Go.panicf_ne_ok _ _ _)
  | succ depth ih => exact exists_columnsOf (fun _ _ ↦ ih) h

end Schemas

end Columns

open Columns (copyKey copyRelated part Thins)

/-! ## What is decoded -/

namespace DB

variable {D : DB} {db : Database} {row : Dict} {key : String}

/-- The resource has what the row has in the columns, and the related resources. -/
def Decodes (D : DB) (db : Database) : Columns → Dict → Dict → Prop
  | .done, _, _ => True
  | .plain property _ rest, row, resource =>
    resource.lookup property.id = (if row.get property.id ≠ .nil ∨ property.nullable = true
      then some (row.get property.id) else none) ∧ Decodes D db rest row resource
  | .joined property related inner _ rest, row, resource =>
    resource.lookup property.id = (if row.get property.id ≠ .nil ∨ property.nullable = true
      then some (row.get property.id) else none) ∧
    (∃ relatedResource, resource.lookup property.relationProperty =
        some (.map (GoMap.toList relatedResource)) ∧
      Decodes D db inner (relatedRow D.server.toSqlEngine (db (related.getDbTableName D.legacy))
        (row.get property.id)) relatedResource) ∧ Decodes D db rest row resource

theorem Decodes.congr {columns : Columns} {resource resource' : Dict}
    (h : D.Decodes db columns row resource)
    (hsame : ∀ key, resource'.lookup key = resource.lookup key) :
    D.Decodes db columns row resource' := by
  induction columns with
  | done => trivial
  | plain property included rest ih => exact ⟨(hsame _).trans h.1, ih h.2⟩
  | joined property related inner included rest _ ih =>
    obtain ⟨hown, ⟨relatedResource, hrelated, hinner⟩, hrest⟩ := h
    exact ⟨(hsame _).trans hown, ⟨relatedResource, (hsame _).trans hrelated, hinner⟩, ih hrest⟩

theorem lookup_decodeColumn_of_ne {skipNil included : Bool} {property : Property} {data : Dict}
    (hkey : key ≠ property.id) :
    (decodeColumn skipNil property included row data).lookup key = data.lookup key := by
  simp only [decodeColumn]
  generalize (if included = true then row.get property.id else .nil) = value
  split
  · exact AList.lookup_insert_ne hkey
  · rfl

/-- Nothing else is entered. -/
theorem lookup_decode_of_notMem {skipNil : Bool} {columns : Columns} {data : Dict}
    (hkey : key ∉ columns.names) :
    (D.decode db skipNil columns row data).lookup key = data.lookup key := by
  induction columns generalizing data with
  | done => rfl
  | plain property included rest ih =>
    rw [Columns.names, List.mem_cons, not_or] at hkey
    rw [decode, ih hkey.2, lookup_decodeColumn_of_ne hkey.1]
  | joined property related inner included rest _ ih =>
    rw [Columns.names, List.mem_cons, List.mem_cons, not_or, not_or] at hkey
    rw [decode, ih hkey.2.2]
    split
    · rw [AList.lookup_insert_ne hkey.2.1, lookup_decodeColumn_of_ne hkey.1]
    · exact lookup_decodeColumn_of_ne hkey.1

theorem lookup_decodeColumn_self {property : Property} {data : Dict}
    (hnew : data.lookup property.id = none) :
    (decodeColumn false property true row data).lookup property.id =
      if row.get property.id ≠ .nil ∨ property.nullable = true then some (row.get property.id)
        else none := by
  simp only [decodeColumn, if_true, and_true]
  split
  · exact AList.lookup_insert _
  · exact hnew

/-- When everything is asked for, everything is there. -/
theorem decodes_decode {columns : Columns} (hdistinct : columns.Distinct)
    (hall : columns.all = true) {data : Dict}
    (hnew : ∀ key ∈ columns.names, data.lookup key = none) :
    D.Decodes db columns row (D.decode db false columns row data) := by
  induction columns generalizing data row with
  | done => trivial
  | plain property included rest ih =>
    obtain ⟨hid, hrest⟩ := hdistinct
    rw [Columns.all, Bool.and_eq_true] at hall
    obtain ⟨rfl, hall⟩ := hall
    refine ⟨?_, ih hrest hall fun key hkey ↦ ?_⟩
    · rw [decode, lookup_decode_of_notMem hid]
      exact lookup_decodeColumn_self (hnew _ List.mem_cons_self)
    · rw [lookup_decodeColumn_of_ne fun heq ↦ hid (heq ▸ hkey)]
      exact hnew key (List.mem_cons_of_mem _ hkey)
  | joined property related inner included rest ihinner ih =>
    obtain ⟨hne, hid, hrelation, hinner, hrest⟩ := hdistinct
    rw [Columns.all, Bool.and_eq_true, Bool.and_eq_true] at hall
    obtain ⟨⟨rfl, hallinner⟩, hall⟩ := hall
    refine ⟨?_, ⟨D.decode db false inner _ ∅, ?_, ihinner hinner hallinner fun _ _ ↦ ?_⟩,
      ih hrest hall fun key hkey ↦ ?_⟩
    · rw [decode, lookup_decode_of_notMem hid, if_pos (.inr rfl), AList.lookup_insert_ne hne]
      exact lookup_decodeColumn_self (hnew _ List.mem_cons_self)
    · rw [decode, lookup_decode_of_notMem hrelation, if_pos (.inr rfl), AList.lookup_insert]
    · exact AList.lookup_empty _
    · have hne' : key ≠ property.relationProperty := fun heq ↦ hrelation (heq ▸ hkey)
      have hid' : key ≠ property.id := fun heq ↦ hid (heq ▸ hkey)
      rw [if_pos (.inr rfl), AList.lookup_insert_ne hne', lookup_decodeColumn_of_ne hid']
      exact hnew key (List.mem_cons_of_mem _ (List.mem_cons_of_mem _ hkey))

theorem decodeColumn_eq_copyKey {skipNil included : Bool} {property : Property}
    {resource data : Dict} (hincluded : skipNil = false → included = true)
    (hlookup : resource.lookup property.id =
      if row.get property.id ≠ .nil ∨ property.nullable = true then some (row.get property.id)
        else none) :
    decodeColumn skipNil property included row data =
      if included then copyKey skipNil property.id resource data else data := by
  rw [copyKey, hlookup, decodeColumn]
  by_cases hnil : row.get property.id = .nil <;> cases included <;> cases skipNil <;>
    cases hnullable : property.nullable <;> simp_all [Columns.kept, Option.filter]

/-- **What is decoded is the part that is asked for.** -/
theorem decode_eq_part {skipNil : Bool} {columns columns' : Columns}
    (hthins : Thins columns columns') {resource : Dict}
    (hdecodes : D.Decodes db columns row resource)
    (hall : skipNil = false → columns'.all = true) (data : Dict) :
    D.decode db skipNil columns' row data = columns'.part skipNil resource data := by
  induction hthins generalizing row resource data with
  | done => rfl
  | @plain property included included' rest rest' h ih =>
    rw [decode, part, decodeColumn_eq_copyKey (fun hnone ↦ ?_) hdecodes.1]
    · refine ih hdecodes.2 (fun hnone ↦ ?_) _
      have hboth := hall hnone
      rw [Columns.all, Bool.and_eq_true] at hboth
      exact hboth.2
    · have hboth := hall hnone
      rw [Columns.all, Bool.and_eq_true] at hboth
      exact hboth.1
  | @joined property related inner inner' included included' rest rest' hinner h ihinner ih =>
    obtain ⟨hown, ⟨relatedResource, hrelated, hdecoded⟩, hrest⟩ := hdecodes
    have hparts : skipNil = false →
        (included' = true ∧ inner'.all = true) ∧ rest'.all = true := fun hnone ↦ by
      have hboth := hall hnone
      rwa [Columns.all, Bool.and_eq_true, Bool.and_eq_true] at hboth
    have hsame : ∀ key, (Value.map (GoMap.toList relatedResource)).maybeMap.lookup key =
        relatedResource.lookup key := GoMap.lookup_ofList_toList _
    rw [decode, part, decodeColumn_eq_copyKey (fun hnone ↦ (hparts hnone).1.1) hown]
    rw [copyRelated, hrelated]
    dsimp only
    rw [← ihinner (hdecoded.congr hsame) (fun hnone ↦ (hparts hnone).1.2)]
    exact ih hrest (fun hnone ↦ (hparts hnone).2) _
  | @unjoined property related inner included included' rest rest' h ih =>
    rw [decode, part, decodeColumn_eq_copyKey (fun hnone ↦ ?_) hdecodes.1]
    · refine ih hdecodes.2.2 (fun hnone ↦ ?_) _
      have hboth := hall hnone
      rw [Columns.all, Bool.and_eq_true] at hboth
      exact hboth.2
    · have hboth := hall hnone
      rw [Columns.all, Bool.and_eq_true] at hboth
      exact hboth.1

theorem lookup_decodeColumn_ne_nil {property : Property} {included : Bool} {data : Dict}
    (hsolid : (property.id == key && property.nullable) = false)
    (hdata : data.lookup key ≠ some .nil) :
    (decodeColumn false property included row data).lookup key ≠ some .nil := by
  by_cases hid : key = property.id
  · subst hid
    rw [beq_self_eq_true, Bool.true_and] at hsolid
    simp only [decodeColumn, hsolid]
    generalize (if included = true then row.get property.id else .nil) = value
    split
    · next hvalue =>
      rw [AList.lookup_insert]
      simpa using hvalue
    · exact hdata
  · rwa [lookup_decodeColumn_of_ne hid]

/-- A column that cannot be NULL is not there as NULL. -/
theorem lookup_decode_ne_nil {columns : Columns} {data : Dict}
    (hsolid : columns.canBeNull key = false) (hkey : key ∉ columns.relations)
    (hdata : data.lookup key ≠ some .nil) :
    (D.decode db false columns row data).lookup key ≠ some .nil := by
  induction columns generalizing data with
  | done => exact hdata
  | plain property included rest ih =>
    rw [Columns.canBeNull, Bool.or_eq_false_iff] at hsolid
    exact ih hsolid.2 hkey (lookup_decodeColumn_ne_nil hsolid.1 hdata)
  | joined property related inner included rest _ ih =>
    rw [Columns.canBeNull, Bool.or_eq_false_iff] at hsolid
    rw [Columns.relations, List.mem_cons, not_or] at hkey
    rw [decode, if_pos (.inr rfl)]
    refine ih hsolid.2 hkey.2 ?_
    rw [AList.lookup_insert_ne hkey.1]
    exact lookup_decodeColumn_ne_nil hsolid.1 hdata

end DB

/-- `NewResource` changes at most the identifier of the parent. -/
theorem lookup_newResource (s : Schema) (data : Dict) (key : String) :
    (newResource s data).lookup key = if s.parent ≠ "" ∧ key = s.parentPropertyID
      then (data.lookup key).map fun v ↦ .str v.maybeString else data.lookup key := by
  rw [newResource]
  by_cases hparent : s.parent = ""
  · rw [if_pos hparent, if_neg (fun hboth ↦ hboth.1 hparent)]
  · rw [if_neg hparent]
    by_cases hkey : key = s.parentPropertyID
    · subst hkey
      rw [if_pos ⟨hparent, rfl⟩]
      cases hlookup : data.lookup s.parentPropertyID with
      | none => exact hlookup
      | some v => exact AList.lookup_insert _
    · rw [if_neg fun hboth ↦ hkey hboth.2]
      cases data.lookup s.parentPropertyID with
      | none => rfl
      | some v => exact AList.lookup_insert_ne hkey

end Gohan
