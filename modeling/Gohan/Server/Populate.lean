import Gohan.Db.Initialize
import Gohan.Server.Put
import Gohan.Sync.Logger

/-!
# Filling the tables when the server starts

`CopyDBResources` goes through the schemas in the order of `OrderedSchemas`, and for each through
the resources that a file has for it; those that have no row yet are created, in one transaction.

A row may refer to others by foreign keys, and the database checks them at every statement.  In the
file the tables come in any order.  It is the order of the schemas that puts the rows which are
referred to first: so, apart from the values that a column does not take, all that matters is
whether the rows that are there and those that are to be added have among them what the new ones
refer to (`copyDBResources_spec`).
-/

set_option autoImplicit false

namespace Gohan.Sync.Populate

open Loading (Manager Registered)
open Precedence (Grounded grounded_append_iff foldlM_before)

variable [RegexpEngine] [TextEngine]

/-! ## The file -/

/-- `Initializer`: what has been read from the file. -/
structure Initializer where
  data : Dict

/-- `getTable`.  The empty table that it stores for a schema without one is not seen. -/
def Initializer.getTable (input : Initializer) (legacy : Bool) (s : Schema) : Go (List Value) :=
  match input.data.lookup (s.getDbTableName legacy) with
  | none => .ok []
  | some (.list table) => .ok table
  | some _ => .panicf "interface conversion: interface {} is not []interface {}"

/-- `List`. -/
def Initializer.list (input : Initializer) (legacy : Bool) (s : Schema) : Go (List Dict) := do
  let table ← input.getTable legacy s
  table.mapM fun rawData ↦
    match rawData with
    | .map data => .ok (newResource s (GoMap.ofList data))
    | _ => .panicf "interface conversion: interface {} is not map[string]interface {}"

/-! ## The database -/

/-- The database: the relations of the schemas, and what it takes for values. -/
structure Database extends Catalog where
  /-- Among these rows, does the database take the values of a resource?  There has to be a
  parameter for each, and a column may be one that is not NULL, or unique, or too short for the
  text. -/
  takes : List TableRow → Resource → Bool

/-- Is there a row for every foreign key of this one? -/
def resolves (cat : Catalog) (rows : List TableRow) (child : TableRow) : Bool :=
  (cat.foreignKeys child.resource.schema).all fun foreignKey ↦
    let value := child.resource.properties.get foreignKey.column
    value == .nil || rows.any fun parent ↦ parent.resource.schema.id == foreignKey.table &&
      value == parent.resource.properties.get foreignKey.relationColumn

/-- A statement after which a foreign key refers to no row fails. -/
def enforce (cat : Catalog) (tx : Tx) : Go Tx :=
  if tx.db.rows.all (resolves cat tx.db.rows) then .ok tx
  else .errorf "FOREIGN KEY constraint failed"

/-- `Create`: the values, the identifier and the foreign keys may all be refused. -/
def create (db : Database) (tx : Tx) (resource : Resource) : Go Tx :=
  if db.takes tx.db.rows resource then do
    enforce db.toCatalog (← tx.create resource)
  else .errorf "constraint failed"

/-- `Update`. -/
def update (db : Database) (tx : Tx) (resource : Resource) : Go Tx :=
  if db.takes tx.db.rows resource then do
    enforce db.toCatalog (← tx.update resource)
  else .errorf "constraint failed"

/-! ## The source -/

/-- A schema with all its properties, as `PopulateDefaults` reads it. -/
def nested (r : Registered) : NestedSchema where
  schema := Join.toSchema r
  properties := r.obj.Properties
  own_eq := rfl

/-- The body of the loop over the resources.  An error of `Fetch` is taken for a missing row. -/
def copyResource (db : Database) (overrideExisting : Bool) (r : Registered) (tx : Tx)
    (data : Dict) : Go Tx :=
  let resource : Resource := ⟨Join.toSchema r, data⟩
  match tx.db.fetch resource.schema resource.ID with
  | .error _ => do
    let data ← populateDefaultsOf (nested r) data
    create db tx ⟨resource.schema, data⟩
  | .ok _ => if overrideExisting then update db tx resource else .ok tx

/-- The loop over the schemas. -/
def copySchemas (db : Database) (legacy overrideExisting : Bool) (input : Initializer) :
    List Registered → Tx → Go Tx
  | [], tx => .ok tx
  | r :: schemas, tx =>
    if r.obj.isAbstract then copySchemas db legacy overrideExisting input schemas tx
    else do
      let resources ← input.list legacy (Join.toSchema r)
      let tx ← resources.foldlM (copyResource db overrideExisting r) tx
      copySchemas db legacy overrideExisting input schemas tx

/-- `CopyDBResources`, and what the database has afterwards: what the transaction has made of it, or
what it had before. -/
def copyDBResources (db : Database) (legacy overrideExisting : Bool) (input : Initializer)
    (schemas : List Registered) (tx : Tx) : Go Unit × Tx :=
  if schemas.isEmpty then
    (.errorf "No schemas in Manager. Did you remember to load them?", tx)
  else
    match copySchemas db legacy overrideExisting input schemas tx with
    | .ok tx' => (.ok (), tx')
    | .error fault => (.error fault, tx)

/-! ## What is to be added -/

/-- The resources of the file, each with its schema, in the order of the schemas. -/
def Initializer.fixtures (input : Initializer) (legacy : Bool) :
    List Registered → Go (List (Registered × Dict))
  | [] => .ok []
  | r :: schemas => do
    let resources ← input.list legacy (Join.toSchema r)
    let rest ← input.fixtures legacy schemas
    .ok (resources.map (fun data ↦ (r, data)) ++ rest)

/-- The identifier of a resource, and the table it belongs to. -/
def key (f : Registered × Dict) : String × String :=
  (f.1.obj.ID, (⟨Join.toSchema f.1, f.2⟩ : Resource).ID)

/-- The resource, with the defaults filled in. -/
def filled (f : Registered × Dict) : Resource where
  schema := Join.toSchema f.1
  properties := match populateDefaultsOf (nested f.1) f.2 with
    | .ok data => data
    | .error _ => f.2

/-- The row that is made of it. -/
def rowOf (f : Registered × Dict) : TableRow := ⟨(filled f).stored, 1⟩

/-- Those resources that have no row yet, the first of each identifier. -/
def missing : List TableRow → List (Registered × Dict) → List (Registered × Dict)
  | _, [] => []
  | rows, f :: fixtures =>
    if (rows.map TableRow.key).contains (key f) then missing rows fixtures
    else f :: missing (rows ++ [rowOf f]) fixtures

/-- The database takes the values of each resource, after those before it have got their rows. -/
def takesAll (db : Database) : List TableRow → List (Registered × Dict) → Bool
  | _, [] => true
  | rows, f :: new => db.takes rows (filled f) && takesAll db (rows ++ [rowOf f]) new

/-- The resource has an identifier, and its defaults can be filled in. -/
structure WellFormed (f : Registered × Dict) : Prop where
  id : ∃ text, f.2.lookup "id" = some (.str text)
  populates : ∃ data, populateDefaultsOf (nested f.1) f.2 = .ok data

omit [RegexpEngine] [TextEngine] in
theorem wellFormed_iff {f : Registered × Dict} : WellFormed f ↔
    ((f.2.lookup "id").bind Value.string?).isSome = true ∧
      (populateDefaultsOf (nested f.1) f.2).isOk = true := by
  constructor
  · rintro ⟨⟨text, hid⟩, data, hdata⟩
    rw [hid, hdata]
    exact ⟨rfl, rfl⟩
  · rintro ⟨hid, hdata⟩
    obtain ⟨text, htext⟩ := Option.isSome_iff_exists.mp hid
    obtain ⟨v, hv, hstring⟩ := Option.bind_eq_some_iff.mp htext
    cases v with
    | str id => exact ⟨⟨id, hv⟩, Go.exists_ok_of_isOk hdata⟩
    | _ => cases hstring

instance (f : Registered × Dict) : Decidable (WellFormed f) :=
  decidable_of_iff _ wellFormed_iff.symm

section Populate

variable {cat : Catalog} {db : Database} {legacy : Bool} {input : Initializer}
  {rows : List TableRow} {child : TableRow} {f : Registered × Dict}
  {fixtures : List (Registered × Dict)}

/-! ### Foreign keys -/

omit [RegexpEngine] [TextEngine] in
theorem resolves_iff : resolves cat rows child = true ↔
    ∀ foreignKey ∈ cat.foreignKeys child.resource.schema,
      child.resource.properties.get foreignKey.column ≠ .nil →
        ∃ parent ∈ rows, parent.resource.schema.id = foreignKey.table ∧
          child.resource.properties.get foreignKey.column =
            parent.resource.properties.get foreignKey.relationColumn := by
  rw [resolves, List.all_eq_true]
  refine forall₂_congr fun foreignKey _ ↦ ?_
  rw [Bool.or_eq_true, beq_iff_eq, List.any_eq_true, or_iff_not_imp_left]
  simp only [Bool.and_eq_true, beq_iff_eq, ne_eq]

omit [RegexpEngine] [TextEngine] in
theorem resolves_append {later : List TableRow} (h : resolves cat rows child = true) :
    resolves cat (rows ++ later) child = true := by
  rw [resolves_iff] at h ⊢
  intro foreignKey hkey hvalue
  obtain ⟨parent, hparent, hrefers⟩ := h foreignKey hkey hvalue
  exact ⟨parent, List.mem_append_left _ hparent, hrefers⟩

omit [RegexpEngine] [TextEngine] in
/-- Rows of tables that no foreign key is about do not matter. -/
theorem resolves_append_iff {later : List TableRow}
    (h : ∀ parent ∈ later, ∀ foreignKey ∈ cat.foreignKeys child.resource.schema,
      parent.resource.schema.id ≠ foreignKey.table) :
    resolves cat (rows ++ later) child = true ↔ resolves cat rows child = true := by
  refine ⟨fun hall ↦ ?_, resolves_append⟩
  rw [resolves_iff] at hall ⊢
  intro foreignKey hkey hvalue
  obtain ⟨parent, hparent, htable, heq⟩ := hall foreignKey hkey hvalue
  rcases List.mem_append.mp hparent with hparent | hparent
  · exact ⟨parent, hparent, htable, heq⟩
  · exact absurd htable (h parent hparent foreignKey hkey)

/-- All foreign keys refer to rows. -/
def Intact (cat : Catalog) (rows : List TableRow) : Prop :=
  ∀ row ∈ rows, resolves cat rows row = true

omit [RegexpEngine] [TextEngine] in
/-- Rows that are there stay intact. -/
theorem Intact.append_singleton (h : Intact cat rows) :
    Intact cat (rows ++ [child]) ↔ resolves cat (rows ++ [child]) child = true := by
  refine ⟨fun hall ↦ hall _ (List.mem_append_right _ (List.mem_singleton.mpr rfl)), ?_⟩
  intro hlast row hrow
  rcases List.mem_append.mp hrow with hrow | hrow
  · exact resolves_append (h row hrow)
  · rwa [List.mem_singleton.mp hrow]

omit [RegexpEngine] in
theorem enforce_eq_ok_iff {tx tx' : Tx} :
    enforce cat tx = .ok tx' ↔ Intact cat tx.db.rows ∧ tx = tx' := by
  rw [enforce]
  split
  · next hall =>
    have hintact : Intact cat tx.db.rows := List.all_eq_true.mp hall
    rw [and_iff_right hintact, Except.ok.injEq]
  · next hfails =>
    exact iff_of_false (fun heq ↦ by cases heq) fun h ↦ hfails (List.all_eq_true.mpr h.1)

omit [RegexpEngine] [TextEngine] in
/-- A foreign key comes from a relation. -/
theorem relatesTo_of_foreignKey {r : Registered} {foreignKey : ForeignKey}
    (h : foreignKey ∈ cat.foreignKeys (Join.toSchema r)) : r.obj.RelatesTo foreignKey.table := by
  obtain ⟨property, hproperty, hkey⟩ := List.mem_filterMap.mp h
  obtain ⟨p, hp, rfl⟩ := List.mem_map.mp hproperty
  split at hkey
  · cases hkey
  next hne =>
  obtain ⟨foreignSchema, hforeign, rfl⟩ := Option.map_eq_some_iff.mp hkey
  have hid : foreignSchema.id = p.own.relation := by simpa using List.find?_some hforeign
  exact ⟨fun hempty ↦ hne (hid.symm.trans hempty), p, hp, hid.symm⟩

/-! ### One resource -/

omit [RegexpEngine] in
theorem WellFormed.key_rowOf (h : WellFormed f) : (rowOf f).key = key f := by
  obtain ⟨text, hid⟩ := h.id
  obtain ⟨data, hdata⟩ := h.populates
  have hstored := Put.lookup_populateDefaultsOf hid hdata
  have hID : ∀ {d : Dict}, d.lookup "id" = some (.str text) →
      (⟨Join.toSchema f.1, d⟩ : Resource).ID = text := by
    intro d hd
    have hget : d.get "id" = .str text := by rw [GoMap.get, hd, Option.getD_some]
    simp only [Resource.ID, hget]
  rw [key, rowOf, filled, hdata, TableRow.key]
  dsimp only
  rw [Resource.stored_ID, hID hstored, hID hid]
  rfl

omit [RegexpEngine] in
theorem fetch_of_mem {tx : Tx} (h : key f ∈ tx.db.rows.map TableRow.key) :
    ∃ row, tx.db.fetch (Join.toSchema f.1) (⟨Join.toSchema f.1, f.2⟩ : Resource).ID = .ok row := by
  obtain ⟨row, hrow, hkey⟩ := List.mem_map.mp h
  exact ⟨row, Tables.fetch_eq_ok.mpr ⟨hrow, beq_iff_eq.mpr hkey⟩⟩

omit [RegexpEngine] in
theorem fetch_of_notMem {tx : Tx} (h : key f ∉ tx.db.rows.map TableRow.key) :
    ∃ fault, tx.db.fetch (Join.toSchema f.1) (⟨Join.toSchema f.1, f.2⟩ : Resource).ID =
      .error fault := by
  cases hfetch : tx.db.fetch (Join.toSchema f.1) (⟨Join.toSchema f.1, f.2⟩ : Resource).ID with
  | error fault => exact ⟨fault, rfl⟩
  | ok row =>
    obtain ⟨hrow, his⟩ := Tables.fetch_eq_ok.mp hfetch
    exact absurd (List.mem_map.mpr ⟨row, hrow, beq_iff_eq.mp his⟩) h

omit [RegexpEngine] in
theorem copyResource_of_mem {tx : Tx} (h : key f ∈ tx.db.rows.map TableRow.key) :
    copyResource db false f.1 tx f.2 = .ok tx := by
  obtain ⟨row, hrow⟩ := fetch_of_mem h
  simp only [copyResource, hrow, Bool.false_eq_true, if_false]

omit [RegexpEngine] in
/-- A resource with a new identifier is created when the database takes its values and there are
rows for its foreign keys. -/
theorem create_eq_ok_iff {tx : Tx} (hwell : WellFormed f)
    (h : key f ∉ tx.db.rows.map TableRow.key) (hintact : Intact db.toCatalog tx.db.rows) :
    ∃ created : Tx, created.db.rows = tx.db.rows ++ [rowOf f] ∧
      ∀ tx', create db tx (filled f) = .ok tx' ↔ db.takes tx.db.rows (filled f) = true ∧
        resolves db.toCatalog (tx.db.rows ++ [rowOf f]) (rowOf f) = true ∧ created = tx' := by
  have hnew : ((filled f).schema.id, (filled f).ID) ∉ tx.db.rows.map TableRow.key := by
    have hkey := hwell.key_rowOf
    rw [rowOf, TableRow.key, Resource.stored_ID] at hkey
    exact hkey ▸ h
  obtain ⟨tables, htables, hrows⟩ : ∃ tables, tx.db.create (filled f) = .ok tables ∧
      tables.rows = tx.db.rows ++ [rowOf f] := by
    rw [Tables.create, dif_neg hnew]
    exact ⟨_, rfl, rfl⟩
  let created := { tx with db := tables }.logEvent .create (filled f) 1
  have hcreated : created.db.rows = tx.db.rows ++ [rowOf f] := by
    rw [Tx.logEvent_db, hrows]
  refine ⟨created, hcreated, fun tx' ↦ ?_⟩
  rw [create]
  split
  · next htakes =>
    have hcreate : tx.create (filled f) = .ok created := by
      rw [Tx.create, htables]
      rfl
    rw [hcreate, Go.ok_bind, enforce_eq_ok_iff, hcreated, hintact.append_singleton,
      and_iff_right htakes]
  · next hrefuses =>
    exact iff_of_false (fun heq ↦ by cases heq) fun hall ↦ hrefuses hall.1

omit [RegexpEngine] in
/-- **A resource without a row** is created. -/
theorem copyResource_of_notMem {tx : Tx} (hwell : WellFormed f)
    (h : key f ∉ tx.db.rows.map TableRow.key) :
    copyResource db false f.1 tx f.2 = create db tx (filled f) := by
  obtain ⟨fault, hfetch⟩ := fetch_of_notMem h
  obtain ⟨data, hdata⟩ := hwell.populates
  simp only [copyResource, hfetch, hdata, Go.ok_bind, filled]

/-! ### All of them -/

/-- One resource is of a schema that has a relation to the schema of the other. -/
def RefersTo (f g : Registered × Dict) : Prop := f.1.obj.RelatesTo g.1.obj.ID

omit [RegexpEngine] in
theorem missing_cons (f : Registered × Dict) : missing rows (f :: fixtures) =
    if key f ∈ rows.map TableRow.key then missing rows fixtures
    else f :: missing (rows ++ [rowOf f]) fixtures := by
  simp only [missing, List.contains_iff_mem]

omit [RegexpEngine] in
theorem mem_of_missing (h : f ∈ missing rows fixtures) : f ∈ fixtures := by
  induction fixtures generalizing rows with
  | nil => cases h
  | cons g fixtures ih =>
    rw [missing_cons] at h
    split at h
    · exact List.mem_cons_of_mem _ (ih h)
    · rcases List.mem_cons.mp h with rfl | h
      · exact List.mem_cons_self
      · exact List.mem_cons_of_mem _ (ih h)

omit [RegexpEngine] in
/-- Then every resource has a row. -/
theorem key_mem_missing (hwell : ∀ f ∈ fixtures, WellFormed f) (hf : f ∈ fixtures) :
    key f ∈ (rows ++ (missing rows fixtures).map rowOf).map TableRow.key := by
  induction fixtures generalizing rows with
  | nil => cases hf
  | cons g fixtures ih =>
    obtain ⟨hg, hwell⟩ := List.forall_mem_cons.mp hwell
    rw [missing_cons]
    split
    · next hthere =>
      rcases List.mem_cons.mp hf with rfl | hf
      · rw [List.map_append]
        exact List.mem_append_left _ hthere
      · exact ih hwell hf
    · rw [List.map_cons, List.append_cons]
      rcases List.mem_cons.mp hf with rfl | hf
      · rw [List.map_append, List.map_append, List.map_singleton, hg.key_rowOf]
        exact List.mem_append_left _ (List.mem_append_right _ (List.mem_singleton.mpr rfl))
      · exact ih hwell hf

omit [RegexpEngine] in
/-- Where every resource has a row, nothing is done. -/
theorem foldlM_copyResource_of_mem {tx : Tx}
    (h : ∀ f ∈ fixtures, key f ∈ tx.db.rows.map TableRow.key) :
    fixtures.foldlM (fun tx f ↦ copyResource db false f.1 tx f.2) tx = .ok tx := by
  induction fixtures with
  | nil => rfl
  | cons f fixtures ih =>
    obtain ⟨hf, hothers⟩ := List.forall_mem_cons.mp h
    rw [List.foldlM_cons, copyResource_of_mem hf]
    exact ih hothers

omit [RegexpEngine] in
/-- **What is added**: the rows that are missing, and all foreign keys refer to rows again. -/
theorem foldlM_copyResource_rows {tx tx' : Tx} (hwell : ∀ f ∈ fixtures, WellFormed f)
    (hintact : Intact db.toCatalog tx.db.rows)
    (h : fixtures.foldlM (fun tx f ↦ copyResource db false f.1 tx f.2) tx = .ok tx') :
    tx'.db.rows = tx.db.rows ++ (missing tx.db.rows fixtures).map rowOf ∧
      Intact db.toCatalog tx'.db.rows := by
  induction fixtures generalizing tx with
  | nil =>
    cases h
    exact ⟨(List.append_nil _).symm, hintact⟩
  | cons f fixtures ih =>
    obtain ⟨hf, hwell⟩ := List.forall_mem_cons.mp hwell
    rw [List.foldlM_cons, Go.bind_eq_ok] at h
    obtain ⟨tx₁, hfirst, hrest⟩ := h
    rw [missing_cons]
    split
    · next hthere =>
      cases (copyResource_of_mem hthere).symm.trans hfirst
      exact ih hwell hintact hrest
    · next hmissing =>
      obtain ⟨created, hrows, hiff⟩ := create_eq_ok_iff hf hmissing hintact
      rw [copyResource_of_notMem hf hmissing] at hfirst
      obtain ⟨-, hresolves, rfl⟩ := (hiff tx₁).mp hfirst
      have hintact₁ : Intact db.toCatalog created.db.rows := by
        rw [hrows, hintact.append_singleton]
        exact hresolves
      obtain ⟨hall, hintact'⟩ := ih hwell hintact₁ hrest
      refine ⟨?_, hintact'⟩
      rw [hall, hrows, List.append_assoc, List.singleton_append, List.map_cons]

omit [RegexpEngine] in
/-- **Where nothing refers to what comes later, the order of the tables is enough**: all resources
can be created one after the other exactly when the database takes their values and the rows that
there will be have what the new ones refer to. -/
theorem foldlM_copyResource_iff {tx : Tx} (hgrounded : Grounded RefersTo fixtures)
    (hwell : ∀ f ∈ fixtures, WellFormed f) (hintact : Intact db.toCatalog tx.db.rows) :
    (∃ tx', fixtures.foldlM (fun tx f ↦ copyResource db false f.1 tx f.2) tx = .ok tx') ↔
      takesAll db tx.db.rows (missing tx.db.rows fixtures) = true ∧
        ∀ f ∈ missing tx.db.rows fixtures, resolves db.toCatalog
          (tx.db.rows ++ (missing tx.db.rows fixtures).map rowOf) (rowOf f) = true := by
  induction fixtures generalizing tx with
  | nil => exact iff_of_true ⟨tx, rfl⟩ ⟨rfl, List.forall_mem_nil _⟩
  | cons f fixtures ih =>
    obtain ⟨hf, hwell⟩ := List.forall_mem_cons.mp hwell
    have hlater : Grounded RefersTo fixtures :=
      (grounded_append_iff (l := [f]).mp hgrounded).2.1
    rw [missing_cons]
    split
    · next hthere =>
      simp only [List.foldlM_cons, copyResource_of_mem hthere, Go.ok_bind]
      exact ih hlater hwell hintact
    next hmissing =>
    -- the row refers to none of those that come after it
    have hown : resolves db.toCatalog
        (tx.db.rows ++ (f :: missing (tx.db.rows ++ [rowOf f]) fixtures).map rowOf)
          (rowOf f) = true ↔
        resolves db.toCatalog (tx.db.rows ++ [rowOf f]) (rowOf f) = true := by
      rw [List.map_cons, List.append_cons]
      refine resolves_append_iff fun parent hparent foreignKey hkey heq ↦ ?_
      obtain ⟨g, hg, rfl⟩ := List.mem_map.mp hparent
      have hrefers : f.1.obj.RelatesTo foreignKey.table := relatesTo_of_foreignKey hkey
      rw [← heq] at hrefers
      exact (List.pairwise_cons.mp hgrounded.after).1 g (mem_of_missing hg) hrefers
    obtain ⟨created, hrows, hiff⟩ := create_eq_ok_iff hf hmissing hintact
    have hfold : (∃ tx', (f :: fixtures).foldlM
        (fun tx f ↦ copyResource db false f.1 tx f.2) tx = .ok tx') ↔
          db.takes tx.db.rows (filled f) = true ∧
          resolves db.toCatalog (tx.db.rows ++ [rowOf f]) (rowOf f) = true ∧
          ∃ tx', fixtures.foldlM
            (fun tx f ↦ copyResource db false f.1 tx f.2) created = .ok tx' := by
      simp only [List.foldlM_cons, copyResource_of_notMem hf hmissing]
      constructor
      · rintro ⟨tx', h⟩
        obtain ⟨tx₁, hfirst, hrest⟩ := Go.bind_eq_ok.mp h
        obtain ⟨htakes, hresolves, rfl⟩ := (hiff tx₁).mp hfirst
        exact ⟨htakes, hresolves, tx', hrest⟩
      · rintro ⟨htakes, hresolves, tx', hrest⟩
        rw [(hiff created).mpr ⟨htakes, hresolves, rfl⟩]
        exact ⟨tx', hrest⟩
    have hintact₁ : resolves db.toCatalog (tx.db.rows ++ [rowOf f]) (rowOf f) = true →
        Intact db.toCatalog created.db.rows := by
      intro hresolves
      rw [hrows, hintact.append_singleton]
      exact hresolves
    rw [hfold, List.forall_mem_cons, hown, takesAll, Bool.and_eq_true, and_assoc]
    refine and_congr_right fun _ ↦ ?_
    rw [and_left_comm]
    refine and_congr_right fun hresolves ↦ ?_
    rw [ih hlater hwell (hintact₁ hresolves), hrows, List.map_cons, ← List.append_cons]

/-! ### The whole file -/

omit [RegexpEngine] [TextEngine] in
theorem mem_of_fixtures {schemas : List Registered}
    (h : input.fixtures legacy schemas = .ok fixtures) (hf : f ∈ fixtures) : f.1 ∈ schemas := by
  induction schemas generalizing fixtures with
  | nil =>
    cases h
    cases hf
  | cons r schemas ih =>
    rw [Initializer.fixtures, Go.bind_eq_ok] at h
    obtain ⟨resources, -, h⟩ := h
    obtain ⟨rest, hrest, h⟩ := Go.bind_eq_ok.mp h
    cases h
    rcases List.mem_append.mp hf with hf | hf
    · obtain ⟨data, -, rfl⟩ := List.mem_map.mp hf
      exact List.mem_cons_self
    · exact List.mem_cons_of_mem _ (ih hrest hf)

omit [RegexpEngine] [TextEngine] in
/-- Where the schemas are in order, the resources are. -/
theorem grounded_fixtures {schemas : List Registered}
    (hgrounded : Grounded (fun r t ↦ r.obj.RelatesTo t.obj.ID) schemas)
    (h : input.fixtures legacy schemas = .ok fixtures) : Grounded RefersTo fixtures := by
  induction schemas generalizing fixtures with
  | nil =>
    cases h
    exact ⟨.nil, List.forall_mem_nil _⟩
  | cons r schemas ih =>
    rw [Initializer.fixtures, Go.bind_eq_ok] at h
    obtain ⟨resources, -, h⟩ := h
    obtain ⟨rest, hrest, h⟩ := Go.bind_eq_ok.mp h
    cases h
    obtain ⟨hfirst, hlater, hacross⟩ := (grounded_append_iff (l := [r])).mp hgrounded
    have hnone : ¬ r.obj.RelatesTo r.obj.ID := hfirst.itself r List.mem_cons_self
    refine grounded_append_iff.mpr ⟨⟨?_, ?_⟩, ih hlater hrest, ?_⟩
    · rw [List.pairwise_map]
      exact List.pairwise_of_forall fun _ _ ↦ hnone
    · intro f hf
      obtain ⟨data, -, rfl⟩ := List.mem_map.mp hf
      exact hnone
    · intro f hf g hg
      obtain ⟨data, -, rfl⟩ := List.mem_map.mp hf
      exact hacross r List.mem_cons_self g.1 (mem_of_fixtures hrest hg)

omit [RegexpEngine] in
/-- The two loops are one. -/
theorem copySchemas_eq {schemas : List Registered} {overrideExisting : Bool} {tx : Tx}
    (h : input.fixtures legacy (schemas.filter (!·.obj.isAbstract)) = .ok fixtures) :
    copySchemas db legacy overrideExisting input schemas tx =
      fixtures.foldlM (fun tx f ↦ copyResource db overrideExisting f.1 tx f.2) tx := by
  induction schemas generalizing fixtures tx with
  | nil =>
    cases h
    rfl
  | cons r schemas ih =>
    rw [copySchemas]
    cases habstract : r.obj.isAbstract with
    | true =>
      rw [List.filter_cons_of_neg (by simp [habstract])] at h
      rw [if_pos rfl]
      exact ih h
    | false =>
      rw [List.filter_cons_of_pos (by simp [habstract]), Initializer.fixtures,
        Go.bind_eq_ok] at h
      obtain ⟨resources, hresources, h⟩ := h
      obtain ⟨rest, hrest, h⟩ := Go.bind_eq_ok.mp h
      cases h
      rw [if_neg Bool.false_ne_true, hresources, List.foldlM_append, List.foldlM_map]
      exact bind_congr fun tx ↦ ih hrest

/-- **Whether the tables can be filled does not depend on the order of the file.**  If there are
schemas, they are in order and all foreign keys in the database refer to rows, copying succeeds
exactly when the database takes the values of the new resources and what their rows refer to is
there already or in the file.  Then the rows that were there are as they were, every resource of the
file has a row, all foreign keys refer to rows, and copying once more changes nothing.  If copying
fails, nothing has changed. -/
theorem copyDBResources_spec (db : Database) (legacy : Bool) (input : Initializer) {m : Manager}
    (horder : m.InOrder) (hany : m.orderedSchemas ≠ [])
    (hfixtures : input.fixtures legacy m.concreteSchemas = .ok fixtures)
    (hwell : ∀ f ∈ fixtures, WellFormed f) (tx : Tx) (hintact : Intact db.toCatalog tx.db.rows) :
    let new := missing tx.db.rows fixtures
    let rows := tx.db.rows ++ new.map rowOf
    let result := copyDBResources db legacy false input m.orderedSchemas tx
    (result.1 = .ok () ↔ takesAll db tx.db.rows new = true ∧
      ∀ f ∈ new, resolves db.toCatalog rows (rowOf f) = true) ∧
    (result.1 = .ok () → result.2.db.rows = rows ∧ Intact db.toCatalog rows ∧
      (∀ f ∈ fixtures, key f ∈ rows.map TableRow.key) ∧
      copyDBResources db legacy false input m.orderedSchemas result.2 = (.ok (), result.2)) ∧
    (result.1 ≠ .ok () → result.2 = tx) := by
  have hsucceeds : ∀ tx tx', fixtures.foldlM (fun tx f ↦ copyResource db false f.1 tx f.2) tx =
      .ok tx' → copyDBResources db legacy false input m.orderedSchemas tx = (.ok (), tx') := by
    intro tx tx' hloop
    rw [copyDBResources, if_neg (by simpa using hany), copySchemas_eq hfixtures, hloop]
  have hfails : ∀ tx fault, fixtures.foldlM (fun tx f ↦ copyResource db false f.1 tx f.2) tx =
      .error fault →
        copyDBResources db legacy false input m.orderedSchemas tx = (.error fault, tx) := by
    intro tx fault hloop
    rw [copyDBResources, if_neg (by simpa using hany), copySchemas_eq hfixtures, hloop]
  intro new rows result
  have hiff := foldlM_copyResource_iff (grounded_fixtures horder hfixtures) hwell hintact
  cases hloop : fixtures.foldlM (fun tx f ↦ copyResource db false f.1 tx f.2) tx with
  | error fault =>
    have hresult : result = (.error fault, tx) := hfails tx fault hloop
    rw [hresult]
    refine ⟨iff_of_false (fun h ↦ by cases h) fun hall ↦ ?_, fun h ↦ ?_, fun _ ↦ rfl⟩
    rotate_left
    · cases h
    obtain ⟨tx', hok⟩ := hiff.mpr hall
    cases hloop.symm.trans hok
  | ok tx' =>
    have hresult : result = (.ok (), tx') := hsucceeds tx tx' hloop
    obtain ⟨hrows, hintact'⟩ : tx'.db.rows = rows ∧ Intact db.toCatalog tx'.db.rows :=
      foldlM_copyResource_rows hwell hintact hloop
    rw [hrows] at hintact'
    have hkeys : ∀ f ∈ fixtures, key f ∈ rows.map TableRow.key := fun f hf ↦
      key_mem_missing hwell hf
    have hagain : fixtures.foldlM (fun tx f ↦ copyResource db false f.1 tx f.2) tx' = .ok tx' :=
      foldlM_copyResource_of_mem fun f hf ↦ hrows ▸ hkeys f hf
    rw [hresult]
    exact ⟨iff_of_true rfl (hiff.mp ⟨tx', hloop⟩),
      fun _ ↦ ⟨hrows, hintact', hkeys, hsucceeds tx' tx' hagain⟩,
      fun hne ↦ absurd rfl hne⟩

/-- The hosts come first, and each is in a zone. -/
def hostsFile : Initializer where
  data := GoMap.ofList [
    ("hosts", .list [.map [("id", .str "blue"), ("zone_id", .str "north")],
      .map [("id", .str "green"), ("zone_id", .str "north")]]),
    ("zones", .list [.map [("id", .str "north")]])]

/-- Every property has a column, and one that is not nullable needs a text. -/
def takesTexts (_ : List TableRow) (resource : Resource) : Bool :=
  resource.schema.properties.all fun property ↦
    match resource.properties.get property.id with
    | .str _ => true
    | .nil => property.nullable
    | _ => false

omit [RegexpEngine] [TextEngine] in
/-- Two hosts and the zone they are in. -/
theorem copyDBResources_hosts : letI := Re2.engine
    letI := placeholders
    let m : Manager :=
      Machine.final Manager.step {} [.schema Migration.zoneSchema, .schema Migration.hostSchema]
    let db : Database := ⟨⟨m.orderedSchemas.map Join.toSchema, by decide +kernel, fun _ _ ↦ "",
      fun _ _ ↦ false, fun _ ↦ false, false⟩, takesTexts⟩
    let result := copyDBResources db true false hostsFile m.orderedSchemas ⟨.empty, [], 1⟩
    result.1 = .ok () ∧ result.2.db.rows.length = 3 ∧
      copyDBResources db true false hostsFile m.orderedSchemas result.2 = (.ok (), result.2) := by
  let _ := Re2.engine
  let _ := placeholders
  intro m db result
  let fixtures := (hostsFile.fixtures true m.concreteSchemas).toOption.getD []
  have hfixtures : hostsFile.fixtures true m.concreteSchemas = .ok fixtures := rfl
  have hwell : ∀ f ∈ fixtures, WellFormed f := by decide +kernel
  obtain ⟨hiff, hok, -⟩ := copyDBResources_spec db true hostsFile (m := m) (by decide +kernel)
    (fun h ↦ by cases h) hfixtures hwell ⟨.empty, [], 1⟩ (List.forall_mem_nil _)
  have hcopied : result.1 = .ok () := hiff.mpr (by decide +kernel)
  exact ⟨hcopied, by decide +kernel, (hok hcopied).2.2.2⟩

end Populate

end Gohan.Sync.Populate
