import Gohan.Db.FilterMeaning
import Gohan.Db.Select

/-!
# Fetching one resource

`Fetch` and `LockFetch` list the rows of a filter and take the first.  The filters they are called
with have an entry for the identifier, and the identifier is a key, so the first row is the only
one: what is fetched is the row under the identifier, if it passes the filter (`fetch_eq_ok`,
`lockFetch_eq_ok`).
-/

set_option autoImplicit false

namespace Gohan

/-- The filter lets a row through. -/
def DB.Filtered (D : DB) (s : Schema) (filter : GoMap FilterVal) (row : Dict) : Prop :=
  ∃ clause, addFilterToQuery s filter = .ok clause ∧ Selects D.server.toSqlEngine clause row

/-- The filter asks for an identifier, among other things. -/
structure AsksFor (filter : GoMap FilterVal) (resourceID : String) : Prop where
  id : filter.lookup "id" = some (.value (.str resourceID))
  bool : filter.lookup boolCondition = none

theorem exists_columnsOf {relatedColumns : Schema → Go Columns} (schemas : List Schema)
    (fields : Option (List String)) (s : Schema) (properties : List Property) :
    ∃ columns, columnsOf relatedColumns schemas fields false s properties = .ok columns := by
  induction properties with
  | nil => exact ⟨.done, rfl⟩
  | cons property properties ih =>
    obtain ⟨rest, hrest⟩ := ih
    rw [columnsOf, if_neg (by simp), hrest]
    exact ⟨_, rfl⟩

/-- Without a join no schema is looked up, and none can be missing. -/
theorem exists_makeColumns (schemas : List Schema) (fields : Option (List String)) (depth : ℕ)
    (s : Schema) : ∃ columns, makeColumns schemas fields false (depth + 1) s = .ok columns :=
  exists_columnsOf schemas fields s s.properties

/-! ## The entry of the identifier -/

/-- Every entry of the filter has its predicate in the clause. -/
theorem exists_addKey_of_mem {s : Schema} {filter : GoMap FilterVal}
    {entries : List (String × FilterVal)} {clause : List Sqlizer}
    (h : addKeys s filter entries = .ok clause) {e : String × FilterVal} (he : e ∈ entries) :
    ∃ part ∈ clause, addKey s filter e.1 e.2 = .ok part := by
  induction entries generalizing clause with
  | nil => cases he
  | cons first entries ih =>
    obtain ⟨key, value⟩ := first
    simp only [addKeys, Go.bind_eq_ok] at h
    obtain ⟨part, hpart, rest, hrest, hclause⟩ := h
    cases hclause
    rcases List.mem_cons.mp he with rfl | he
    · exact ⟨part, List.mem_cons_self, hpart⟩
    · obtain ⟨part', hmem, hpart'⟩ := ih hrest he
      exact ⟨part', List.mem_cons_of_mem _ hmem, hpart'⟩

/-- The identifier's predicate. -/
theorem addKey_id {s : Schema} {filter : GoMap FilterVal} {resourceID : String} {part : Sqlizer}
    (hbool : filter.lookup boolCondition = none)
    (h : addKey s filter "id" (.value (.str resourceID)) = .ok part) :
    part = .eq "id" (.str resourceID) := by
  rw [addKey, if_neg (by decide), if_neg (by decide), hbool] at h
  obtain ⟨property, -, hpart⟩ := Go.bind_eq_ok.mp h
  exact (Except.ok.inj hpart).symm

namespace DB

variable {D : DB} {db : Database} {s : Schema} {filter : GoMap FilterVal} {resourceID : String}
  {resource row : Dict}

/-- What passes a filter that asks for an identifier has it. -/
theorem Filtered.id (h : D.Filtered s filter row) (hfilter : AsksFor filter resourceID) :
    D.server.eq (row.get "id") (.str resourceID) = .tt := by
  obtain ⟨clause, hclause, hsel⟩ := h
  obtain ⟨part, hmem, hpart⟩ := exists_addKey_of_mem hclause (mem_toList_of_lookup hfilter.id)
  have heval := hsel part hmem
  rwa [addKey_id hfilter.bool hpart] at heval

/-- There is no asking for an identifier where it is no property. -/
theorem Filtered.hasPropertyID (h : D.Filtered s filter row) (hfilter : AsksFor filter resourceID) :
    s.hasPropertyID "id" = true := by
  obtain ⟨clause, hclause, -⟩ := h
  obtain ⟨part, -, hpart⟩ := exists_addKey_of_mem hclause (mem_toList_of_lookup hfilter.id)
  have hkey : addKey s filter "id" (.value (.str resourceID)) = .ok part := hpart
  rw [addKey, if_neg (by decide), if_neg (by decide), hfilter.bool] at hkey
  obtain ⟨property, hproperty, -⟩ := Go.bind_eq_ok.mp hkey
  rw [← Schema.isOk_getPropertyByID, hproperty]
  rfl

/-! ## The row under an identifier -/

/-- The rows under an identifier: those that `Delete` removes. -/
def rowsUnder (D : DB) (db : Database) (s : Schema) (resourceID : String) : List Dict :=
  (db (s.getDbTableName D.legacy)).rows.filter fun row ↦
    decide (D.server.eq (row.get "id") (.str resourceID) = .tt)

/-- The identifier is a key: there is one row under it, at most. -/
def Keyed (D : DB) (s : Schema) (resourceID : String) (db : Database) : Prop :=
  ∀ row ∈ D.rowsUnder db s resourceID, ∀ row' ∈ D.rowsUnder db s resourceID, row = row'

instance (D : DB) (s : Schema) (resourceID : String) (db : Database) :
    Decidable (D.Keyed s resourceID db) :=
  inferInstanceAs (Decidable (∀ row ∈ D.rowsUnder db s resourceID, ∀ row' ∈ _, row = row'))

theorem mem_rowsUnder : row ∈ D.rowsUnder db s resourceID ↔
    row ∈ (db (s.getDbTableName D.legacy)).rows ∧
      D.server.eq (row.get "id") (.str resourceID) = .tt := by
  simp [rowsUnder]

/-- The row under an identifier as a resource, with the related ones or without. -/
def rowResource (D : DB) (db : Database) (s : Schema) (join : Bool) (row : Dict) : Go Dict := do
  let columns ← makeColumns D.schemas none join (D.schemas.length + 1) s
  .ok (D.resourceOf db s false columns row)

/-- The query of a `Fetch` or `LockFetch`. -/
def selectAll (D : DB) (db : Database) (s : Schema) (filter : GoMap FilterVal) (join : Bool) :
    Go (List Dict × ℕ) := do
  let q ← D.buildSelect s { filter, join }
  D.executeCountingSelect db s { filter, join } q

theorem firstOf_eq_ok {failure : String} {result : Go (List Dict × ℕ)} :
    firstOf failure result = .ok resource ↔
      ∃ rest total, result = .ok (resource :: rest, total) := by
  constructor
  · intro h
    rw [firstOf.eq_def] at h
    split at h
    · cases h
      exact ⟨_, _, rfl⟩
    · exact absurd h (Go.errorf_ne_ok _ _ _)
    · exact absurd h (Go.errorf_ne_ok _ _ _)
    · exact absurd h (Go.panicf_ne_ok _ _ _)
  · rintro ⟨rest, total, rfl⟩
    rfl

/-- What a query without a page returns. -/
theorem selectAll_eq {join : Bool} : D.selectAll db s filter join =
    makeColumns D.schemas none join (D.schemas.length + 1) s >>= fun columns ↦
      addFilterToQuery s filter >>= fun clause ↦
        let rows := D.selected (db (s.getDbTableName D.legacy)).rows clause
        .ok (rows.map (D.resourceOf db s false columns), rows.length) := by
  rw [selectAll, buildSelect]
  simp only [bind_assoc]
  refine bind_congr fun columns ↦ bind_congr fun clause ↦ ?_
  rw [Go.ok_bind, executeCountingSelect_eq]
  have hpage : D.page (db (s.getDbTableName D.legacy)).rows
      ⟨columns, clause, none, none, 0⟩ =
        D.selected (db (s.getDbTableName D.legacy)).rows clause := page_of_unpaged rfl rfl _
  simp only [hpage]
  rfl

theorem head_eq_some_iff {rows : List Dict} (h : ∀ row ∈ rows, ∀ row' ∈ rows, row = row') :
    rows.head? = some row ↔ row ∈ rows := by
  constructor
  · exact List.mem_of_head?
  · intro hrow
    obtain ⟨first, rest, rfl⟩ := List.exists_cons_of_ne_nil (List.ne_nil_of_mem hrow)
    rw [List.head?_cons, h first List.mem_cons_self row hrow]

/-- **The first row of a filter that asks for an identifier** is the row under it. -/
theorem firstOf_selectAll_eq_ok {failure : String} {join : Bool} (hkeyed : D.Keyed s resourceID db)
    (hfilter : AsksFor filter resourceID) :
    firstOf failure (D.selectAll db s filter join) = .ok resource ↔
      ∃ row ∈ D.rowsUnder db s resourceID, D.Filtered s filter row ∧
        D.rowResource db s join row = .ok resource := by
  have hmem {clause : List Sqlizer} (hclause : addFilterToQuery s filter = .ok clause)
      {row : Dict} : row ∈ D.selected (db (s.getDbTableName D.legacy)).rows clause ↔
        row ∈ D.rowsUnder db s resourceID ∧ D.Filtered s filter row := by
    rw [mem_selected, mem_rowsUnder]
    constructor
    · rintro ⟨hrow, hsel⟩
      have hpass : D.Filtered s filter row := ⟨clause, hclause, hsel⟩
      exact ⟨⟨hrow, hpass.id hfilter⟩, hpass⟩
    · rintro ⟨⟨hrow, -⟩, clause', hclause', hsel⟩
      cases hclause.symm.trans hclause'
      exact ⟨hrow, hsel⟩
  have hhead {clause : List Sqlizer} (hclause : addFilterToQuery s filter = .ok clause)
      {row : Dict} : (D.selected (db (s.getDbTableName D.legacy)).rows clause).head? = some row ↔
        row ∈ D.rowsUnder db s resourceID ∧ D.Filtered s filter row := by
    rw [← hmem hclause]
    exact head_eq_some_iff fun a ha b hb ↦
      hkeyed a ((hmem hclause).mp ha).1 b ((hmem hclause).mp hb).1
  rw [firstOf_eq_ok, selectAll_eq]
  constructor
  · rintro ⟨rest, total, h⟩
    obtain ⟨columns, hcolumns, h⟩ := Go.bind_eq_ok.mp h
    obtain ⟨clause, hclause, h⟩ := Go.bind_eq_ok.mp h
    obtain ⟨hlist, -⟩ := Prod.mk.inj (Except.ok.inj h)
    obtain ⟨row, others, hrows, hrow, -⟩ := List.map_eq_cons_iff.mp hlist
    obtain ⟨hunder, hpass⟩ := (hhead hclause).mp (by rw [hrows]; rfl)
    refine ⟨row, hunder, hpass, ?_⟩
    rw [rowResource, hcolumns, Go.ok_bind, hrow]
  · rintro ⟨row, hunder, hpass, hresource⟩
    obtain ⟨columns, hcolumns, ⟨⟩⟩ := Go.bind_eq_ok.mp hresource
    obtain ⟨clause, hclause, hsel⟩ := hpass
    obtain ⟨rest, hrows⟩ := List.head?_eq_some_iff.mp
      ((hhead hclause).mpr ⟨hunder, clause, hclause, hsel⟩)
    rw [hcolumns, Go.ok_bind, hclause, Go.ok_bind, hrows]
    exact ⟨_, _, rfl⟩

/-- **What `Fetch` returns.** -/
theorem fetch_eq_ok (hkeyed : D.Keyed s resourceID db) (hfilter : AsksFor filter resourceID) :
    D.fetch db s filter = .ok resource ↔
      ∃ row ∈ D.rowsUnder db s resourceID, D.Filtered s filter row ∧
        D.rowResource db s false row = .ok resource :=
  firstOf_selectAll_eq_ok hkeyed hfilter

/-- **What `LockFetch` returns.** -/
theorem lockFetch_eq_ok {lockPolicy : LockPolicy} {join : Bool}
    (hjoin : shouldJoin lockPolicy = .ok join) (hkeyed : D.Keyed s resourceID db)
    (hfilter : AsksFor filter resourceID) :
    D.lockFetch db s filter lockPolicy = .ok resource ↔
      ∃ row ∈ D.rowsUnder db s resourceID, D.Filtered s filter row ∧
        D.rowResource db s join row = .ok resource := by
  have hlist : D.lockList db s filter lockPolicy = D.selectAll db s filter join := by
    rw [lockList, hjoin, Go.ok_bind, selectAll]
  rw [lockFetch, hlist]
  exact firstOf_selectAll_eq_ok hkeyed hfilter

/-! ## Locking policies -/

/-- Does the schema have an operation lock the row? -/
def locksRow (s : Schema) (event : String) : Bool :=
  match s.getLockingPolicy event with
  | .ok .lockRelatedResources => true
  | .ok .skipRelatedResources => true
  | _ => false

/-- The resource that an operation reads when it locks the row. -/
def LockedAs (D : DB) (s : Schema) (event : String) (db : Database) (row resource : Dict) : Prop :=
  ∃ lockPolicy join, s.getLockingPolicy event = .ok lockPolicy ∧
    shouldJoin lockPolicy = .ok join ∧ D.rowResource db s join row = .ok resource

theorem lockedAs_iff {event : String} {lockPolicy : LockPolicy} {join : Bool}
    (hpolicy : s.getLockingPolicy event = .ok lockPolicy)
    (hjoin : shouldJoin lockPolicy = .ok join) :
    D.LockedAs s event db row resource ↔ D.rowResource db s join row = .ok resource := by
  refine ⟨?_, fun hresource ↦ ⟨lockPolicy, join, hpolicy, hjoin, hresource⟩⟩
  rintro ⟨lockPolicy', join', hpolicy', hjoin', hresource⟩
  cases hpolicy.symm.trans hpolicy'
  cases hjoin.symm.trans hjoin'
  exact hresource

theorem LockedAs.eq {event : String} {resource' : Dict} (h : D.LockedAs s event db row resource)
    (h' : D.LockedAs s event db row resource') : resource = resource' := by
  obtain ⟨lockPolicy, join, hpolicy, hjoin, hresource⟩ := h
  rw [lockedAs_iff hpolicy hjoin] at h'
  exact Except.ok.inj (hresource.symm.trans h')

/-- Without the related ones, a row always makes a resource. -/
theorem exists_rowResource (D : DB) (db : Database) (s : Schema) (row : Dict) :
    ∃ resource, D.rowResource db s false row = .ok resource := by
  obtain ⟨columns, hcolumns⟩ := exists_makeColumns D.schemas none D.schemas.length s
  exact ⟨_, by rw [rowResource, hcolumns]; rfl⟩

end DB

end Gohan
