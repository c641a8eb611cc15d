import Gohan.Sync.Logger

/-!
# Deleting with and without events

An extension can delete the rows that a filter selects in two ways: one after the other, with events
before and after each of them, or all at once and without events.

Where the handlers of the events leave the transaction alone, the first way is the second one, down
to the rows of the event table, provided that it succeeds (`deleteFilter_agrees`).  It need not
succeed: a row may go by a cascade before its turn has come, and then it is not found; and a row may
be referred to by another that comes later.

Both follow from what two deletions come to (`Tables.delete_delete_iff`), which is a fact about what
can be reached in the rows that are left.
-/

set_option autoImplicit false

namespace Gohan.Sync

variable [TextEngine] {cat : Catalog}

/-! ## Two deletions -/

namespace Tables

variable {db db' db₁ : Tables} {targets targets' : TableRow → Bool} {row : TableRow}

theorem eq_of_rows_eq (h : db.rows = db'.rows) : db = db' := by
  cases db
  cases db'
  cases h
  rfl

theorem delete_eq_ok_iff : db.delete cat targets = .ok db' ↔
    db'.rows = db.rows.filter (fun row ↦ !db.gone cat targets row) ∧
      ∀ child ∈ db.rows, ∀ parent ∈ db.rows, db.gone cat targets child = false →
        db.gone cat targets parent = true → child.refersTo cat false parent = false := by
  rw [delete]
  split
  · next hrefers =>
    simp only [List.any_eq_true, List.mem_filter, Bool.not_eq_true', Bool.and_eq_true] at hrefers
    obtain ⟨child, ⟨hchild, hstays⟩, parent, hparent, hgone, hrefers⟩ := hrefers
    refine iff_of_false (fun h ↦ by cases h) fun h ↦ ?_
    rw [h.2 child hchild parent hparent hstays hgone] at hrefers
    cases hrefers
  · next hrefers =>
    simp only [List.any_eq_true, List.mem_filter, Bool.not_eq_true', Bool.and_eq_true, not_exists,
      not_and, Bool.not_eq_true] at hrefers
    constructor
    · rintro ⟨⟩
      exact ⟨rfl, fun child hchild parent hparent hstays hgone ↦
        hrefers child ⟨hchild, hstays⟩ parent hparent hgone⟩
    · rintro ⟨hrows, -⟩
      exact congrArg Except.ok (eq_of_rows_eq hrows.symm)

theorem delete_congr (h : ∀ row ∈ db.rows, targets row = targets' row) :
    db.delete cat targets = .ok db' ↔ db.delete cat targets' = .ok db' := by
  have hgone : ∀ row ∈ db.rows, db.gone cat targets row = db.gone cat targets' row :=
    fun row hrow ↦ Reach.closure_congr h hrow
  rw [delete_eq_ok_iff, delete_eq_ok_iff, List.filter_congr fun row hrow ↦ by rw [hgone row hrow]]
  refine and_congr_right fun _ ↦ forall₂_congr fun child hchild ↦
    forall₂_congr fun parent hparent ↦ ?_
  rw [hgone child hchild, hgone parent hparent]

/-- What goes in the second deletion goes if both are made at once. -/
theorem gone_of_delete (h : db.delete cat targets = .ok db₁) (hrow : row ∈ db₁.rows) :
    db₁.gone cat targets' row = db.gone cat (fun row ↦ targets row || targets' row) row := by
  rw [Bool.eq_iff_iff]
  obtain ⟨hrows, -⟩ := delete_eq_ok_iff.mp h
  obtain ⟨hmem, hstays⟩ := (mem_of_delete_eq_ok h).mp hrow
  rw [gone, hrows]
  exact Reach.closure_filter_iff hmem hstays

/-- **Two deletions are one.** -/
theorem delete_delete_iff (h : db.delete cat targets = .ok db₁) :
    db₁.delete cat targets' = .ok db' ↔
      db.delete cat (fun row ↦ targets row || targets' row) = .ok db' := by
  have hboth : ∀ row ∈ db.rows, db.gone cat (fun row ↦ targets row || targets' row) row = true ↔
      db.gone cat targets row = true ∨ db.gone cat targets' row = true :=
    fun row hrow ↦ Reach.closure_or_iff hrow
  have hstays : ∀ row ∈ db.rows, db.gone cat (fun row ↦ targets row || targets' row) row = false →
      row ∈ db₁.rows := by
    intro row hrow hnot
    refine (mem_of_delete_eq_ok h).mpr ⟨hrow, ?_⟩
    by_contra hgone
    rw [(hboth row hrow).mpr (.inl (by simpa using hgone))] at hnot
    cases hnot
  obtain ⟨hrows, hrestrict⟩ := delete_eq_ok_iff.mp h
  rw [delete_eq_ok_iff, delete_eq_ok_iff]
  refine and_congr ?_ ⟨fun hsecond child hchild parent hparent hstay hgone ↦ ?_,
    fun hall child hchild parent hparent hstay hgone ↦ ?_⟩
  · have hfilter : db₁.rows.filter (fun row ↦ !db₁.gone cat targets' row) =
        db.rows.filter fun row ↦ !db.gone cat (fun row ↦ targets row || targets' row) row := by
      rw [List.filter_congr fun row hrow ↦ by rw [gone_of_delete h hrow], hrows,
        List.filter_filter]
      refine List.filter_congr fun row hrow ↦ ?_
      rw [Bool.eq_iff_iff]
      simp only [Bool.and_eq_true, Bool.not_eq_true', ← Bool.not_eq_true, hboth row hrow]
      tauto
    rw [hfilter]
  · have hchild' := hstays child hchild hstay
    by_cases hparent' : db.gone cat targets parent = true
    · exact hrestrict child hchild parent hparent ((mem_of_delete_eq_ok h).mp hchild').2 hparent'
    · have hleft : parent ∈ db₁.rows :=
        (mem_of_delete_eq_ok h).mpr ⟨hparent, by simpa using hparent'⟩
      refine hsecond child hchild' parent hleft ?_ ?_
      · rw [gone_of_delete h hchild', hstay]
      · rw [gone_of_delete h hleft, hgone]
  · rw [gone_of_delete h hchild] at hstay
    rw [gone_of_delete h hparent] at hgone
    exact hall child ((mem_of_delete_eq_ok h).mp hchild).1 parent
      ((mem_of_delete_eq_ok h).mp hparent).1 hstay hgone

theorem delete_nothing (db : Tables) : db.delete cat (fun _ ↦ false) = .ok db := by
  have hstays : ∀ row ∈ db.rows, db.gone cat (fun _ ↦ false) row = false := by
    intro row hrow
    by_contra hgone
    obtain ⟨target, htarget, -⟩ := (gone_iff hrow).mp (by simpa using hgone)
    cases htarget
  refine delete_eq_ok_iff.mpr ⟨?_, fun child _ parent hparent _ hgone ↦ ?_⟩
  · exact (List.filter_eq_self.mpr fun row hrow ↦ by rw [hstays row hrow]; rfl).symm
  · rw [hstays parent hparent] at hgone
    cases hgone

end Tables

/-! ## The operations of an extension -/

namespace Goplugin

/-- The events of a deletion. -/
inductive DeleteEvent where
  | preDeleteTx
  | postDeleteTx

/-- What the extension brings in: whether `ResourceFromMap` takes the data of a row, and what the
handlers of the events do in the transaction. -/
structure Extension where
  resourceFromMap : Dict → Go Unit
  handleEvent : DeleteEvent → TableRow → Tx → Go Tx

/-- The rows of the table of a schema that a filter selects. -/
def selected (tx : Tx) (s : Schema) (filter : TableRow → Bool) : List TableRow :=
  tx.db.rows.filter fun row ↦ row.resource.schema.id == s.id && filter row

/-- `dbDeleteFilter`, for the rows that the filter selects.  The empty filter is none. -/
def dbDeleteFilter (cat : Catalog) (tx : Tx) (s : Schema) (filter : Option (TableRow → Bool)) :
    Go Tx :=
  match filter with
  | none => .errorf "Cannot delete with empty filter"
  | some filter => tx.deleteFilter cat s filter

/-- The loop of `deleteFilter`. -/
def deleteEach (E : Extension) (cat : Catalog) (s : Schema) : List TableRow → Tx → Go Tx
  | [], tx => .ok tx
  | row :: fetched, tx => do
    let tx ← E.handleEvent .preDeleteTx row tx
    let tx ← tx.delete cat s row.resource.ID
    let tx ← E.handleEvent .postDeleteTx row tx
    deleteEach E cat s fetched tx

/-- `deleteFilter`. -/
def deleteFilter (E : Extension) (cat : Catalog) (tx : Tx) (s : Schema)
    (filter : Option (TableRow → Bool)) : Go Tx :=
  match filter with
  | none => .errorf "Cannot delete with empty filter"
  | some filter => do
    (selected tx s filter).forM fun row ↦ E.resourceFromMap row.resource.properties
    deleteEach E cat s (selected tx s filter) tx

/-! ## One row after the other -/

/-- The rows with the keys of these. -/
def named (rows : List TableRow) (row : TableRow) : Bool := rows.any (·.key == row.key)

/-- The rows can be deleted one after the other, after those in `done`: each is still there when its
turn comes, and nothing that stays refers to what has gone. -/
def Deletable (cat : Catalog) (db : Tables) (done : List TableRow) : List TableRow → Prop
  | [] => True
  | row :: rows => db.gone cat (named done) row = false ∧
      (∃ db', db.delete cat (named (done ++ [row])) = .ok db') ∧
      Deletable cat db (done ++ [row]) rows

/-- The events of deletions. -/
def logDeletions (tx : Tx) (rows : List TableRow) : Tx :=
  rows.foldl (fun tx row ↦ tx.logEvent .delete row.resource (Tx.deletedVersion row)) tx

/-- The transaction when these rows have been deleted and `db` is left. -/
def afterDeleting (tx : Tx) (rows : List TableRow) (db : Tables) : Tx :=
  { logDeletions tx rows with db }

/-- The handlers, where they return, leave the transaction alone. -/
def Extension.Silent (E : Extension) : Prop :=
  ∀ e row tx tx', E.handleEvent e row tx = .ok tx' → tx' = tx

section Loop

variable {E : Extension} {s : Schema} {tx tx' : Tx} {db db₁ : Tables} {row : TableRow}
  {rows done : List TableRow}

theorem logEvent_with_db {type : EventType} {resource : Resource} {version : ℤ} :
    { tx with db }.logEvent type resource version =
      { tx.logEvent type resource version with db } := by
  unfold Tx.logEvent
  cases Sync.logEvent tx.nextId type resource version <;> rfl

theorem logDeletions_with_db :
    logDeletions { tx with db } rows = { logDeletions tx rows with db } := by
  induction rows generalizing tx with
  | nil => rfl
  | cons row rows ih =>
    rw [logDeletions, List.foldl_cons, logEvent_with_db]
    exact ih

/-- What has no events is not logged. -/
theorem logDeletions_eq_self (h : ∀ row ∈ rows, ¬ row.resource.schema.syncEventNeeded = true) :
    logDeletions tx rows = tx := by
  induction rows with
  | nil => rfl
  | cons row rows ih =>
    obtain ⟨hrow, hrows⟩ := List.forall_mem_cons.mp h
    have hlog : tx.logEvent .delete row.resource (Tx.deletedVersion row) = tx := by
      rw [Tx.logEvent, Sync.logEvent, if_neg hrow]
    rw [logDeletions, List.foldl_cons, hlog]
    exact ih hrows

/-- One more. -/
theorem afterDeleting_append_singleton (db₁ db₂ : Tables) :
    afterDeleting tx (done ++ [row]) db₂ = { afterDeleting tx done db₁ with
      db := db₂ }.logEvent .delete row.resource (Tx.deletedVersion row) := by
  rw [afterDeleting, logDeletions, List.foldl_append]
  exact logEvent_with_db.symm

theorem named_append_singleton (hs : row.resource.schema.id = s.id) :
    named (done ++ [row]) = fun r ↦ named done r || r.is s row.resource.ID := by
  funext r
  have hkey : row.key = (s.id, row.resource.ID) := Prod.ext hs rfl
  rw [named, List.any_append, List.any_cons, List.any_nil, Bool.or_false, TableRow.is, ← hkey,
    BEq.comm]
  rfl

/-- **One deletion in the loop**, after those in `done`. -/
theorem delete_eq_ok_iff (hrow : row ∈ tx.db.rows) (hs : row.resource.schema.id = s.id)
    (hdone : tx.db.delete cat (named done) = .ok db₁) :
    (afterDeleting tx done db₁).delete cat s row.resource.ID = .ok tx' ↔
      tx.db.gone cat (named done) row = false ∧
        ∃ db₂, tx.db.delete cat (named (done ++ [row])) = .ok db₂ ∧
          tx' = afterDeleting tx (done ++ [row]) db₂ := by
  have his : row.is s row.resource.ID = true := TableRow.is_iff.mpr ⟨hs, rfl⟩
  have hthere : row ∈ db₁.rows ↔ tx.db.gone cat (named done) row = false := by
    rw [Tables.mem_of_delete_eq_ok hdone, and_iff_right hrow]
  rw [Tx.delete, Go.bind_eq_ok]
  constructor
  · rintro ⟨row', hfetch, h⟩
    obtain ⟨hmem, his'⟩ := Tables.fetch_eq_ok.mp hfetch
    obtain rfl : row' = row := by
      refine Tables.eq_of_key_eq ((Tables.mem_of_delete_eq_ok hdone).mp hmem).1 hrow ?_
      exact (beq_iff_eq.mp his').trans (beq_iff_eq.mp his).symm
    obtain ⟨db₂, hdelete, h⟩ := Go.bind_eq_ok.mp h
    cases h
    refine ⟨hthere.mp hmem, db₂, ?_, ?_⟩
    · rw [named_append_singleton hs]
      exact (Tables.delete_delete_iff hdone).mp hdelete
    · rw [afterDeleting_append_singleton db₁]
  · rintro ⟨hstays, db₂, hdelete, rfl⟩
    rw [named_append_singleton hs] at hdelete
    refine ⟨row, Tables.fetch_eq_ok.mpr ⟨hthere.mpr hstays, his⟩, Go.bind_eq_ok.mpr
      ⟨db₂, (Tables.delete_delete_iff hdone).mpr hdelete, ?_⟩⟩
    rw [afterDeleting_append_singleton db₁]
    rfl

theorem deletable_of_deleteEach (hsilent : E.Silent)
    (hrows : ∀ row ∈ rows, row ∈ tx.db.rows ∧ row.resource.schema.id = s.id)
    (hdone : tx.db.delete cat (named done) = .ok db₁)
    (h : deleteEach E cat s rows (afterDeleting tx done db₁) = .ok tx') :
    Deletable cat tx.db done rows ∧ ∃ db₂, tx.db.delete cat (named (done ++ rows)) = .ok db₂ ∧
      tx' = afterDeleting tx (done ++ rows) db₂ := by
  induction rows generalizing done db₁ with
  | nil =>
    cases h
    rw [List.append_nil]
    exact ⟨trivial, db₁, hdone, rfl⟩
  | cons row rows ih =>
    obtain ⟨hrow, hrows⟩ := List.forall_mem_cons.mp hrows
    rw [deleteEach] at h
    obtain ⟨tx₁, hpre, h⟩ := Go.bind_eq_ok.mp h
    obtain ⟨tx₂, hdelete, h⟩ := Go.bind_eq_ok.mp h
    obtain ⟨tx₃, hpost, h⟩ := Go.bind_eq_ok.mp h
    rw [hsilent _ _ _ _ hpre] at hdelete
    obtain ⟨hstays, db₂, hdb₂, htx₂⟩ := (delete_eq_ok_iff hrow.1 hrow.2 hdone).mp hdelete
    rw [hsilent _ _ _ _ hpost, htx₂] at h
    obtain ⟨hdeletable, db₃, hdb₃, htx⟩ := ih hrows hdb₂ h
    rw [List.append_assoc] at hdb₃ htx
    exact ⟨⟨hstays, ⟨db₂, hdb₂⟩, hdeletable⟩, db₃, hdb₃, htx⟩

theorem deleteEach_of_deletable (hpassive : ∀ e row tx, E.handleEvent e row tx = .ok tx)
    (hrows : ∀ row ∈ rows, row ∈ tx.db.rows ∧ row.resource.schema.id = s.id)
    (hdone : tx.db.delete cat (named done) = .ok db₁) (h : Deletable cat tx.db done rows) :
    ∃ db₂, tx.db.delete cat (named (done ++ rows)) = .ok db₂ ∧
      deleteEach E cat s rows (afterDeleting tx done db₁) =
        .ok (afterDeleting tx (done ++ rows) db₂) := by
  induction rows generalizing done db₁ with
  | nil =>
    rw [List.append_nil]
    exact ⟨db₁, hdone, rfl⟩
  | cons row rows ih =>
    obtain ⟨hrow, hrows⟩ := List.forall_mem_cons.mp hrows
    obtain ⟨hstays, ⟨db₂, hdb₂⟩, hdeletable⟩ := h
    obtain ⟨db₃, hdb₃, heach⟩ := ih hrows hdb₂ hdeletable
    rw [List.append_assoc] at hdb₃ heach
    refine ⟨db₃, hdb₃, ?_⟩
    have hdelete := (delete_eq_ok_iff hrow.1 hrow.2 hdone).mpr ⟨hstays, db₂, hdb₂, rfl⟩
    rw [deleteEach, hpassive, Go.ok_bind, hdelete, Go.ok_bind, hpassive, Go.ok_bind]
    exact heach

/-- **Deleting the rows all at once.** -/
theorem dbDeleteFilter_eq_ok_iff {filter : TableRow → Bool}
    (hregistered : ∀ row ∈ tx.db.rows, row.resource.schema ∈ cat.schemas) (hs : s ∈ cat.schemas) :
    dbDeleteFilter cat tx s (some filter) = .ok tx' ↔
      ∃ db₂, tx.db.delete cat (named (selected tx s filter)) = .ok db₂ ∧
        tx' = afterDeleting tx (selected tx s filter) db₂ := by
  have hnamed : ∀ row ∈ tx.db.rows, (row.resource.schema.id == s.id && filter row) =
      named (selected tx s filter) row := by
    intro row hrow
    rw [Bool.eq_iff_iff, named, List.any_eq_true]
    constructor
    · exact fun h ↦ ⟨row, List.mem_filter.mpr ⟨hrow, h⟩, beq_self_eq_true _⟩
    · rintro ⟨row', hrow', hkey⟩
      obtain ⟨hmem, hselected⟩ := List.mem_filter.mp hrow'
      rw [← Tables.eq_of_key_eq hmem hrow (beq_iff_eq.mp hkey)]
      exact hselected
  have hpure {tx₁ tx₂ : Tx} (h : tx₁ = tx₂) : (pure tx₁ : Go Tx) = .ok tx' ↔ tx' = tx₂ :=
    ⟨fun hok ↦ (Except.ok.inj hok).symm.trans h, fun htx ↦ congrArg Except.ok (h.trans htx.symm)⟩
  rw [dbDeleteFilter, Tx.deleteFilter, Go.bind_eq_ok]
  refine exists_congr fun db₂ ↦ and_congr (Tables.delete_congr hnamed) ?_
  split
  · exact hpure logDeletions_with_db
  · next hneeded =>
    refine hpure ?_
    rw [afterDeleting, logDeletions_eq_self]
    intro row hrow
    obtain ⟨hmem, hselected⟩ := List.mem_filter.mp hrow
    rw [Bool.and_eq_true, beq_iff_eq] at hselected
    rwa [cat.eq_of_id_eq (hregistered row hmem) hs hselected.1]

omit [TextEngine] in
theorem forM_eq_ok {f : TableRow → Go Unit} (h : ∀ row, f row = .ok ()) :
    rows.forM f = .ok () := by
  induction rows with
  | nil => rfl
  | cons row rows ih =>
    rw [List.forM_eq_forM, List.forM_cons, h]
    exact ih

/-- **Deleting one row after the other agrees with deleting them all at once.**  If the handlers
leave the transaction alone, what the first way comes to, with its rows of the event table, the
second way comes to as well; and where nothing fails on the side of the extension, the first way
succeeds when the second does and the rows can be deleted one after the other. -/
theorem deleteFilter_agrees {filter : Option (TableRow → Bool)}
    (hregistered : ∀ row ∈ tx.db.rows, row.resource.schema ∈ cat.schemas) (hs : s ∈ cat.schemas)
    (hsilent : E.Silent) :
    (deleteFilter E cat tx s filter = .ok tx' → dbDeleteFilter cat tx s filter = .ok tx' ∧
      ∀ selects, filter = some selects → Deletable cat tx.db [] (selected tx s selects)) ∧
    ((∀ data, E.resourceFromMap data = .ok ()) →
      (∀ e row tx, E.handleEvent e row tx = .ok tx) →
      dbDeleteFilter cat tx s filter = .ok tx' →
      (∀ selects, filter = some selects → Deletable cat tx.db [] (selected tx s selects)) →
      deleteFilter E cat tx s filter = .ok tx') := by
  cases filter with
  | none => exact ⟨fun h ↦ absurd h (Go.errorf_ne_ok _ _ _),
      fun _ _ h ↦ absurd h (Go.errorf_ne_ok _ _ _)⟩
  | some filter =>
    have hrows : ∀ row ∈ selected tx s filter, row ∈ tx.db.rows ∧
        row.resource.schema.id = s.id := by
      intro row hrow
      obtain ⟨hmem, hselected⟩ := List.mem_filter.mp hrow
      rw [Bool.and_eq_true, beq_iff_eq] at hselected
      exact ⟨hmem, hselected.1⟩
    have hnothing : tx.db.delete cat (named []) = .ok tx.db := Tables.delete_nothing tx.db
    rw [dbDeleteFilter_eq_ok_iff hregistered hs, deleteFilter, Go.bind_eq_ok]
    constructor
    · rintro ⟨-, -, h⟩
      obtain ⟨hdeletable, db₂, hdelete, rfl⟩ :=
        deletable_of_deleteEach hsilent hrows hnothing h
      refine ⟨⟨db₂, hdelete, rfl⟩, fun selects hselects ↦ ?_⟩
      cases hselects
      exact hdeletable
    · rintro hfromMap hpassive ⟨db₂, hdelete, rfl⟩ hdeletable
      obtain ⟨db₃, hdelete', heach⟩ := deleteEach_of_deletable hpassive hrows hnothing
        (hdeletable filter rfl)
      cases hdelete.symm.trans hdelete'
      exact ⟨(), forM_eq_ok fun row ↦ hfromMap row.resource.properties, heach⟩

end Loop

/-! ## Folders in a folder -/

/-- A folder goes with the one it is in. -/
def folderSchema : Schema where
  id := "folder"
  singular := "folder"
  plural := "folders"
  url := "/v1.0/folders"
  properties := [{ id := "id" }, { id := "in_id", relation := "folder", nullable := true }]

/-- Folders go with the folder they are in. -/
def folderCatalog : Catalog where
  schemas := [folderSchema]
  distinct := by decide
  onDeleteCascade _ _ := true

/-- A folder in another one, or in none. -/
def folder (id : String) (inside : Value) : TableRow :=
  ⟨⟨folderSchema, GoMap.ofList [("id", .str id), ("in_id", inside)]⟩, 1⟩

/-- A folder with two others in it. -/
def folders : List TableRow :=
  [folder "top" .nil, folder "left" (.str "top"), folder "right" (.str "top")]

/-- An extension without handlers, where all data can be read. -/
def quiet : Extension where
  resourceFromMap _ := .ok ()
  handleEvent _ _ tx := .ok tx

omit [TextEngine] in
/-- The two folders can be deleted one after the other. -/
theorem deleteFilter_agrees_folders :
    letI := placeholders
    let tx : Tx := ⟨⟨folders, by decide⟩, [], 1⟩
    ∃ tx', deleteFilter quiet folderCatalog tx folderSchema
        (some fun row ↦ row.resource.properties.get "in_id" == .str "top") = .ok tx' ∧
      tx'.db.rows.length = 1 ∧ tx'.events.length = 2 := by
  let _ := placeholders
  intro tx
  have hregistered : ∀ row ∈ tx.db.rows, row.resource.schema ∈ folderCatalog.schemas := by
    intro row hrow
    simp only [tx, folders, List.mem_cons, List.not_mem_nil, or_false] at hrow
    rcases hrow with rfl | rfl | rfl <;> exact List.mem_singleton_self _
  have hsilent : quiet.Silent := fun _ _ _ _ h ↦ (Except.ok.inj h).symm
  refine ⟨_, (deleteFilter_agrees hregistered (List.mem_singleton_self _) hsilent).2 (fun _ ↦ rfl)
    (fun _ _ _ ↦ rfl) rfl fun selects hselects ↦ ?_, rfl, rfl⟩
  cases hselects
  exact ⟨rfl, ⟨_, rfl⟩, rfl, ⟨_, rfl⟩, trivial⟩

omit [TextEngine] in
/-- All three can be deleted at once, but not the first before the others, which go with it. -/
theorem not_deletable_folders :
    letI := placeholders
    let tx : Tx := ⟨⟨folders, by decide⟩, [], 1⟩
    (∃ tx', dbDeleteFilter folderCatalog tx folderSchema (some fun _ ↦ true) = .ok tx' ∧
      tx'.db.rows = []) ∧
    deleteFilter quiet folderCatalog tx folderSchema (some fun _ ↦ true) =
      .errorf "resource not found" :=
  ⟨⟨_, rfl, rfl⟩, rfl⟩

end Goplugin

end Gohan.Sync
