import Gohan.Sync.Completeness

/-!
# The versions of a resource's events

The table of a schema with `state_versioning` has a column `config_version`, which is 1 in a new row
and is incremented by every `Update`.  The event logger reads the version four times in four ways:
`Create` logs a literal 1, `Update` reads the column after it has written the row, `Delete` reads it
before and adds one, and `DeleteFilter` reads the versions of all rows it is about to delete into a
map, by their identifiers, and looks them up when the rows are gone.

`Tx.versionsOf` is what the events of a resource say about it in the course of many calls, and
`Call.versions` what they ought to say.  They are the same for a resource that is created, lives
through any number of calls and is deleted by one (`versions_of_lifetime`).
-/

set_option autoImplicit false

namespace Gohan.Sync

variable [TextEngine] {cat : Catalog}

/-! ## What has not been modelled of the logger so far -/

namespace Tables

/-- `StateUpdate`: what `Update` does, without a new version. -/
def stateUpdate (db : Tables) (resource : Resource) : Tables where
  rows := db.rows.map fun row ↦
    if row.is resource.schema resource.ID then
      { row.updated resource with configVersion := row.configVersion }
    else row
  primary := by
    have hkeys : (db.rows.map fun row ↦
        if row.is resource.schema resource.ID then
          { row.updated resource with configVersion := row.configVersion }
        else row).map TableRow.key = db.rows.map TableRow.key := by
      rw [List.map_map]
      refine List.map_congr_left fun row _ ↦ ?_
      simp only [Function.comp_apply]
      split
      · next h => exact TableRow.updated_key h
      · rfl
    rw [hkeys]
    exact db.primary

/-- The rows of a table that a filter selects. -/
def list (db : Tables) (s : Schema) (filter : TableRow → Bool) : List TableRow :=
  db.rows.filter fun row ↦ row.resource.schema.id == s.id && filter row

/-- `StateList`: the identifiers and versions of the rows. -/
def stateList (db : Tables) (s : Schema) (filter : TableRow → Bool) : List (String × ℤ) :=
  (db.list s filter).map fun row ↦ (row.resource.ID, row.configVersion)

/-- The map in which `DeleteFilter` keeps the versions of the rows that it lists. -/
def resourceConfigVersionMap (db : Tables) (s : Schema) (filter : TableRow → Bool) : GoMap ℤ :=
  if s.stateVersioning then GoMap.ofList (db.stateList s filter) else ∅

end Tables

namespace Tx

/-- `StateUpdate`, which logs nothing. -/
def stateUpdate (tx : Tx) (resource : Resource) : Tx :=
  { tx with db := tx.db.stateUpdate resource }

/-- `Resync`. -/
def resync (tx : Tx) (resource : Resource) : Go Tx := do
  if resource.schema.stateVersioning then
    let state ← tx.db.fetch resource.schema resource.ID
    return tx.logEvent .update resource state.configVersion
  else return tx.logEvent .update resource 0

/-- The version that `DeleteFilter` logs for a row it has listed. -/
def listedVersion (s : Schema) (resourceConfigVersionMap : GoMap ℤ) (row : TableRow) : ℤ :=
  if s.stateVersioning then (resourceConfigVersionMap.lookup row.resource.ID).getD 0 + 1 else 0

/-- `DeleteFilter`, with the map of the versions that it reads from the state list. -/
def deleteListed (cat : Catalog) (tx : Tx) (s : Schema) (filter : TableRow → Bool) : Go Tx := do
  let targets := fun row : TableRow ↦ row.resource.schema.id == s.id && filter row
  if s.syncEventNeeded then
    let resources := tx.db.list s filter
    let resourceConfigVersionMap := tx.db.resourceConfigVersionMap s filter
    let db ← tx.db.delete cat targets
    return resources.foldl (fun tx row ↦
      tx.logEvent .delete row.resource (listedVersion s resourceConfigVersionMap row))
      { tx with db }
  else
    let db ← tx.db.delete cat targets
    return { tx with db }

end Tx

/-- A call of the logger, on a registered schema. -/
inductive Call (cat : Catalog) where
  | create (resource : Resource) (registered : resource.schema ∈ cat.schemas)
  | update (resource : Resource) (registered : resource.schema ∈ cat.schemas)
  | stateUpdate (resource : Resource) (registered : resource.schema ∈ cat.schemas)
  | resync (resource : Resource) (registered : resource.schema ∈ cat.schemas)
  | delete (s : Schema) (resourceID : String) (registered : s ∈ cat.schemas)
  | deleteFilter (s : Schema) (filter : TableRow → Bool) (registered : s ∈ cat.schemas)

namespace Call

/-- The schema whose rows a call is about. -/
def schema : Call cat → Schema
  | .create resource _ | .update resource _ | .stateUpdate resource _ | .resync resource _ =>
    resource.schema
  | .delete s _ _ | .deleteFilter s _ _ => s

/-- The rows named in a call that deletes. -/
def targets : Call cat → TableRow → Bool
  | .delete s resourceID _, row => row.is s resourceID
  | .deleteFilter s filter _, row => row.resource.schema.id == s.id && filter row
  | _, _ => false

end Call

namespace Tx

/-- One call. -/
def call (tx : Tx) : Call cat → Go Tx
  | .create resource _ => tx.create resource
  | .update resource _ => tx.update resource
  | .stateUpdate resource _ => .ok (tx.stateUpdate resource)
  | .resync resource _ => tx.resync resource
  | .delete s resourceID _ => tx.delete cat s resourceID
  | .deleteFilter s filter _ => tx.deleteListed cat s filter

/-- Calls that are committed, one after the other, in one transaction or in several. -/
def calls (tx : Tx) (cs : List (Call cat)) : Go Tx := cs.foldlM call tx

/-- The versions in the rows that a call has added to the event table for a resource. -/
def versionsIn (s : Schema) (resourceID : String) (c : Call cat) (added : List EventRow) :
    List ℤ :=
  if c.schema.id == s.id then
    (added.filter (·.path == s.url ++ "/" ++ resourceID)).map (·.version)
  else []

/-- The versions in the events of a resource, in the course of many calls. -/
def versionsOf (s : Schema) (resourceID : String) : Tx → List (Call cat) → List ℤ
  | _, [] => []
  | tx, c :: cs =>
    match tx.call c with
    | .ok tx' =>
      versionsIn s resourceID c (tx'.events.drop tx.events.length) ++
        tx'.versionsOf s resourceID cs
    | .error _ => []

end Tx

/-! ## What the events ought to say -/

namespace Call

/-- Is the call about this resource? -/
def about (s : Schema) (resourceID : String) (resource : Resource) : Bool :=
  resource.schema.id == s.id && resource.ID == resourceID

/-- The version of the resource after the call, if it was `v` before. -/
def next (s : Schema) (resourceID : String) (v : ℤ) : Call cat → ℤ
  | .update resource _ => if about s resourceID resource then v + 1 else v
  | _ => v

/-- The versions that a call logs for the resource, if it does not delete it: an update logs one
more than the version before it, and a resync the version as it is. -/
def logged (s : Schema) (resourceID : String) (v : ℤ) : Call cat → List ℤ
  | .update resource _ => if about s resourceID resource then [v + 1] else []
  | .resync resource _ => if about s resourceID resource then [v] else []
  | _ => []

/-- The versions that many calls log. -/
def versions (s : Schema) (resourceID : String) : ℤ → List (Call cat) → List ℤ
  | _, [] => []
  | v, c :: cs => logged s resourceID v c ++ versions s resourceID (next s resourceID v c) cs

/-- The version after many calls. -/
def last (s : Schema) (resourceID : String) (v : ℤ) (cs : List (Call cat)) : ℤ :=
  cs.foldl (next s resourceID) v

variable {s : Schema} {resourceID : String} {v : ℤ} {c : Call cat} {cs : List (Call cat)}

theorem about_iff {resource : Resource} : about s resourceID resource = true ↔
    resource.schema.id = s.id ∧ resource.ID = resourceID := by
  simp [about]

theorem le_next : v ≤ next s resourceID v c := by
  cases c with
  | update resource _ =>
    rw [next]
    split <;> omega
  | _ => exact Int.le_refl _

/-- What a call logs is the version that it leaves. -/
theorem eq_next_of_mem_logged {w : ℤ} (h : w ∈ logged s resourceID v c) :
    w = next s resourceID v c := by
  cases c with
  | update resource _ =>
    rw [logged] at h
    split at h
    · next habout => rw [next, if_pos habout, List.mem_singleton.mp h]
    · cases h
  | resync resource _ =>
    rw [logged] at h
    split at h
    · exact List.mem_singleton.mp h
    · cases h
  | _ => cases h

theorem logged_pairwise : (logged s resourceID v c).Pairwise (· ≤ ·) := by
  cases c with
  | update resource _ | resync resource _ =>
    rw [logged]
    split
    · exact List.pairwise_singleton _ _
    · exact List.Pairwise.nil
  | _ => exact List.Pairwise.nil

theorem le_last : v ≤ last s resourceID v cs := by
  induction cs generalizing v with
  | nil => exact Int.le_refl _
  | cons c cs ih => exact Int.le_trans le_next ih

/-- The versions lie between the first and the last one. -/
theorem bounds_of_mem_versions {w : ℤ} (h : w ∈ versions s resourceID v cs) :
    v ≤ w ∧ w ≤ last s resourceID v cs := by
  induction cs generalizing v with
  | nil => cases h
  | cons c cs ih =>
    rcases List.mem_append.mp h with h | h
    · rw [eq_next_of_mem_logged h]
      exact ⟨le_next, le_last⟩
    · exact ⟨Int.le_trans le_next (ih h).1, (ih h).2⟩

theorem versions_pairwise : (versions s resourceID v cs).Pairwise (· ≤ ·) := by
  induction cs generalizing v with
  | nil => exact List.Pairwise.nil
  | cons c cs ih =>
    refine List.pairwise_append.mpr ⟨logged_pairwise, ih, fun w hw w' hw' ↦ ?_⟩
    rw [eq_next_of_mem_logged hw]
    exact (bounds_of_mem_versions hw').1

end Call

/-! ## What one call does -/

/-- The rows belong to registered schemas. -/
def Tables.Registered (cat : Catalog) (db : Tables) : Prop :=
  ∀ row ∈ db.rows, row.resource.schema ∈ cat.schemas

namespace Tables

variable {db db' : Tables} {resource : Resource} {row row' : TableRow} {s : Schema}
  {resourceID : String}

theorem mem_stateUpdate : row' ∈ (db.stateUpdate resource).rows ↔ ∃ row ∈ db.rows,
    row' = if row.is resource.schema resource.ID then
      { row.updated resource with configVersion := row.configVersion } else row := by
  rw [stateUpdate, List.mem_map]
  exact exists_congr fun row ↦ and_congr_right fun _ ↦ eq_comm

theorem Registered.create (h : db.Registered cat) (hresource : resource.schema ∈ cat.schemas)
    (hdb : db.create resource = .ok db') : db'.Registered cat := by
  intro row hrow
  rw [(create_eq_ok hdb).2] at hrow
  rcases List.mem_append.mp hrow with hrow | hrow
  · exact h row hrow
  · cases List.mem_singleton.mp hrow
    exact hresource

theorem Registered.update (h : db.Registered cat) (hresource : resource.schema ∈ cat.schemas) :
    (db.update resource).Registered cat := by
  intro row' hrow'
  obtain ⟨row, hrow, rfl⟩ := mem_update.mp hrow'
  split
  · exact hresource
  · exact h row hrow

theorem Registered.stateUpdate (h : db.Registered cat)
    (hresource : resource.schema ∈ cat.schemas) : (db.stateUpdate resource).Registered cat := by
  intro row' hrow'
  obtain ⟨row, hrow, rfl⟩ := mem_stateUpdate.mp hrow'
  split
  · exact hresource
  · exact h row hrow

theorem Registered.delete {targets : TableRow → Bool} (h : db.Registered cat)
    (hdb : db.delete cat targets = .ok db') : db'.Registered cat :=
  fun row hrow ↦ h row ((mem_of_delete_eq_ok hdb).mp hrow).1

/-- A row that has been fetched belongs to the schema it was asked of. -/
theorem Registered.schema_eq (h : db.Registered cat) (hs : s ∈ cat.schemas)
    (hrow : db.fetch s resourceID = .ok row) : row.resource.schema = s :=
  cat.eq_of_id_eq (h row (fetch_eq_ok.mp hrow).1) hs
    (TableRow.is_iff.mp (fetch_eq_ok.mp hrow).2).1

/-- A row that is still there is the one that is fetched. -/
theorem eq_of_fetch (hfetch : db.fetch s resourceID = .ok row') (hrow : row ∈ db.rows)
    (his : row.is s resourceID = true) : row' = row :=
  eq_of_key_eq (fetch_eq_ok.mp hfetch).1 hrow
    ((beq_iff_eq.mp (fetch_eq_ok.mp hfetch).2).trans (beq_iff_eq.mp his).symm)

end Tables

namespace Tx

variable {tx tx' : Tx} {s : Schema} {resourceID : String} {c : Call cat} {row row' : TableRow}

/-- The versions in the event of one resource. -/
theorem versionsIn_logEvent {n : ℕ} {type : EventType} {resource : Resource} {version : ℤ}
    (hs : s ∈ cat.schemas) (hresource : resource.schema ∈ cat.schemas)
    (hc : c.schema = resource.schema) :
    versionsIn s resourceID c (Sync.logEvent n type resource version).toList =
      if s.syncEventNeeded then
        if Call.about s resourceID resource then [version] else []
      else [] := by
  rw [versionsIn, hc]
  by_cases hid : resource.schema.id = s.id
  · have hschema := cat.eq_of_id_eq hresource hs hid
    have hpath : (resource.path == s.url ++ "/" ++ resourceID) = (resource.ID == resourceID) := by
      rw [Resource.path, hschema, Bool.eq_iff_iff, beq_iff_eq, beq_iff_eq]
      exact ⟨fun h ↦ by simpa using h, fun h ↦ by rw [h]⟩
    rw [if_pos (beq_iff_eq.mpr hid), Sync.logEvent, hschema, Call.about, hid, beq_self_eq_true,
      Bool.true_and]
    by_cases hneeded : s.syncEventNeeded = true
    · simp only [hneeded, if_true, Option.toList_some, List.filter_cons, hpath, List.filter_nil]
      split <;> rfl
    · simp [hneeded]
  · have habout : Call.about s resourceID resource = false := by simp [Call.about, hid]
    simp [hid, habout]

omit [TextEngine] in
theorem versionsIn_nil : versionsIn s resourceID c [] = [] := by
  rw [versionsIn]
  split <;> rfl

theorem is_of_about {resource : Resource} (habout : Call.about s resourceID resource = true)
    (hrow : row.is s resourceID = true) : row.is resource.schema resource.ID = true := by
  obtain ⟨hid, hID⟩ := Call.about_iff.mp habout
  rw [TableRow.is, hid, hID]
  exact hrow

theorem about_of_is {resource : Resource} (hrow : row.is s resourceID = true)
    (his : row.is resource.schema resource.ID = true) :
    Call.about s resourceID resource = true := by
  obtain ⟨hid, hID⟩ := TableRow.is_iff.mp hrow
  obtain ⟨hid', hID'⟩ := TableRow.is_iff.mp his
  exact Call.about_iff.mpr ⟨hid'.symm.trans hid, hID'.symm.trans hID⟩

/-- The version in the event of an update is read from the row that it has written. -/
theorem update_eq_ok_of_versioned {resource : Resource}
    (hversioned : resource.schema.stateVersioning = true) (h : tx.update resource = .ok tx') :
    ∃ state, tx'.db.fetch resource.schema resource.ID = .ok state ∧ tx'.events = tx.events ++
      (Sync.logEvent tx.nextId .update resource state.configVersion).toList := by
  rw [update, if_pos hversioned, Go.bind_eq_ok] at h
  obtain ⟨state, hstate, h⟩ := h
  cases h
  exact ⟨state, by rw [logEvent_db]; exact hstate, logEvent_events ..⟩

theorem resync_eq_ok_of_versioned {resource : Resource}
    (hversioned : resource.schema.stateVersioning = true) (h : tx.resync resource = .ok tx') :
    ∃ state, tx.db.fetch resource.schema resource.ID = .ok state ∧ tx'.events = tx.events ++
      (Sync.logEvent tx.nextId .update resource state.configVersion).toList := by
  rw [resync, if_pos hversioned, Go.bind_eq_ok] at h
  obtain ⟨state, hstate, h⟩ := h
  cases h
  exact ⟨state, hstate, logEvent_events ..⟩

theorem resync_eq_ok {resource : Resource} (h : tx.resync resource = .ok tx') :
    tx'.db = tx.db ∧ ∃ version, tx'.events = tx.events ++
      (Sync.logEvent tx.nextId .update resource version).toList := by
  rw [resync] at h
  split at h
  · rw [Go.bind_eq_ok] at h
    obtain ⟨state, -, h⟩ := h
    cases h
    exact ⟨logEvent_db .., _, logEvent_events ..⟩
  · cases h
    exact ⟨logEvent_db .., _, logEvent_events ..⟩

/-! ### A call that the resource survives -/

section Survives

variable (hs : s ∈ cat.schemas) (hversioned : s.stateVersioning = true)
  (hrow : tx.db.fetch s resourceID = .ok row) (hrow' : tx'.db.fetch s resourceID = .ok row')

include hs hrow hrow'

theorem create_of_survives {resource : Resource} (hr : resource.schema ∈ cat.schemas)
    (h : tx.create resource = .ok tx') : row' = row ∧
      versionsIn s resourceID (.create resource hr) (tx'.events.drop tx.events.length) = [] := by
  obtain ⟨hdb, hevents⟩ := create_eq_ok h
  obtain ⟨hnew, hrows⟩ := Tables.create_eq_ok hdb
  obtain ⟨hmem, his⟩ := Tables.fetch_eq_ok.mp hrow
  have habout : Call.about s resourceID resource = false := by
    by_contra habout
    exact hnew row hmem (beq_iff_eq.mp (is_of_about (by simpa using habout) his))
  rw [hevents, List.drop_left, versionsIn_logEvent hs hr rfl, habout]
  exact ⟨Tables.eq_of_fetch hrow' (hrows ▸ List.mem_append_left _ hmem) his, by simp⟩

include hversioned in
theorem update_of_survives {resource : Resource} (hr : resource.schema ∈ cat.schemas)
    (h : tx.update resource = .ok tx') :
    row'.configVersion = Call.next s resourceID row.configVersion (.update resource hr) ∧
      versionsIn s resourceID (.update resource hr) (tx'.events.drop tx.events.length) =
        if s.syncEventNeeded then
          Call.logged s resourceID row.configVersion (.update resource hr)
        else [] := by
  obtain ⟨hmem, his⟩ := Tables.fetch_eq_ok.mp hrow
  obtain ⟨hdb, version, hevents⟩ := update_eq_ok h
  rw [Call.next, Call.logged]
  by_cases habout : Call.about s resourceID resource = true
  · have hrow_is := is_of_about habout his
    have hschema := cat.eq_of_id_eq hr hs (Call.about_iff.mp habout).1
    have hupdated : row' = row.updated resource := by
      refine Tables.eq_of_fetch hrow' ?_ ?_
      · rw [hdb]
        exact Tables.mem_update.mpr ⟨row, hmem, (if_pos hrow_is).symm⟩
      · rw [TableRow.is, TableRow.updated_key hrow_is]
        exact his
    have hversion : row'.configVersion = row.configVersion + 1 := by
      rw [hupdated, TableRow.updated, hschema, hversioned]
      rfl
    obtain ⟨state, hstate, hevents⟩ := update_eq_ok_of_versioned (hschema ▸ hversioned) h
    have hread : state = row' := by
      obtain ⟨hmem', his'⟩ := Tables.fetch_eq_ok.mp hrow'
      exact Tables.eq_of_fetch hstate hmem' (is_of_about habout his')
    rw [hevents, List.drop_left, versionsIn_logEvent hs hr rfl, if_pos habout, if_pos habout,
      if_pos habout, hread, hversion]
    exact ⟨rfl, rfl⟩
  · have hstays : row' = row := by
      refine Tables.eq_of_fetch hrow' ?_ his
      rw [hdb]
      exact Tables.mem_update.mpr
        ⟨row, hmem, (if_neg fun hrow_is ↦ habout (about_of_is his hrow_is)).symm⟩
    rw [hevents, List.drop_left, versionsIn_logEvent hs hr rfl, if_neg habout, if_neg habout,
      if_neg habout, hstays]
    exact ⟨rfl, rfl⟩

omit hs in
theorem stateUpdate_of_survives {resource : Resource}
    (h : tx.stateUpdate resource = tx') : row'.configVersion = row.configVersion ∧
      tx'.events.drop tx.events.length = [] := by
  obtain ⟨hmem, his⟩ := Tables.fetch_eq_ok.mp hrow
  subst h
  refine ⟨?_, List.drop_length⟩
  by_cases hrow_is : row.is resource.schema resource.ID = true
  · rw [Tables.eq_of_fetch hrow' (Tables.mem_stateUpdate.mpr ⟨row, hmem, (if_pos hrow_is).symm⟩)
      ((congrArg (· == _) (TableRow.updated_key hrow_is)).trans his)]
  · rw [Tables.eq_of_fetch hrow' (Tables.mem_stateUpdate.mpr
      ⟨row, hmem, (if_neg hrow_is).symm⟩) his]

include hversioned in
theorem resync_of_survives {resource : Resource} (hr : resource.schema ∈ cat.schemas)
    (h : tx.resync resource = .ok tx') : row' = row ∧
      versionsIn s resourceID (.resync resource hr) (tx'.events.drop tx.events.length) =
        if s.syncEventNeeded then
          Call.logged s resourceID row.configVersion (.resync resource hr)
        else [] := by
  obtain ⟨hmem, his⟩ := Tables.fetch_eq_ok.mp hrow
  obtain ⟨hdb, version, hevents⟩ := resync_eq_ok h
  refine ⟨Tables.eq_of_fetch hrow' (by rwa [hdb]) his, ?_⟩
  rw [Call.logged]
  by_cases habout : Call.about s resourceID resource = true
  · have hschema := cat.eq_of_id_eq hr hs (Call.about_iff.mp habout).1
    obtain ⟨state, hstate, hevents⟩ := resync_eq_ok_of_versioned (hschema ▸ hversioned) h
    have hread : state = row := Tables.eq_of_fetch hstate hmem (is_of_about habout his)
    rw [hevents, List.drop_left, versionsIn_logEvent hs hr rfl, if_pos habout, if_pos habout,
      hread]
  · rw [hevents, List.drop_left, versionsIn_logEvent hs hr rfl, if_neg habout, if_neg habout]

omit hs in
theorem not_target_of_survives {targets : TableRow → Bool}
    (hdb : tx.db.delete cat targets = .ok tx'.db) : row' = row ∧ targets row = false := by
  obtain ⟨hmem, his⟩ := Tables.fetch_eq_ok.mp hrow
  obtain ⟨hmem', his'⟩ := Tables.fetch_eq_ok.mp hrow'
  obtain ⟨hwas, hgone⟩ := (Tables.mem_of_delete_eq_ok hdb).mp hmem'
  cases Tables.eq_of_fetch hrow hwas his'
  refine ⟨rfl, ?_⟩
  by_contra htarget
  rw [Tables.gone_of_target hmem (by simpa using htarget)] at hgone
  cases hgone

end Survives

/-! ### A call that deletes -/

/-- The events of the rows that are listed, and their versions. -/
theorem foldl_logEvent_versions (version : TableRow → ℤ) (rows : List TableRow) (tx : Tx) :
    (rows.foldl (fun tx row ↦ tx.logEvent .delete row.resource (version row)) tx).db = tx.db ∧
      ∃ added, (rows.foldl (fun tx row ↦ tx.logEvent .delete row.resource (version row))
          tx).events = tx.events ++ added ∧
        ∀ path, (added.filter (·.path == path)).map (·.version) =
          (rows.filter fun row ↦ row.resource.schema.syncEventNeeded &&
            row.resource.path == path).map version := by
  induction rows generalizing tx with
  | nil => exact ⟨rfl, [], (List.append_nil _).symm, fun _ ↦ rfl⟩
  | cons row rows ih =>
    obtain ⟨hdb, added, hevents, hadded⟩ := ih (tx.logEvent .delete row.resource (version row))
    refine ⟨by rw [List.foldl_cons, hdb, logEvent_db],
      (Sync.logEvent tx.nextId .delete row.resource (version row)).toList ++ added, ?_,
      fun path ↦ ?_⟩
    · rw [List.foldl_cons, hevents, logEvent_events, List.append_assoc]
    · rw [List.filter_append, List.map_append, hadded, Sync.logEvent]
      by_cases hneeded : row.resource.schema.syncEventNeeded = true
      · by_cases hpath : row.resource.path = path <;> simp [hneeded, hpath]
      · simp [hneeded]

theorem delete_of_deleteListed {filter : TableRow → Bool}
    (h : tx.deleteListed cat s filter = .ok tx') : tx.db.delete cat
      (fun row ↦ row.resource.schema.id == s.id && filter row) = .ok tx'.db := by
  rw [deleteListed] at h
  split at h
  · rw [Go.bind_eq_ok] at h
    obtain ⟨db, hdb, h⟩ := h
    cases h
    rw [hdb, (foldl_logEvent_versions _ _ _).1]
  · rw [Go.bind_eq_ok] at h
    obtain ⟨db, hdb, h⟩ := h
    cases h
    exact hdb

/-- The versions in the events that `DeleteFilter` logs for one resource. -/
theorem versionsIn_deleteListed {s' : Schema} {filter : TableRow → Bool} (hs' : s' ∈ cat.schemas)
    (hs : s ∈ cat.schemas) (hreg : tx.db.Registered cat)
    (h : tx.deleteListed cat s' filter = .ok tx') :
    versionsIn s resourceID (.deleteFilter s' filter hs') (tx'.events.drop tx.events.length) =
      if s'.id = s.id ∧ s.syncEventNeeded = true then
        ((tx.db.list s filter).filter (·.is s resourceID)).map
          (listedVersion s (tx.db.resourceConfigVersionMap s filter))
      else [] := by
  rw [versionsIn, Call.schema]
  by_cases hid : s'.id = s.id
  · cases cat.eq_of_id_eq hs' hs hid
    rw [beq_self_eq_true, if_pos rfl]
    rw [deleteListed] at h
    by_cases hneeded : s.syncEventNeeded = true
    · rw [if_pos hneeded, Go.bind_eq_ok] at h
      obtain ⟨db, hdb, h⟩ := h
      cases h
      obtain ⟨-, added, hevents, hadded⟩ := foldl_logEvent_versions
        (listedVersion s (tx.db.resourceConfigVersionMap s filter))
        (tx.db.list s filter) { tx with db }
      have hlogs : s.id = s.id ∧ s.syncEventNeeded = true := ⟨rfl, hneeded⟩
      rw [hevents, List.drop_left, hadded, if_pos hlogs]
      refine congrArg _ (List.filter_congr fun row hrow ↦ ?_)
      have hrow := List.mem_filter.mp hrow
      have hschema : row.resource.schema = s := cat.eq_of_id_eq (hreg row hrow.1) hs
        (beq_iff_eq.mp (Bool.and_eq_true_iff.mp hrow.2).1)
      rw [hschema, hneeded, Bool.true_and, Bool.eq_iff_iff, TableRow.is_iff, hschema, beq_iff_eq,
        Resource.path, hschema]
      exact ⟨fun h ↦ ⟨rfl, by simpa using h⟩, fun h ↦ by rw [h.2]⟩
    · rw [if_neg hneeded, Go.bind_eq_ok] at h
      obtain ⟨db, -, h⟩ := h
      cases h
      rw [List.drop_length, if_neg fun h ↦ hneeded h.2]
      rfl
  · rw [if_neg fun h ↦ hid (beq_iff_eq.mp h), if_neg fun h ↦ hid h.1]

/-- Of the rows that a filter selects, the one of the resource. -/
theorem list_filter_is (hrow : tx.db.fetch s resourceID = .ok row) (filter : TableRow → Bool) :
    (tx.db.list s filter).filter (·.is s resourceID) = if filter row then [row] else [] := by
  obtain ⟨hmem, his⟩ := Tables.fetch_eq_ok.mp hrow
  have honly : ∀ row', row' ∈ (tx.db.list s filter).filter (·.is s resourceID) ↔
      row' = row ∧ filter row = true := by
    intro row'
    rw [List.mem_filter, Tables.list, List.mem_filter, Bool.and_eq_true]
    constructor
    · rintro ⟨⟨hmem', -, hfilter⟩, his'⟩
      cases Tables.eq_of_fetch hrow hmem' his'
      exact ⟨rfl, hfilter⟩
    · rintro ⟨rfl, hfilter⟩
      exact ⟨⟨hmem, beq_iff_eq.mpr (TableRow.is_iff.mp his).1, hfilter⟩, his⟩
  have hnodup : ((tx.db.list s filter).filter (·.is s resourceID)).Nodup :=
    ((tx.db.primary.of_map _).filter _).filter _
  split
  · next hfilter =>
    refine List.perm_singleton.mp ((List.perm_ext_iff_of_nodup hnodup
      (List.nodup_singleton _)).mpr fun row' ↦ ?_)
    rw [honly, List.mem_singleton]
    exact and_iff_left hfilter
  · next hfilter =>
    refine List.eq_nil_iff_forall_not_mem.mpr fun row' hrow' ↦ ?_
    exact hfilter ((honly row').mp hrow').2

/-- The state list has the version of every row that is listed. -/
theorem listedVersion_eq (hversioned : s.stateVersioning = true)
    (hrow : tx.db.fetch s resourceID = .ok row) {filter : TableRow → Bool}
    (hfilter : filter row = true) :
    listedVersion s (tx.db.resourceConfigVersionMap s filter) row = row.configVersion + 1 := by
  obtain ⟨hmem, his⟩ := Tables.fetch_eq_ok.mp hrow
  have hentry : (row.resource.ID, row.configVersion) ∈ tx.db.stateList s filter :=
    List.mem_map_of_mem (List.mem_filter.mpr ⟨hmem, Bool.and_eq_true_iff.mpr
      ⟨beq_iff_eq.mpr (TableRow.is_iff.mp his).1, hfilter⟩⟩)
  rw [listedVersion, if_pos hversioned, Tables.resourceConfigVersionMap, if_pos hversioned]
  obtain ⟨v, hv⟩ := Option.isSome_iff_exists.mp (AList.lookup_isSome.mpr (GoMap.mem_ofList hentry))
  obtain ⟨row', hrow', heq⟩ := List.mem_map.mp (GoMap.mem_of_lookup_ofList hv)
  obtain ⟨hID, rfl⟩ := Prod.mk.inj heq
  have hrow' := List.mem_filter.mp hrow'
  have his' : row'.is s resourceID = true := TableRow.is_iff.mpr
    ⟨beq_iff_eq.mp (Bool.and_eq_true_iff.mp hrow'.2).1, hID.trans (TableRow.is_iff.mp his).2⟩
  rw [hv, Tables.eq_of_fetch hrow hrow'.1 his']
  rfl

/-- **The map gives every row the version that the row has itself**: `DeleteFilter` is what it is
taken for in `Tx.deleteFilter`. -/
theorem deleteListed_eq (hreg : tx.db.Registered cat) (hs : s ∈ cat.schemas)
    (filter : TableRow → Bool) : tx.deleteListed cat s filter = tx.deleteFilter cat s filter := by
  have hversion : ∀ row ∈ tx.db.list s filter,
      listedVersion s (tx.db.resourceConfigVersionMap s filter) row = deletedVersion row := by
    intro row hrow
    obtain ⟨hmem, hselected⟩ := List.mem_filter.mp hrow
    obtain ⟨hid, hfilter⟩ := Bool.and_eq_true_iff.mp hselected
    have hschema := cat.eq_of_id_eq (hreg row hmem) hs (beq_iff_eq.mp hid)
    rw [deletedVersion, hschema]
    by_cases hversioned : s.stateVersioning = true
    · have hfetch : tx.db.fetch s row.resource.ID = .ok row :=
        Tables.fetch_eq_ok.mpr ⟨hmem, TableRow.is_iff.mpr ⟨beq_iff_eq.mp hid, rfl⟩⟩
      rw [listedVersion_eq hversioned hfetch hfilter, if_pos hversioned]
    · rw [listedVersion, if_neg hversioned, if_neg hversioned]
  rw [deleteListed, deleteFilter]
  by_cases hneeded : s.syncEventNeeded = true
  · simp only [hneeded, if_true]
    congr 1
    funext db
    refine congrArg pure (List.foldl_ext _ _ _ fun tx' row hrow ↦ ?_)
    rw [hversion row hrow]
  · simp only [hneeded]
    rfl

/-- **One call that the resource survives.** -/
theorem call_of_survives (hreg : tx.db.Registered cat) (hs : s ∈ cat.schemas)
    (hversioned : s.stateVersioning = true) (hrow : tx.db.fetch s resourceID = .ok row)
    (hcall : tx.call c = .ok tx') (hrow' : tx'.db.fetch s resourceID = .ok row') :
    row'.configVersion = c.next s resourceID row.configVersion ∧
      versionsIn s resourceID c (tx'.events.drop tx.events.length) =
        if s.syncEventNeeded then c.logged s resourceID row.configVersion else [] := by
  cases c with
  | create resource hr =>
    obtain ⟨rfl, hversions⟩ := create_of_survives hs hrow hrow' hr hcall
    exact ⟨rfl, hversions.trans (by simp [Call.logged])⟩
  | update resource hr => exact update_of_survives hs hversioned hrow hrow' hr hcall
  | stateUpdate resource hr =>
    obtain ⟨hversion, hevents⟩ := stateUpdate_of_survives hrow hrow' (Except.ok.inj hcall)
    rw [hevents, versionsIn_nil]
    exact ⟨hversion, by simp [Call.logged]⟩
  | resync resource hr =>
    obtain ⟨rfl, hversions⟩ := resync_of_survives hs hversioned hrow hrow' hr hcall
    exact ⟨rfl, hversions⟩
  | delete s' id hs' =>
    obtain ⟨hdb, named, hnamed, his, hevents⟩ := delete_eq_ok hcall
    obtain ⟨rfl, hother⟩ := not_target_of_survives hrow hrow' hdb
    have hschema := cat.eq_of_id_eq (hreg named hnamed) hs' (TableRow.is_iff.mp his).1
    have habout : Call.about s resourceID named.resource = false := by
      by_contra habout
      have hkey : named.is s resourceID = true :=
        TableRow.is_iff.mpr (Call.about_iff.mp (by simpa using habout))
      cases Tables.eq_of_fetch hrow hnamed hkey
      rw [his] at hother
      cases hother
    have hc : (Call.delete s' id hs').schema = named.resource.schema := hschema.symm
    rw [hevents, List.drop_left, versionsIn_logEvent hs (hreg named hnamed) hc, habout]
    exact ⟨rfl, by simp [Call.logged]⟩
  | deleteFilter s' filter hs' =>
    obtain ⟨rfl, hother⟩ := not_target_of_survives hrow hrow' (delete_of_deleteListed hcall)
    refine ⟨rfl, ?_⟩
    rw [versionsIn_deleteListed hs' hs hreg hcall, list_filter_is hrow]
    have hid := (TableRow.is_iff.mp (Tables.fetch_eq_ok.mp hrow).2).1
    by_cases hsame : s'.id = s.id
    · have hfilter : filter row' = false := by simpa [hid, hsame] using hother
      simp [hfilter, Call.logged]
    · simp [hsame, Call.logged]

/-- **The call that deletes the resource.** -/
theorem call_of_target (hreg : tx.db.Registered cat) (hs : s ∈ cat.schemas)
    (hversioned : s.stateVersioning = true) (hrow : tx.db.fetch s resourceID = .ok row)
    (hcall : tx.call c = .ok tx') (htarget : c.targets row = true) :
    versionsIn s resourceID c (tx'.events.drop tx.events.length) =
      if s.syncEventNeeded then [row.configVersion + 1] else [] := by
  obtain ⟨hmem, his⟩ := Tables.fetch_eq_ok.mp hrow
  have hschema := hreg.schema_eq hs hrow
  cases c with
  | delete s' id hs' =>
    obtain ⟨-, named, hnamed, hnamed_is, hevents⟩ := delete_eq_ok hcall
    have hkey : named.key = row.key :=
      (beq_iff_eq.mp hnamed_is).trans (beq_iff_eq.mp htarget).symm
    cases Tables.eq_of_key_eq hnamed hmem hkey
    have hs'_eq : s' = s := cat.eq_of_id_eq hs' hs
      ((TableRow.is_iff.mp htarget).1.symm.trans (TableRow.is_iff.mp his).1)
    have habout : Call.about s resourceID row.resource = true :=
      Call.about_iff.mpr (TableRow.is_iff.mp his)
    have hc : (Call.delete s' id hs').schema = row.resource.schema := hs'_eq.trans hschema.symm
    rw [hevents, List.drop_left, versionsIn_logEvent hs (hreg row hmem) hc, if_pos habout,
      deletedVersion, hschema, if_pos hversioned]
  | deleteFilter s' filter hs' =>
    obtain ⟨hid, hfilter⟩ := Bool.and_eq_true_iff.mp htarget
    have hsame : s'.id = s.id := (beq_iff_eq.mp hid).symm.trans (TableRow.is_iff.mp his).1
    rw [versionsIn_deleteListed hs' hs hreg hcall, list_filter_is hrow, if_pos hfilter,
      List.map_singleton, listedVersion_eq hversioned hrow hfilter]
    simp [hsame]
  | _ => cases htarget

/-- **The call that creates the resource.** -/
theorem create_law {resource : Resource} (hr : resource.schema ∈ cat.schemas)
    (h : tx.create resource = .ok tx') :
    (∃ row, tx'.db.fetch resource.schema resource.ID = .ok row ∧ row.configVersion = 1) ∧
      versionsIn resource.schema resource.ID (.create resource hr)
          (tx'.events.drop tx.events.length) =
        if resource.schema.syncEventNeeded then [1] else [] := by
  obtain ⟨hdb, hevents⟩ := create_eq_ok h
  obtain ⟨-, hrows⟩ := Tables.create_eq_ok hdb
  have habout : Call.about resource.schema resource.ID resource = true :=
    Call.about_iff.mpr ⟨rfl, rfl⟩
  refine ⟨⟨⟨resource.stored, 1⟩, Tables.fetch_eq_ok.mpr ⟨?_, ?_⟩, rfl⟩, ?_⟩
  · rw [hrows]
    exact List.mem_append_right _ (List.mem_singleton_self _)
  · exact TableRow.is_iff.mpr ⟨rfl, resource.stored_ID⟩
  · rw [hevents, List.drop_left, versionsIn_logEvent hr hr rfl, if_pos habout]

theorem registered_call (hreg : tx.db.Registered cat) (hcall : tx.call c = .ok tx') :
    tx'.db.Registered cat := by
  cases c with
  | create resource hr => exact hreg.create hr (create_eq_ok hcall).1
  | update resource hr =>
    rw [(update_eq_ok hcall).1]
    exact hreg.update hr
  | stateUpdate resource hr =>
    cases hcall
    exact hreg.stateUpdate hr
  | resync resource hr =>
    rw [(resync_eq_ok hcall).1]
    exact hreg
  | delete s' id hs' => exact hreg.delete (delete_eq_ok hcall).1
  | deleteFilter s' filter hs' => exact hreg.delete (delete_of_deleteListed hcall)

/-! ## A lifetime -/

/-- The resource is there all along. -/
def Lives (s : Schema) (resourceID : String) (tx : Tx) (cs : List (Call cat)) : Prop :=
  ∀ done todo between, cs = done ++ todo → tx.calls done = .ok between →
    ∃ row, between.db.fetch s resourceID = .ok row

theorem calls_cons {cs : List (Call cat)} {final : Tx} :
    tx.calls (c :: cs) = .ok final ↔ ∃ next, tx.call c = .ok next ∧ next.calls cs = .ok final := by
  rw [calls, List.foldlM_cons, Go.bind_eq_ok]
  rfl

theorem versionsOf_cons (hcall : tx.call c = .ok tx') (cs : List (Call cat)) :
    tx.versionsOf s resourceID (c :: cs) =
      versionsIn s resourceID c (tx'.events.drop tx.events.length) ++
        tx'.versionsOf s resourceID cs := by
  rw [versionsOf, hcall]

theorem lives_nil (hrow : tx.db.fetch s resourceID = .ok row) :
    Lives s resourceID tx ([] : List (Call cat)) := by
  intro done todo between hcs hdone
  obtain ⟨rfl, -⟩ := List.append_eq_nil_iff.mp hcs.symm
  cases hdone
  exact ⟨row, hrow⟩

theorem Lives.cons {cs : List (Call cat)} (hrow : tx.db.fetch s resourceID = .ok row)
    (hcall : tx.call c = .ok tx') (h : Lives s resourceID tx' cs) :
    Lives s resourceID tx (c :: cs) := by
  intro done todo between hcs hdone
  cases done with
  | nil =>
    cases hdone
    exact ⟨row, hrow⟩
  | cons d done =>
    obtain ⟨rfl, htail⟩ := List.cons.inj hcs
    obtain ⟨next, hnext, hdone⟩ := calls_cons.mp hdone
    cases hcall.symm.trans hnext
    exact h done todo between htail hdone

theorem Lives.tail {cs : List (Call cat)} (h : Lives s resourceID tx (c :: cs))
    (hcall : tx.call c = .ok tx') : Lives s resourceID tx' cs :=
  fun done todo between hcs hdone ↦ h (c :: done) todo between (by rw [hcs]; rfl)
    (calls_cons.mpr ⟨tx', hcall, hdone⟩)

/-- **Many calls that the resource survives**, by induction on the calls. -/
theorem calls_of_survives {cs : List (Call cat)} {final : Tx} (hreg : tx.db.Registered cat)
    (hs : s ∈ cat.schemas) (hversioned : s.stateVersioning = true)
    (hrow : tx.db.fetch s resourceID = .ok row) (hlives : Lives s resourceID tx cs)
    (hcalls : tx.calls cs = .ok final) :
    final.db.Registered cat ∧
      (∃ row', final.db.fetch s resourceID = .ok row' ∧
        row'.configVersion = Call.last s resourceID row.configVersion cs) ∧
      ∀ more, tx.versionsOf s resourceID (cs ++ more) =
        (if s.syncEventNeeded then Call.versions s resourceID row.configVersion cs else []) ++
          final.versionsOf s resourceID more := by
  induction cs generalizing tx row with
  | nil =>
    cases hcalls
    exact ⟨hreg, ⟨row, hrow, rfl⟩, fun more ↦ by simp [Call.versions]⟩
  | cons c cs ih =>
    obtain ⟨tx', hcall, hcalls⟩ := calls_cons.mp hcalls
    obtain ⟨row', hrow'⟩ := hlives [c] cs tx' rfl (calls_cons.mpr ⟨tx', hcall, rfl⟩)
    obtain ⟨hversion, hversions⟩ := call_of_survives hreg hs hversioned hrow hcall hrow'
    obtain ⟨hreg', hlast, hmore⟩ :=
      ih (registered_call hreg hcall) hrow' (hlives.tail hcall) hcalls
    refine ⟨hreg', ?_, fun more ↦ ?_⟩
    · rwa [hversion] at hlast
    · rw [List.cons_append, versionsOf_cons hcall, hversions, hmore, hversion]
      split
      · rw [Call.versions, List.append_assoc]
      · rfl

/-- **The versions of a lifetime.**  The resource is created, lives through any calls, on it and on
others, and is deleted by the last one. -/
theorem versions_of_lifetime {resource : Resource} (hr : resource.schema ∈ cat.schemas)
    (hversioned : resource.schema.stateVersioning = true) {created between final : Tx}
    {cs : List (Call cat)} (hreg : tx.db.Registered cat)
    (hcreate : tx.call (.create resource hr) = .ok created)
    (hlives : Lives resource.schema resource.ID created cs)
    (hcalls : created.calls cs = .ok between) (hdelete : between.call c = .ok final)
    (htarget : ∀ row, between.db.fetch resource.schema resource.ID = .ok row →
      c.targets row = true) :
    tx.versionsOf resource.schema resource.ID (.create resource hr :: cs ++ [c]) =
        (if resource.schema.syncEventNeeded then
          1 :: Call.versions resource.schema resource.ID 1 cs ++
            [Call.last resource.schema resource.ID 1 cs + 1]
        else []) ∧
      (∀ done todo tx', cs = done ++ todo → created.calls done = .ok tx' →
        ∃ row, tx'.db.fetch resource.schema resource.ID = .ok row ∧
          row.configVersion = Call.last resource.schema resource.ID 1 done) ∧
      (1 :: Call.versions resource.schema resource.ID 1 cs).Pairwise (· ≤ ·) ∧
      ∀ v ∈ 1 :: Call.versions resource.schema resource.ID 1 cs,
        v < Call.last resource.schema resource.ID 1 cs + 1 := by
  obtain ⟨⟨row, hrow, hone⟩, hversions⟩ := create_law hr hcreate
  have hreg' : created.db.Registered cat := registered_call hreg hcreate
  obtain ⟨hreg'', ⟨last, hlast, hversion⟩, hmore⟩ :=
    calls_of_survives hreg' hr hversioned hrow hlives hcalls
  refine ⟨?_, fun done todo tx' hcs hdone ↦ ?_, ?_, fun v hv ↦ ?_⟩
  · rw [List.cons_append, versionsOf_cons hcreate, hversions, hmore, versionsOf_cons hdelete,
      call_of_target hreg'' hr hversioned hlast hdelete (htarget last hlast), hversion, hone]
    split
    · rw [versionsOf, List.append_nil, List.cons_append, List.nil_append, List.cons_append]
    · rfl
  · have hlives' : Lives resource.schema resource.ID created done :=
      fun d t b hdone' ↦ hlives d (t ++ todo) b (by rw [hcs, hdone', List.append_assoc])
    obtain ⟨-, hlast', -⟩ := calls_of_survives hreg' hr hversioned hrow hlives' hdone
    rwa [hone] at hlast'
  · exact List.pairwise_cons.mpr
      ⟨fun v hv ↦ (Call.bounds_of_mem_versions hv).1, Call.versions_pairwise⟩
  · rcases List.mem_cons.mp hv with rfl | hv
    · exact Int.lt_add_one_iff.mpr Call.le_last
    · exact Int.lt_add_one_iff.mpr (Call.bounds_of_mem_versions hv).2

end Tx

/-! ## A server from beginning to end -/

/-- A schema with `state_versioning`. -/
def versionedSchema : Schema where
  id := "server"
  singular := "server"
  plural := "servers"
  url := "/v1.0/servers"
  properties := [{ id := "id" }, { id := "state" }]
  metadata := GoMap.ofList [("state_versioning", .bool true)]

/-- The schema, alone. -/
def versionedCatalog : Catalog where
  schemas := [versionedSchema]
  distinct := by decide

/-- A server in a state. -/
def versionedServer (state : String) : Resource :=
  ⟨versionedSchema, GoMap.ofList [("id", .str "s1"), ("state", .str state)]⟩

/-- The server is created. -/
def createServer : Call versionedCatalog := .create (versionedServer "UP") List.mem_cons_self

/-- The server is updated. -/
def updateServer : Call versionedCatalog := .update (versionedServer "DOWN") List.mem_cons_self

/-- The server is synced again. -/
def resyncServer : Call versionedCatalog := .resync (versionedServer "DOWN") List.mem_cons_self

/-- All servers are deleted. -/
def deleteServers : Call versionedCatalog :=
  .deleteFilter versionedSchema (fun _ ↦ true) List.mem_cons_self

omit [TextEngine] in
/-- Created, updated, logged again by Resync, and deleted by a filter. -/
theorem versions_of_server :
    letI := placeholders
    Tx.versionsOf versionedSchema "s1" ⟨.empty, [], 1⟩
      [createServer, updateServer, resyncServer, deleteServers] = [1, 2, 2, 3] := by
  let _ := placeholders
  let after (tx : Tx) (c : Call versionedCatalog) : Tx := (tx.call c).toOption.getD tx
  let created := after ⟨.empty, [], 1⟩ createServer
  let updated := after created updateServer
  let resynced := after updated resyncServer
  have hlives : created.Lives versionedSchema "s1" [updateServer, resyncServer] :=
    .cons rfl (show created.call updateServer = .ok updated from rfl)
      (.cons rfl (show updated.call resyncServer = .ok resynced from rfl) (Tx.lives_nil rfl))
  exact (Tx.versions_of_lifetime List.mem_cons_self rfl
    (fun row hrow ↦ absurd hrow List.not_mem_nil)
    (show Tx.call _ createServer = .ok created from rfl) hlives
    (show created.calls _ = .ok resynced from rfl) rfl fun row hrow ↦ by cases hrow; rfl).1

end Gohan.Sync
