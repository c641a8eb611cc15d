import Gohan.Sync.Mirror

/-!
# Resync beside other transactions

`Resync` lists the rows of all tables in a transaction of its own and logs an update event for each,
with the row as it has read it.  Other clients update and delete rows meanwhile.  Every transaction
reads the committed rows as they were when it began, and what it has written itself; a row that it
writes is locked until it ends.  `Sessions` is the database as these transactions see it.

Reading locks nothing.  So a client can write a row, and commit, between the moment Resync reads it
and the moment it logs it: then the event with the old row comes last, and etcd ends up older than
the tables, or with a row that has been deleted (`not_upToDate`).  `Undisturbed` asks that whenever
a transaction commits, a row whose last event is one of Resync's is still the row that Resync has
read; the rest of it is what etcd needs to mirror any table.  Then a key that was right at the
start, or for which there is an event, is right (`upToDate_of_run`).

An operation of a client writes the row and logs the event in one step: the row is locked in
between, and the number of the event is what counts.  Which rows go with a deleted one is left open
here; it is settled in `Tables.gone`.
-/

set_option autoImplicit false

namespace Gohan.Sync

variable [TextEngine] {cat : Catalog}

/-! ## Several transactions -/

/-- A row of the event table.  For the record, `about` says which row of the tables it is about, and
`read`, if Resync has logged it, how Resync has read that row. -/
structure Logged where
  /-- The transaction it belongs to, until that is committed. -/
  owner : Option ℕ
  about : String × String
  event : EventRow
  read : Option TableRow

/-- The rows, found by their keys; the event table, in the order of its numbers; and etcd. -/
structure Sessions where
  rows : String × String → Option TableRow
  /-- What an open transaction has made of the rows that it keeps locked. -/
  written : String × String → Option (ℕ × Option TableRow)
  /-- For the open transactions, the committed rows as they were when it began. -/
  snapshots : ℕ → Option (String × String → Option TableRow)
  events : List Logged
  nextId : ℕ
  etcd : String → Option Content

/-- The row of the event table when the transaction has been committed. -/
def Logged.commit (t : ℕ) (e : Logged) : Logged :=
  if e.owner = some t then { e with owner := none } else e

namespace Sessions

/-- No transaction is open, and all events have been applied. -/
def start (db : Tables) (etcd : String → Option Content) : Sessions where
  rows about := db.rows.find? (·.key == about)
  written _ := none
  snapshots _ := none
  events := []
  nextId := 1
  etcd

/-- The row as it was last written. -/
def current (s : Sessions) (about : String × String) : Option TableRow :=
  match s.written about with
  | some (_, row) => row
  | none => s.rows about

/-- The row that a transaction reads. -/
def view (s : Sessions) (t : ℕ) (snapshot : String × String → Option TableRow)
    (about : String × String) : Option TableRow :=
  match s.written about with
  | some (t', row) => if t' = t then row else snapshot about
  | none => snapshot about

/-- No other transaction has locked the row. -/
def free (s : Sessions) (t : ℕ) (about : String × String) : Bool :=
  (s.written about).all (·.1 == t)

/-- The rows are locked and changed, as far as they are there. -/
def write (s : Sessions) (t : ℕ) (keys : List (String × String))
    (f : TableRow → Option TableRow) : Sessions :=
  { s with
    written := fun about ↦
      if keys.contains about then
        match s.current about with
        | some row => some (t, f row)
        | none => s.written about
      else s.written about }

/-- `logEvent`. -/
def log (s : Sessions) (t : ℕ) (eventType : EventType) (resource : Resource) (version : ℤ)
    (about : String × String) (read : Option TableRow) : Sessions :=
  match Sync.logEvent s.nextId eventType resource version with
  | none => s
  | some event =>
    { s with events := s.events ++ [⟨some t, about, event, read⟩], nextId := s.nextId + 1 }

/-- `Update`. -/
def update (s : Sessions) (t : ℕ) (snapshot : String × String → Option TableRow)
    (resource : Resource) : Go Sessions :=
  let about := (resource.schema.id, resource.ID)
  let s := s.write t [about] fun row ↦ some (row.updated resource)
  if resource.schema.stateVersioning then
    match s.view t snapshot about with
    | none => .errorf "resource not found"
    | some state => .ok (s.log t .update resource state.configVersion about none)
  else .ok (s.log t .update resource 0 about none)

/-- `Delete`.  The rows in `cascade` go with it. -/
def delete (s : Sessions) (t : ℕ) (snapshot : String × String → Option TableRow)
    (schema : Schema) (resourceID : String) (cascade : List (String × String)) : Go Sessions :=
  let about := (schema.id, resourceID)
  match s.view t snapshot about with
  | none => .errorf "resource not found"
  | some row =>
    .ok ((s.write t (about :: cascade) fun _ ↦ none).log t .delete row.resource
      (Tx.deletedVersion row) about none)

end Sessions

/-- The version that an update event carries. -/
def TableRow.version (row : TableRow) : ℤ :=
  if row.resource.schema.stateVersioning then row.configVersion else 0

namespace Sessions

/-- `Resync`, for one row of those that are listed. -/
def resync (s : Sessions) (t : ℕ) (snapshot : String × String → Option TableRow)
    (about : String × String) : Go Sessions :=
  match s.view t snapshot about with
  | none => .errorf "resource not found"
  | some row => .ok (s.log t .update row.resource row.version about (some row))

/-- `Commit`. -/
def commit (s : Sessions) (t : ℕ) : Sessions :=
  { s with
    rows := s.view t s.rows
    written := fun about ↦ (s.written about).filter (·.1 != t)
    snapshots := Function.update s.snapshots t none
    events := s.events.map (Logged.commit t) }

/-- `Close`, of a transaction that has not been committed. -/
def rollback (s : Sessions) (t : ℕ) : Sessions :=
  { s with
    written := fun about ↦ (s.written about).filter (·.1 != t)
    snapshots := Function.update s.snapshots t none
    events := s.events.filter fun e ↦ e.owner != some t }

end Sessions

/-- What can happen, with any number of transactions open. -/
inductive SessionAct (cat : Catalog) where
  | begin (t : ℕ)
  | update (t : ℕ) (resource : Resource) (registered : resource.schema ∈ cat.schemas)
  | delete (t : ℕ) (schema : Schema) (resourceID : String) (cascade : List (String × String))
  | resync (t : ℕ) (about : String × String)
  | commit (t : ℕ)
  | rollback (t : ℕ)

/-- The rows that an operation locks. -/
def SessionAct.locks : SessionAct cat → List (String × String)
  | .update _ resource _ => [(resource.schema.id, resource.ID)]
  | .delete _ schema resourceID cascade => (schema.id, resourceID) :: cascade
  | _ => []

/-- What an operation does that is not kept waiting. -/
def Sessions.perform (s : Sessions) (t : ℕ) (snapshot : String × String → Option TableRow) :
    SessionAct cat → Go Sessions
  | .update _ resource _ => s.update t snapshot resource
  | .delete _ schema resourceID cascade => s.delete t snapshot schema resourceID cascade
  | .resync _ about => s.resync t snapshot about
  | _ => .ok s

/-- One step.  An operation that fails has no effect, and one that waits takes its step later. -/
def Sessions.step (s : Sessions) (a : SessionAct cat) : Sessions :=
  match a with
  | .begin t =>
    match s.snapshots t with
    | some _ => s
    | none => { s with snapshots := Function.update s.snapshots t (some s.rows) }
  | .update t _ _ | .delete t _ _ _ | .resync t _ =>
    match s.snapshots t with
    | none => s
    | some snapshot =>
      if a.locks.all (s.free t) then (s.perform t snapshot a).toOption.getD s else s
  | .commit t => s.commit t
  | .rollback t => s.rollback t

/-! ## What etcd comes to hold -/

/-- The content that shows a resource. -/
def Resource.rendering (resource : Resource) (version : ℤ) : Go Content :=
  eventContent ⟨0, .update, resource.path, version, resource.json, resource.schema.syncPlain,
    resource.schema.syncProperty⟩

/-- The value shows the row, its entries in some order; where there is no row, there is none. -/
def Shows : Option TableRow → Go (Option Content) → Prop
  | none, value => value = .ok none
  | some row, value => ∃ data : Dict,
      (∀ name, data.lookup name = row.resource.properties.lookup name) ∧
        value = (Resource.rendering ⟨row.resource.schema, data⟩ row.version).map some

namespace Sessions

/-- etcd when the committed events have been applied in the order of their numbers. -/
def drained (cat : Catalog) (s : Sessions) : String → Option Content :=
  Journal.replay s.etcd ((s.events.filter (·.owner.isNone)).filterMap
    (·.event.write? cat.schemas))

/-- All committed events can be applied. -/
def Drains (cat : Catalog) (s : Sessions) : Prop :=
  ∀ e ∈ s.events, e.owner = none →
    (e.event.key? cat.schemas).isSome = true ∧ e.event.value.toBool = true

instance (cat : Catalog) (s : Sessions) : Decidable (s.Drains cat) :=
  inferInstanceAs (Decidable (∀ e ∈ s.events, _ → _ ∧ _))

/-- The key comes to hold the committed row, or nothing if there is none any more. -/
def Holds (cat : Catalog) (s : Sessions) (about : String × String) (key : String) : Prop :=
  Shows (s.rows about) (.ok (s.drained cat key))

/-- The last event of a row, of those whose owner is of the given kind. -/
def last? (s : Sessions) (kind : Option ℕ → Bool) (about : String × String) : Option Logged :=
  Journal.latest (fun e ↦ e.about == about && kind e.owner) s.events

end Sessions

/-- An event is committed, or will be with the transaction. -/
def due (t : ℕ) (owner : Option ℕ) : Bool := owner.isNone || owner == some t

/-- Every row of `start` that etcd shows, or for which there is an event by now, is shown as it is
committed, and nowhere is one that has been deleted.  No other key has changed. -/
structure UpToDate (cat : Catalog) (start s : Sessions) : Prop where
  holds : ∀ about row₀ key, start.rows about = some row₀ → row₀.Synced →
    row₀.resource.key? cat.schemas = some key → ConfigKey key →
      start.Holds cat about key ∨ (∃ e ∈ s.events, e.about = about ∧ e.owner = none) →
        s.Holds cat about key
  untouched : ∀ key, ConfigKey key → (∀ about row₀, start.rows about = some row₀ → row₀.Synced →
    row₀.resource.key? cat.schemas ≠ some key) → s.drained cat key = start.etcd key

/-- The tables that etcd can mirror: no two resources have the same key. -/
structure Mirrorable (cat : Catalog) (db : Tables) : Prop where
  registered : ∀ row ∈ db.rows, row.resource.schema ∈ cat.schemas
  distinct : ∀ row ∈ db.rows, ∀ row' ∈ db.rows, row.Synced → row'.Synced → ∀ key,
    row.resource.key? cat.schemas = some key → row'.resource.key? cat.schemas = some key →
      ConfigKey key → row = row'

/-- An event of the resource is for one key, and not empty. -/
def Resource.Loggable (cat : Catalog) (resource : Resource) : Prop :=
  Unambiguous cat.schemas resource.path resource.json ∧
    ∀ key, resource.key? cat.schemas = some key → ConfigKey key → ¬ resource.RendersEmpty

/-- The steps that keep etcd up to date. -/
def Undisturbed (s : Sessions) : SessionAct cat → Prop
  | .begin _ | .rollback _ => True
  | .update _ resource _ => resource.schema.syncEventNeeded = true → resource.Loggable cat ∧
      -- the row is there, its key does not change, and the event shows all of it
      ∃ row, s.current (resource.schema.id, resource.ID) = some row ∧
        resource.key? cat.schemas = row.resource.key? cat.schemas ∧
        (row.updated resource).resource.key? cat.schemas = row.resource.key? cat.schemas ∧
        ∀ name, resource.properties.lookup name =
          (row.updated resource).resource.properties.lookup name
  | .delete t schema resourceID cascade =>
      (∀ snapshot row, s.snapshots t = some snapshot →
        s.view t snapshot (schema.id, resourceID) = some row → row.Synced →
          Unambiguous cat.schemas row.resource.path row.resource.json) ∧
      ∀ about ∈ cascade, about ≠ (schema.id, resourceID) → ∀ row, s.current about = some row →
        ¬ row.Synced
  | .resync t about => ∀ snapshot row, s.snapshots t = some snapshot →
      s.view t snapshot about = some row → row.Synced → row.resource.Loggable cat
  | .commit t => ∀ about e row, s.last? (due t) about = some e → e.read = some row →
      s.view t s.rows about = some row

/-! ## The invariant -/

/-- The last event that a client has logged for a row. -/
def Sessions.lastWrite? (s : Sessions) (kind : Option ℕ → Bool) (about : String × String) :
    Option Logged :=
  Journal.latest (fun e ↦ e.about == about && kind e.owner && e.read.isNone) s.events

/-- The row is what has become of the one that was there at the start. -/
def Version (cat : Catalog) (s₀ : Sessions) (about : String × String) (row : TableRow) : Prop :=
  ∃ row₀, s₀.rows about = some row₀ ∧ row.key = about ∧
    row.resource.schema = row₀.resource.schema ∧
      (row₀.Synced → row.resource.key? cat.schemas = row₀.resource.key? cat.schemas)

/-- There was a row at the start, of a schema with events. -/
def HasEvents (s₀ : Sessions) (about : String × String) : Prop :=
  ∃ row₀, s₀.rows about = some row₀ ∧ row₀.Synced

/-- An event has the key of its row, and a content that is not empty. -/
structure Logged.Sound (cat : Catalog) (s₀ : Sessions) (e : Logged) : Prop where
  key : ∃ row₀, s₀.rows e.about = some row₀ ∧ row₀.Synced ∧
    e.event.key? cat.schemas = row₀.resource.key? cat.schemas
  unambiguous : e.event.Unambiguous cat.schemas
  nonempty : ∀ key content, e.event.key? cat.schemas = some key → ConfigKey key →
    e.event.value = .ok (some content) → content.isEmpty = false
  shows : ∀ row, e.read = some row → Shows (some row) e.event.value

/-- What holds in every run: the versions of a row are those that the events have, and a transaction
reads committed ones. -/
structure SessionsInv (cat : Catalog) (s₀ s : Sessions) : Prop where
  etcd : s.etcd = s₀.etcd
  rows : ∀ about row, s.rows about = some row → Version cat s₀ about row
  written : ∀ about t row, s.written about = some (t, some row) → Version cat s₀ about row
  snapshots : ∀ t snapshot, s.snapshots t = some snapshot → ∀ about row, snapshot about = some row →
    Version cat s₀ about row
  locked : ∀ about, s.written about ≠ none → s.rows about ≠ none
  sound : ∀ e ∈ s.events, e.Sound cat s₀
  /-- Who has locked a row has logged its last event. -/
  pending : ∀ about t row, HasEvents s₀ about → s.written about = some (t, row) →
    ∃ e, s.lastWrite? (fun _ ↦ true) about = some e ∧ e.owner = some t ∧ Shows row e.event.value
  /-- Otherwise it was a deletion, of a row that had been deleted meanwhile. -/
  late : ∀ e ∈ s.events, e.read = none → ∀ t, e.owner = some t →
    (∃ row, s.written e.about = some (t, row)) ∨
      s.rows e.about = none ∧ e.event.value = .ok none
  untouched : ∀ about, HasEvents s₀ about → s.lastWrite? Option.isNone about = none →
    s.rows about = s₀.rows about
  committed : ∀ about, HasEvents s₀ about → ∀ e, s.lastWrite? Option.isNone about = some e →
    Shows (s.rows about) e.event.value
  shown : ∀ about, HasEvents s₀ about → ∀ e, s.last? Option.isNone about = some e →
    Shows (s.rows about) e.event.value

variable {s₀ s : Sessions} {t : ℕ} {about : String × String} {row : TableRow} {e : Logged}

theorem value_of_logEvent {id : ℕ} {type : EventType} {resource : Resource} {version : ℤ}
    {event : EventRow} (htype : type ≠ .delete)
    (h : logEvent id type resource version = some event) :
    event.value = (resource.rendering version).map some := by
  cases logEvent_eq_some h
  exact EventRow.value_of_ne_delete htype

/-- The event of a resource that can be logged is not empty. -/
theorem nonempty_of_logEvent {id : ℕ} {type : EventType} {resource : Resource} {version : ℤ}
    {event : EventRow} (hresource : resource.Loggable cat) (htype : type ≠ .delete)
    (h : logEvent id type resource version = some event) {key : String} {content : Content}
    (hkey : event.key? cat.schemas = some key) (hk : ConfigKey key)
    (hvalue : event.value = .ok (some content)) : content.isEmpty = false := by
  have hcontent : eventContent event = .ok content := by
    rw [EventRow.value_of_ne_delete (by cases logEvent_eq_some h; exact htype)] at hvalue
    cases heq : eventContent event with
    | ok content' =>
      rw [heq] at hvalue
      cases hvalue
      rfl
    | error fault =>
      rw [heq] at hvalue
      cases hvalue
  have hresourceKey : resource.key? cat.schemas = some key := (key?_of_logEvent h).symm.trans hkey
  by_contra hempty
  exact hresource.2 key hresourceKey hk
    (rendersEmpty_of_eventContent h hcontent (by simpa using hempty))

theorem shows_self (row : TableRow) :
    Shows (some row) ((row.resource.rendering row.version).map some) :=
  ⟨row.resource.properties, fun _ ↦ rfl, rfl⟩

/-- What a transaction reads is a version of the row. -/
theorem SessionsInv.version_of_view (h : SessionsInv cat s₀ s)
    {snapshot : String × String → Option TableRow}
    (hsnapshot : ∀ about row, snapshot about = some row → Version cat s₀ about row)
    (hview : s.view t snapshot about = some row) : Version cat s₀ about row := by
  rw [Sessions.view] at hview
  split at hview
  · next t' row' hwritten =>
    split at hview
    · exact h.written about t' row (hview ▸ hwritten)
    · exact hsnapshot about row hview
  · exact hsnapshot about row hview

theorem SessionsInv.version_of_current (h : SessionsInv cat s₀ s)
    (hcurrent : s.current about = some row) : Version cat s₀ about row := by
  rw [Sessions.current] at hcurrent
  split at hcurrent
  · next t' row' hwritten => exact h.written about t' row (hcurrent ▸ hwritten)
  · exact h.rows about row hcurrent

theorem Version.synced_iff (h : Version cat s₀ about row) : row.Synced ↔ HasEvents s₀ about := by
  obtain ⟨row₀, hrow₀, -, hschema, -⟩ := h
  rw [TableRow.Synced, hschema]
  constructor
  · exact fun hs ↦ ⟨row₀, hrow₀, hs⟩
  · rintro ⟨row', hrow', hs⟩
    cases hrow₀.symm.trans hrow'
    exact hs

/-- The event of a version of a row has the key that the row had at the start. -/
theorem Version.exists_key (h : Version cat s₀ about row) (hs : row.Synced) :
    ∃ row₀, s₀.rows about = some row₀ ∧ row₀.Synced ∧
      row.resource.key? cat.schemas = row₀.resource.key? cat.schemas := by
  obtain ⟨row₀, hrow₀, -, hschema, hkey⟩ := h
  have hs₀ : row₀.Synced := by rwa [TableRow.Synced, ← hschema]
  exact ⟨row₀, hrow₀, hs₀, hkey hs₀⟩

omit [TextEngine] in
theorem lastWrite?_append {kind : Option ℕ → Bool} {n : ℕ}
    {written : String × String → Option (ℕ × Option TableRow)} :
    Sessions.lastWrite? { s with written, events := s.events ++ [e], nextId := n } kind about =
      if e.about = about ∧ kind e.owner = true ∧ e.read = none then some e
      else s.lastWrite? kind about := by
  rw [Sessions.lastWrite?, Journal.latest_append_singleton]
  simp [and_assoc, Sessions.lastWrite?]

omit [TextEngine] in
theorem last?_append_of_owner {n : ℕ}
    {written : String × String → Option (ℕ × Option TableRow)} (howner : e.owner = some t) :
    Sessions.last? { s with written, events := s.events ++ [e], nextId := n } Option.isNone about =
      s.last? Option.isNone about := by
  rw [Sessions.last?, Journal.latest_append_singleton, howner]
  simp [Sessions.last?]

/-! ## Operations -/

theorem SessionsInv.begin (h : SessionsInv cat s₀ s) :
    SessionsInv cat s₀ { s with snapshots := Function.update s.snapshots t (some s.rows) } where
  __ := h
  snapshots t' snapshot hsnapshot about row hrow := by
    have hupdate : Function.update s.snapshots t (some s.rows) t' = some snapshot := hsnapshot
    by_cases ht : t' = t
    · subst ht
      rw [Function.update_self] at hupdate
      cases hupdate
      exact h.rows about row hrow
    · rw [Function.update_of_ne ht] at hupdate
      exact h.snapshots t' snapshot hupdate about row hrow

/-- A client has logged its event for a row: it has locked the row, or the row is gone. -/
theorem SessionsInv.write {n : ℕ} {written : String × String → Option (ℕ × Option TableRow)}
    (h : SessionsInv cat s₀ s) (howner : e.owner = some t) (hread : e.read = none)
    (hsound : e.Sound cat s₀)
    (hversion : ∀ about t' row, written about = some (t', some row) → Version cat s₀ about row)
    (hlocked : ∀ about, written about ≠ none → s.rows about ≠ none)
    (hother : ∀ about, HasEvents s₀ about → about ≠ e.about → written about = s.written about)
    (hfree : ∀ t' row, s.written e.about = some (t', row) → t' = t)
    (hput : (∃ row, written e.about = some (t, row) ∧ Shows row e.event.value) ∨
      written e.about = none ∧ s.rows e.about = none ∧ e.event.value = .ok none) :
    SessionsInv cat s₀ { s with written, events := s.events ++ [e], nextId := n } where
  etcd := h.etcd
  rows := h.rows
  written := hversion
  snapshots := h.snapshots
  locked := hlocked
  sound e' he' := by
    rcases List.mem_append.mp he' with he' | he'
    · exact h.sound e' he'
    · cases List.mem_singleton.mp he'
      exact hsound
  pending about t' row hs hwritten := by
    rw [lastWrite?_append]
    by_cases habout : e.about = about
    · subst habout
      rcases hput with ⟨row', hrow', hshows⟩ | ⟨hnone, -, -⟩
      · cases hrow'.symm.trans hwritten
        exact ⟨e, if_pos ⟨rfl, rfl, hread⟩, howner, hshows⟩
      · cases hnone.symm.trans hwritten
    · rw [if_neg fun hand ↦ habout hand.1]
      exact h.pending about t' row hs ((hother about hs (Ne.symm habout)).symm.trans hwritten)
  late e' he' hread' t' howner' := by
    rcases List.mem_append.mp he' with he' | he'
    · refine (h.late e' he' hread' t' howner').imp_left fun ⟨row, hrow⟩ ↦ ?_
      by_cases habout : e'.about = e.about
      · rw [habout] at hrow ⊢
        cases hfree t' row hrow
        rcases hput with ⟨row', hrow', -⟩ | ⟨-, hgone, -⟩
        · exact ⟨row', hrow'⟩
        · exact absurd hgone (h.locked e.about fun hnone ↦ by cases hnone.symm.trans hrow)
      · obtain ⟨row₀, hrow₀, hs₀, -⟩ := (h.sound e' he').key
        exact ⟨row, (hother e'.about ⟨row₀, hrow₀, hs₀⟩ habout).trans hrow⟩
    · cases List.mem_singleton.mp he'
      cases howner.symm.trans howner'
      rcases hput with ⟨row, hrow, -⟩ | ⟨-, hgone, hvalue⟩
      · exact .inl ⟨row, hrow⟩
      · exact .inr ⟨hgone, hvalue⟩
  untouched about hs hnone := by
    rw [lastWrite?_append, if_neg (by simp [howner])] at hnone
    exact h.untouched about hs hnone
  committed about hs e' he' := by
    rw [lastWrite?_append, if_neg (by simp [howner])] at he'
    exact h.committed about hs e' he'
  shown about hs e' he' := by
    rw [last?_append_of_owner howner] at he'
    exact h.shown about hs e' he'

/-- A client has written rows of schemas without events. -/
theorem SessionsInv.write_unlogged {written : String × String → Option (ℕ × Option TableRow)}
    (h : SessionsInv cat s₀ s)
    (hversion : ∀ about t' row, written about = some (t', some row) → Version cat s₀ about row)
    (hlocked : ∀ about, written about ≠ none → s.rows about ≠ none)
    (hother : ∀ about, HasEvents s₀ about → written about = s.written about) :
    SessionsInv cat s₀ { s with written } where
  __ := h
  written := hversion
  locked := hlocked
  pending about t' row hs hwritten :=
    h.pending about t' row hs ((hother about hs).symm.trans hwritten)
  late e he hread t' howner := by
    obtain ⟨row₀, hrow₀, hs₀, -⟩ := (h.sound e he).key
    refine (h.late e he hread t' howner).imp_left fun ⟨row, hrow⟩ ↦ ⟨row, ?_⟩
    exact (hother e.about ⟨row₀, hrow₀, hs₀⟩).trans hrow

/-- Resync has logged its event for a row. -/
theorem SessionsInv.read {n : ℕ} (h : SessionsInv cat s₀ s) (howner : e.owner = some t)
    (hread : e.read = some row) (hsound : e.Sound cat s₀) :
    SessionsInv cat s₀ { s with events := s.events ++ [e], nextId := n } where
  __ := h
  sound e' he' := by
    rcases List.mem_append.mp he' with he' | he'
    · exact h.sound e' he'
    · cases List.mem_singleton.mp he'
      exact hsound
  pending about t' row' hs hwritten := by
    rw [lastWrite?_append, if_neg (by simp [hread])]
    exact h.pending about t' row' hs hwritten
  late e' he' hread' t' howner' := by
    rcases List.mem_append.mp he' with he' | he'
    · exact h.late e' he' hread' t' howner'
    · cases List.mem_singleton.mp he'
      cases hread.symm.trans hread'
  untouched about hs hnone := by
    rw [lastWrite?_append, if_neg (by simp [hread])] at hnone
    exact h.untouched about hs hnone
  committed about hs e' he' := by
    rw [lastWrite?_append, if_neg (by simp [hread])] at he'
    exact h.committed about hs e' he'
  shown about hs e' he' := by
    rw [last?_append_of_owner howner] at he'
    exact h.shown about hs e' he'

/-! ## The end of a transaction -/

section Release

omit [TextEngine]

theorem release_eq_some {x : Option (ℕ × Option TableRow)} {t' : ℕ} {row : Option TableRow} :
    x.filter (·.1 != t) = some (t', row) ↔ x = some (t', row) ∧ t' ≠ t := by
  simp [Option.filter_eq_some_iff]

theorem of_update_none {snapshots : ℕ → Option (String × String → Option TableRow)} {t' : ℕ}
    {snapshot : String × String → Option TableRow}
    (h : Function.update snapshots t none t' = some snapshot) : snapshots t' = some snapshot := by
  rw [Function.update_apply] at h
  split at h
  · cases h
  · exact h

@[simp] theorem Logged.commit_about (e : Logged) : (e.commit t).about = e.about := by
  rw [Logged.commit]
  split <;> rfl

@[simp] theorem Logged.commit_event (e : Logged) : (e.commit t).event = e.event := by
  rw [Logged.commit]
  split <;> rfl

@[simp] theorem Logged.commit_read (e : Logged) : (e.commit t).read = e.read := by
  rw [Logged.commit]
  split <;> rfl

theorem Logged.commit_owner (e : Logged) :
    (e.commit t).owner = if e.owner = some t then none else e.owner := by
  rw [Logged.commit]
  split <;> rfl

theorem Logged.isNone_commit_owner (e : Logged) :
    (e.commit t).owner.isNone = due t e.owner := by
  rw [Logged.commit_owner, due]
  split
  · next h => simp [h]
  · next h => simp [h]

theorem lastWrite?_commit : (s.commit t).lastWrite? Option.isNone about =
    (s.lastWrite? (due t) about).map (Logged.commit t) := by
  refine (Journal.latest_map _).trans (congrArg _ (Journal.latest_congr fun e _ ↦ ?_))
  simp [Logged.isNone_commit_owner]

theorem last?_commit : (s.commit t).last? Option.isNone about =
    (s.last? (due t) about).map (Logged.commit t) := by
  refine (Journal.latest_map _).trans (congrArg _ (Journal.latest_congr fun e _ ↦ ?_))
  simp [Logged.isNone_commit_owner]

theorem lastWrite?_all_commit : (s.commit t).lastWrite? (fun _ ↦ true) about =
    (s.lastWrite? (fun _ ↦ true) about).map (Logged.commit t) := by
  refine (Journal.latest_map _).trans (congrArg _ (Journal.latest_congr fun e _ ↦ ?_))
  simp

theorem lastWrite?_rollback {kind : Option ℕ → Bool} : (s.rollback t).lastWrite? kind about =
    s.lastWrite? (fun owner ↦ kind owner && owner != some t) about := by
  refine Journal.latest_filter.trans (Journal.latest_congr fun e _ ↦ ?_)
  simp only [Bool.and_assoc, Bool.and_comm, Bool.and_left_comm]

theorem last?_rollback {kind : Option ℕ → Bool} : (s.rollback t).last? kind about =
    s.last? (fun owner ↦ kind owner && owner != some t) about := by
  refine Journal.latest_filter.trans (Journal.latest_congr fun e _ ↦ ?_)
  exact Bool.and_assoc ..

theorem isNone_and_ne :
    (fun owner : Option ℕ ↦ owner.isNone && owner != some t) = Option.isNone := by
  funext owner
  cases owner <;> simp

theorem of_lastWrite?_eq_some {kind : Option ℕ → Bool} (h : s.lastWrite? kind about = some e) :
    e ∈ s.events ∧ e.about = about ∧ kind e.owner = true ∧ e.read = none := by
  obtain ⟨hmem, hp⟩ := Journal.of_latest_eq_some h
  simpa [and_assoc, hmem] using hp

theorem of_last?_eq_some {kind : Option ℕ → Bool} (h : s.last? kind about = some e) :
    e ∈ s.events ∧ e.about = about ∧ kind e.owner = true := by
  obtain ⟨hmem, hp⟩ := Journal.of_latest_eq_some h
  simpa [and_assoc, hmem] using hp

/-- The last event of a client among many is the last among the fewer that it is one of. -/
theorem lastWrite?_of_imp {kind kind' : Option ℕ → Bool}
    (hkind : ∀ owner, kind owner = true → kind' owner = true)
    (h : s.lastWrite? kind' about = some e) (he : kind e.owner = true) :
    s.lastWrite? kind about = some e := by
  obtain ⟨-, habout, -, hread⟩ := of_lastWrite?_eq_some h
  refine Journal.latest_of_imp (fun d _ hd ↦ ?_) h (by simp [habout, he, hread])
  simp only [Bool.and_eq_true] at hd ⊢
  exact ⟨⟨hd.1.1, hkind _ hd.1.2⟩, hd.2⟩

theorem view_of_ne (h : ∀ row, s.written about ≠ some (t, row))
    (snapshot : String × String → Option TableRow) : s.view t snapshot about = snapshot about := by
  rw [Sessions.view]
  split
  · next t' row hwritten =>
    have ht : t' ≠ t := by
      rintro rfl
      exact h row hwritten
    rw [if_neg ht]
  · rfl

theorem view_of_eq {row : Option TableRow} (h : s.written about = some (t, row))
    (snapshot : String × String → Option TableRow) : s.view t snapshot about = row := by
  rw [Sessions.view, h]
  exact if_pos rfl

end Release

/-- The last event of a client that is committed by now says what the row is. -/
theorem SessionsInv.shows_of_due (h : SessionsInv cat s₀ s) (hs : HasEvents s₀ about)
    (he : s.lastWrite? (due t) about = some e) : Shows (s.view t s.rows about) e.event.value := by
  obtain ⟨hmem, habout, hdue, hread⟩ := of_lastWrite?_eq_some he
  by_cases hwritten : ∃ row, s.written about = some (t, row)
  · -- the transaction has locked the row, so the last event of all is its own
    obtain ⟨row, hrow⟩ := hwritten
    obtain ⟨d, hd, howner, hshows⟩ := h.pending about t row hs hrow
    have hlast : s.lastWrite? (due t) about = some d :=
      lastWrite?_of_imp (fun _ _ ↦ rfl) hd (by simp [due, howner])
    cases he.symm.trans hlast
    rwa [view_of_eq hrow]
  · have hnot : ∀ row, s.written about ≠ some (t, row) := fun row hrow ↦ hwritten ⟨row, hrow⟩
    rw [view_of_ne hnot]
    cases howner : e.owner with
    | none =>
      have hkind : ∀ owner : Option ℕ, owner.isNone = true → due t owner = true :=
        fun owner hnone ↦ by simp [due, hnone]
      exact h.committed about hs e (lastWrite?_of_imp hkind he (by simp [howner]))
    | some t' =>
      have ht : t' = t := by simpa [due, howner] using hdue
      rcases h.late e hmem hread t' howner with ⟨row, hrow⟩ | ⟨hgone, hvalue⟩
      · rw [habout, ht] at hrow
        exact absurd hrow (hnot row)
      · rw [← habout, hgone]
        exact hvalue

theorem SessionsInv.commit (hok : Undisturbed s (.commit t : SessionAct cat))
    (h : SessionsInv cat s₀ s) : SessionsInv cat s₀ (s.commit t) where
  etcd := h.etcd
  rows about row hrow := h.version_of_view h.rows hrow
  written about t' row hrow := h.written about t' row (release_eq_some.mp hrow).1
  snapshots t' snapshot hsnapshot := h.snapshots t' snapshot (of_update_none hsnapshot)
  locked about hwritten := by
    obtain ⟨⟨t', row⟩, hrow⟩ := Option.ne_none_iff_exists'.mp hwritten
    obtain ⟨hold, ht⟩ := release_eq_some.mp hrow
    have hview : s.view t s.rows about = s.rows about := by
      refine view_of_ne (fun row' hrow' ↦ ht ?_) s.rows
      cases hold.symm.trans hrow'
      rfl
    have hlocked := h.locked about (by rw [hold]; nofun)
    exact fun hnone ↦ hlocked (hview.symm.trans hnone)
  sound e' he' := by
    obtain ⟨e, he, rfl⟩ := List.mem_map.mp he'
    obtain ⟨hkey, hunambiguous, hnonempty, hshows⟩ := h.sound e he
    constructor <;> simpa
  pending about t' row hs hwritten := by
    obtain ⟨hold, ht⟩ := release_eq_some.mp hwritten
    obtain ⟨e, he, howner, hshows⟩ := h.pending about t' row hs hold
    refine ⟨e.commit t, by rw [lastWrite?_all_commit, he]; rfl, ?_, by simpa using hshows⟩
    rw [Logged.commit_owner, howner, if_neg (by simpa using ht)]
  late e' he' hread t' howner := by
    obtain ⟨e, he, rfl⟩ := List.mem_map.mp he'
    rw [Logged.commit_read] at hread
    rw [Logged.commit_owner] at howner
    split at howner
    · cases howner
    · next hne =>
      rw [Logged.commit_about, Logged.commit_event]
      have ht : t' ≠ t := fun heq ↦ hne (heq ▸ howner)
      rcases h.late e he hread t' howner with ⟨row, hrow⟩ | ⟨hgone, hvalue⟩
      · exact .inl ⟨row, release_eq_some.mpr ⟨hrow, ht⟩⟩
      · refine .inr ⟨?_, hvalue⟩
        refine (view_of_ne (fun row hrow ↦ ?_) s.rows).trans hgone
        exact h.locked e.about (by rw [hrow]; nofun) hgone
  untouched about hs hnone := by
    rw [lastWrite?_commit, Option.map_eq_none_iff] at hnone
    have hnot := Journal.latest_eq_none_iff.mp hnone
    have hview : s.view t s.rows about = s.rows about := by
      refine view_of_ne (fun row hrow ↦ ?_) s.rows
      obtain ⟨e, he, howner, -⟩ := h.pending about t row hs hrow
      obtain ⟨hmem, habout, -, hread⟩ := of_lastWrite?_eq_some he
      have hfalse := hnot e hmem
      simp [habout, due, howner, hread] at hfalse
    refine hview.trans (h.untouched about hs (Journal.latest_eq_none_iff.mpr fun e he ↦ ?_))
    have hfalse := hnot e he
    rw [due] at hfalse
    by_contra htrue
    simp_all
  committed about hs e' he' := by
    rw [lastWrite?_commit, Option.map_eq_some_iff] at he'
    obtain ⟨e, he, rfl⟩ := he'
    rw [Logged.commit_event]
    exact h.shows_of_due hs he
  shown about hs e' he' := by
    rw [last?_commit, Option.map_eq_some_iff] at he'
    obtain ⟨e, he, rfl⟩ := he'
    rw [Logged.commit_event]
    obtain ⟨hmem, habout, hdue⟩ := of_last?_eq_some he
    cases hread : e.read with
    | none =>
      refine h.shows_of_due hs (Journal.latest_of_imp (fun d _ hd ↦ ?_) he ?_)
      · simp only [Bool.and_eq_true] at hd ⊢
        exact hd.1
      · simp [habout, hdue, hread]
    | some row =>
      have hrow : s.view t s.rows about = some row := hok about e row he hread
      have hshows := (h.sound e hmem).shows row hread
      rw [← hrow] at hshows
      exact hshows

theorem SessionsInv.rollback (h : SessionsInv cat s₀ s) : SessionsInv cat s₀ (s.rollback t) where
  etcd := h.etcd
  rows := h.rows
  written about t' row hrow := h.written about t' row (release_eq_some.mp hrow).1
  snapshots t' snapshot hsnapshot := h.snapshots t' snapshot (of_update_none hsnapshot)
  locked about hwritten := by
    obtain ⟨⟨t', row⟩, hrow⟩ := Option.ne_none_iff_exists'.mp hwritten
    exact h.locked about (by rw [(release_eq_some.mp hrow).1]; nofun)
  sound e he := h.sound e (List.mem_filter.mp he).1
  pending about t' row hs hwritten := by
    obtain ⟨hold, ht⟩ := release_eq_some.mp hwritten
    obtain ⟨e, he, howner, hshows⟩ := h.pending about t' row hs hold
    refine ⟨e, ?_, howner, hshows⟩
    rw [lastWrite?_rollback]
    exact lastWrite?_of_imp (fun _ _ ↦ rfl) he (by simpa [howner] using ht)
  late e he hread t' howner := by
    obtain ⟨hmem, hne⟩ := List.mem_filter.mp he
    have ht : t' ≠ t := by simpa [howner] using hne
    exact (h.late e hmem hread t' howner).imp_left fun ⟨row, hrow⟩ ↦
      ⟨row, release_eq_some.mpr ⟨hrow, ht⟩⟩
  untouched about hs hnone := by
    rw [lastWrite?_rollback, isNone_and_ne] at hnone
    exact h.untouched about hs hnone
  committed about hs e he := by
    rw [lastWrite?_rollback, isNone_and_ne] at he
    exact h.committed about hs e he
  shown about hs e he := by
    rw [last?_rollback, isNone_and_ne] at he
    exact h.shown about hs e he

/-! ## Performing an operation -/

section Perform

variable {s' : Sessions} {snapshot : String × String → Option TableRow}

omit [TextEngine] in
theorem free_iff : s.free t about = true ↔
    ∀ t' row, s.written about = some (t', row) → t' = t := by
  rw [Sessions.free]
  cases s.written about with
  | none => simp
  | some lock =>
    constructor
    · intro hfree t' row heq
      cases heq
      simpa using hfree
    · intro hall
      simpa using hall lock.1 lock.2 rfl

omit [TextEngine] in
theorem Sessions.write_written {keys : List (String × String)} {f : TableRow → Option TableRow} :
    (s.write t keys f).written about = s.written about ∨
      ∃ row, about ∈ keys ∧ s.current about = some row ∧
        (s.write t keys f).written about = some (t, f row) := by
  simp only [Sessions.write]
  split
  · next hmem =>
    cases hcurrent : s.current about with
    | none => exact .inl rfl
    | some row => exact .inr ⟨row, List.contains_iff_mem.mp hmem, rfl, rfl⟩
  · exact .inl rfl

omit [TextEngine] in
theorem Sessions.write_of_mem {keys : List (String × String)} {f : TableRow → Option TableRow}
    (hmem : about ∈ keys) (hcurrent : s.current about = some row) :
    (s.write t keys f).written about = some (t, f row) := by
  simp only [Sessions.write, if_pos (List.contains_iff_mem.mpr hmem), hcurrent]

omit [TextEngine] in
theorem Sessions.write_of_gone {keys : List (String × String)} {f : TableRow → Option TableRow}
    (hcurrent : s.current about = none) :
    (s.write t keys f).written about = s.written about := by
  simp only [Sessions.write, hcurrent, ite_self]

/-- Only rows that are there get locked. -/
theorem SessionsInv.locked_write (h : SessionsInv cat s₀ s) (t : ℕ)
    (keys : List (String × String)) (f : TableRow → Option TableRow) :
    ∀ about, (s.write t keys f).written about ≠ none → s.rows about ≠ none := by
  intro about hwritten
  rcases s.write_written with hsame | ⟨row, -, hcurrent, -⟩
  · exact h.locked about (hsame ▸ hwritten)
  · rw [Sessions.current] at hcurrent
    split at hcurrent
    · next t' row' hlock => exact h.locked about (by rw [hlock]; nofun)
    · rw [hcurrent]
      nofun

theorem SessionsInv.version_write (h : SessionsInv cat s₀ s) (t : ℕ)
    {keys : List (String × String)} {f : TableRow → Option TableRow}
    (hf : ∀ about ∈ keys, ∀ row row', s.current about = some row → f row = some row' →
      Version cat s₀ about row') :
    ∀ about t' row, (s.write t keys f).written about = some (t', some row) →
      Version cat s₀ about row := by
  intro about t' row' hwritten
  rcases s.write_written with hsame | ⟨row, hmem, hcurrent, hput⟩
  · exact h.written about t' row' (hsame.symm.trans hwritten)
  · have heq := hput.symm.trans hwritten
    simp only [Option.some.injEq, Prod.mk.injEq] at heq
    exact hf about hmem row row' hcurrent heq.2

theorem Sessions.update_eq_ok {resource : Resource} (h : s.update t snapshot resource = .ok s') :
    ∃ version, s' = (s.write t [(resource.schema.id, resource.ID)]
        fun row ↦ some (row.updated resource)).log t .update resource version
          (resource.schema.id, resource.ID) none ∧
      ∀ row, s.current (resource.schema.id, resource.ID) = some row →
        version = (row.updated resource).version := by
  have hview : ∀ row, s.current (resource.schema.id, resource.ID) = some row →
      (s.write t [(resource.schema.id, resource.ID)] fun row ↦ some (row.updated resource)).view t
        snapshot (resource.schema.id, resource.ID) = some (row.updated resource) :=
    fun row hcurrent ↦ view_of_eq (Sessions.write_of_mem List.mem_cons_self hcurrent) snapshot
  simp only [Sessions.update] at h
  split at h
  · next hversioning =>
    split at h
    · cases h
    · next state hstate =>
      cases h
      refine ⟨_, rfl, fun row hcurrent ↦ ?_⟩
      cases (hview row hcurrent).symm.trans hstate
      exact (if_pos hversioning).symm
  · next hversioning =>
    cases h
    exact ⟨_, rfl, fun row _ ↦ (if_neg hversioning).symm⟩

theorem Sessions.delete_eq_ok {schema : Schema} {resourceID : String}
    {cascade : List (String × String)}
    (h : s.delete t snapshot schema resourceID cascade = .ok s') :
    ∃ row, s.view t snapshot (schema.id, resourceID) = some row ∧
      s' = (s.write t ((schema.id, resourceID) :: cascade) fun _ ↦ none).log t .delete row.resource
        (Tx.deletedVersion row) (schema.id, resourceID) none := by
  simp only [Sessions.delete] at h
  split at h
  · cases h
  · next row hview =>
    cases h
    exact ⟨row, hview, rfl⟩

theorem SessionsInv.update {resource : Resource} {registered : resource.schema ∈ cat.schemas}
    (hcat : ∀ about row, s₀.rows about = some row → row.resource.schema ∈ cat.schemas)
    (hfree : s.free t (resource.schema.id, resource.ID) = true)
    (hok : Undisturbed s (.update t resource registered))
    (hs' : s.update t snapshot resource = .ok s') (h : SessionsInv cat s₀ s) :
    SessionsInv cat s₀ s' := by
  obtain ⟨version, rfl, hversion⟩ := Sessions.update_eq_ok hs'
  have hschema : ∀ row, s.current (resource.schema.id, resource.ID) = some row →
      row.resource.schema = resource.schema := by
    intro row hcurrent
    obtain ⟨row₀, hrow₀, hkey, heq, -⟩ := h.version_of_current hcurrent
    refine heq.trans (cat.eq_of_id_eq (hcat _ _ hrow₀) registered ?_)
    rw [← heq]
    exact congrArg Prod.fst hkey
  have hlocked := h.locked_write t [(resource.schema.id, resource.ID)]
    fun row ↦ some (row.updated resource)
  have hversions : ∀ about t' row, (s.write t [(resource.schema.id, resource.ID)]
      fun row ↦ some (row.updated resource)).written about = some (t', some row) →
        Version cat s₀ about row := by
    refine h.version_write t fun about hmem row row' hcurrent hrow' ↦ ?_
    cases List.mem_singleton.mp hmem
    cases hrow'
    obtain ⟨row₀, hrow₀, hkey, heq, hkeys⟩ := h.version_of_current hcurrent
    have hupdated : (row.updated resource).key = row.key :=
      TableRow.updated_key (beq_iff_eq.mpr hkey)
    refine ⟨row₀, hrow₀, hupdated.trans hkey, (hschema row hcurrent).symm.trans heq, fun hs₀ ↦ ?_⟩
    have hneeded : resource.schema.syncEventNeeded = true := by
      rw [← hschema row hcurrent, heq]
      exact hs₀
    obtain ⟨-, row₁, hrow₁, -, hsame, -⟩ := hok hneeded
    cases hcurrent.symm.trans hrow₁
    exact hsame.trans (hkeys hs₀)
  rw [Sessions.log]
  split
  · next hlog =>
    have hneeded := not_needed_of_logEvent_eq_none hlog
    refine h.write_unlogged hversions hlocked fun about hs ↦ ?_
    rcases s.write_written with hsame | ⟨row, hmem, hcurrent, -⟩
    · exact hsame
    · cases List.mem_singleton.mp hmem
      have hsynced := (h.version_of_current hcurrent).synced_iff.mpr hs
      rw [TableRow.Synced, hschema row hcurrent] at hsynced
      exact absurd hsynced hneeded
  · next event hlog =>
    have hneeded := needed_of_logEvent_eq_some hlog
    obtain ⟨hloggable, row, hcurrent, hkey, -, hdata⟩ := hok hneeded
    have htype : EventType.update ≠ .delete := by decide
    have hsynced : row.Synced := by
      rw [TableRow.Synced, hschema row hcurrent]
      exact hneeded
    refine h.write rfl rfl ⟨?_, ?_, ?_, fun _ hread ↦ by cases hread⟩ hversions hlocked
      (fun about hs hne ↦ ?_) (free_iff.mp hfree)
      (.inl ⟨_, Sessions.write_of_mem List.mem_cons_self hcurrent, ?_⟩)
    · obtain ⟨row₀, hrow₀, hs₀, hkey₀⟩ := (h.version_of_current hcurrent).exists_key hsynced
      exact ⟨row₀, hrow₀, hs₀, (key?_of_logEvent hlog).trans (hkey.trans hkey₀)⟩
    · exact (unambiguous_of_logEvent hlog).mpr hloggable.1
    · exact fun key content hkey hk ↦ nonempty_of_logEvent hloggable htype hlog hkey hk
    · rcases s.write_written with hsame | ⟨row', hmem, -⟩
      · exact hsame
      · exact absurd (List.mem_singleton.mp hmem) hne
    · refine ⟨resource.properties, hdata, ?_⟩
      rw [value_of_logEvent htype hlog, hversion row hcurrent]
      rfl

theorem SessionsInv.delete {schema : Schema} {resourceID : String}
    {cascade : List (String × String)} (hsnapshot : s.snapshots t = some snapshot)
    (hfree : s.free t (schema.id, resourceID) = true)
    (hok : Undisturbed s (.delete t schema resourceID cascade : SessionAct cat))
    (hs' : s.delete t snapshot schema resourceID cascade = .ok s') (h : SessionsInv cat s₀ s) :
    SessionsInv cat s₀ s' := by
  obtain ⟨row, hview, rfl⟩ := Sessions.delete_eq_ok hs'
  have hversion := h.version_of_view (h.snapshots t snapshot hsnapshot) hview
  have hlocked := h.locked_write t ((schema.id, resourceID) :: cascade) fun _ ↦ none
  have hversions : ∀ about t' row, (s.write t ((schema.id, resourceID) :: cascade)
      fun _ ↦ none).written about = some (t', some row) → Version cat s₀ about row :=
    h.version_write t fun _ _ _ _ _ hnone ↦ by cases hnone
  have hother : ∀ about, HasEvents s₀ about → about ≠ (schema.id, resourceID) →
      (s.write t ((schema.id, resourceID) :: cascade) fun _ ↦ none).written about =
        s.written about := by
    intro about hs hne
    rcases s.write_written with hsame | ⟨row', hmem, hcurrent, -⟩
    · exact hsame
    · -- the rows that go with it have no events
      rcases List.mem_cons.mp hmem with heq | hmem
      · exact absurd heq hne
      · exact absurd ((h.version_of_current hcurrent).synced_iff.mpr hs)
          (hok.2 about hmem hne row' hcurrent)
  rw [Sessions.log]
  split
  · next hlog =>
    have hnot : ¬ row.Synced := not_needed_of_logEvent_eq_none hlog
    refine h.write_unlogged hversions hlocked fun about hs ↦ hother about hs ?_
    rintro rfl
    exact hnot (hversion.synced_iff.mpr hs)
  · next event hlog =>
    have hs : row.Synced := needed_of_logEvent_eq_some hlog
    have hvalue := value_of_logEvent_delete hlog
    refine h.write rfl rfl ⟨?_, ?_, fun key content _ _ hcontent ↦ ?_,
      fun _ hread ↦ by cases hread⟩ hversions hlocked hother (free_iff.mp hfree) ?_
    · obtain ⟨row₀, hrow₀, hs₀, hkey₀⟩ := hversion.exists_key hs
      exact ⟨row₀, hrow₀, hs₀, (key?_of_logEvent hlog).trans hkey₀⟩
    · exact (unambiguous_of_logEvent hlog).mpr (hok.1 snapshot row hsnapshot hview hs)
    · cases hvalue.symm.trans hcontent
    · cases hcurrent : s.current (schema.id, resourceID) with
      | some row' => exact .inl ⟨none, Sessions.write_of_mem List.mem_cons_self hcurrent, hvalue⟩
      | none =>
        -- another client has deleted the row since the transaction began
        have hunlocked : s.written (schema.id, resourceID) = none := by
          cases hwritten : s.written (schema.id, resourceID) with
          | none => rfl
          | some lock =>
            obtain ⟨t', row'⟩ := lock
            cases free_iff.mp hfree t' row' hwritten
            rw [Sessions.current, hwritten] at hcurrent
            cases hcurrent
            cases (view_of_eq hwritten snapshot).symm.trans hview
        refine .inr ⟨(Sessions.write_of_gone hcurrent).trans hunlocked, ?_, hvalue⟩
        rwa [Sessions.current, hunlocked] at hcurrent

theorem SessionsInv.resync (hsnapshot : s.snapshots t = some snapshot)
    (hok : Undisturbed s (.resync t about : SessionAct cat))
    (hs' : s.resync t snapshot about = .ok s') (h : SessionsInv cat s₀ s) :
    SessionsInv cat s₀ s' := by
  rw [Sessions.resync] at hs'
  split at hs'
  · cases hs'
  · next row hview =>
    cases hs'
    rw [Sessions.log]
    split
    · exact h
    · next event hlog =>
      have hs : row.Synced := needed_of_logEvent_eq_some hlog
      have hloggable := hok snapshot row hsnapshot hview hs
      have htype : EventType.update ≠ .delete := by decide
      refine h.read rfl rfl ⟨?_, ?_, ?_, ?_⟩
      · obtain ⟨row₀, hrow₀, hs₀, hkey₀⟩ :=
          (h.version_of_view (h.snapshots t snapshot hsnapshot) hview).exists_key hs
        exact ⟨row₀, hrow₀, hs₀, (key?_of_logEvent hlog).trans hkey₀⟩
      · exact (unambiguous_of_logEvent hlog).mpr hloggable.1
      · exact fun key content hkey hk ↦ nonempty_of_logEvent hloggable htype hlog hkey hk
      · intro row' hrow'
        cases hrow'
        rw [value_of_logEvent htype hlog]
        exact shows_self row

end Perform

/-! ## Runs -/

theorem SessionsInv.step {a : SessionAct cat}
    (hcat : ∀ about row, s₀.rows about = some row → row.resource.schema ∈ cat.schemas)
    (hok : Undisturbed s a) (h : SessionsInv cat s₀ s) : SessionsInv cat s₀ (s.step a) := by
  have hperform : ∀ {t snapshot}, (∀ s', s.perform t snapshot a = .ok s' → SessionsInv cat s₀ s') →
      SessionsInv cat s₀ ((s.perform t snapshot a).toOption.getD s) := by
    intro t snapshot hs'
    cases hresult : s.perform t snapshot a with
    | ok s' => exact hs' s' hresult
    | error fault => exact h
  cases a with
  | begin t =>
    rw [Sessions.step]
    split
    · exact h
    · exact h.begin
  | update t resource registered =>
    rw [Sessions.step]
    split
    · exact h
    · split
      · next hfree =>
        refine hperform fun s' hs' ↦ h.update hcat ?_ hok hs'
        exact List.all_eq_true.mp hfree _ List.mem_cons_self
      · exact h
  | delete t schema resourceID cascade =>
    rw [Sessions.step]
    split
    · exact h
    · next snapshot hsnapshot =>
      split
      · next hfree =>
        refine hperform fun s' hs' ↦ h.delete hsnapshot ?_ hok hs'
        exact List.all_eq_true.mp hfree _ List.mem_cons_self
      · exact h
  | resync t about =>
    rw [Sessions.step]
    split
    · exact h
    · next snapshot hsnapshot =>
      split
      · exact hperform fun s' hs' ↦ h.resync hsnapshot hok hs'
      · exact h
  | commit t => exact h.commit hok
  | rollback t => exact h.rollback

variable {db : Tables} {etcd : String → Option Content}

theorem of_start_rows (h : (Sessions.start db etcd).rows about = some row) :
    row ∈ db.rows ∧ row.key = about := by
  have hfind : db.rows.find? (·.key == about) = some row := h
  exact ⟨List.mem_of_find?_eq_some hfind, by simpa using List.find?_some hfind⟩

theorem SessionsInv.start : SessionsInv cat (.start db etcd) (.start db etcd) where
  etcd := rfl
  rows about row hrow := ⟨row, hrow, (of_start_rows hrow).2, rfl, fun _ ↦ rfl⟩
  written _ _ _ h := by cases h
  snapshots _ _ h := by cases h
  locked _ h := absurd rfl h
  sound _ h := by cases h
  pending _ _ _ _ h := by cases h
  late _ h := by cases h
  untouched _ _ _ := rfl
  committed _ _ _ h := by cases h
  shown _ _ _ h := by cases h

/-! ## What the keys hold -/

theorem Logged.Sound.write?_eq (h : e.Sound cat s₀) {key : String} {value : Option Content}
    (hkey : e.event.key? cat.schemas = some key) (hk : ConfigKey key)
    (hvalue : e.event.value = .ok value) :
    e.event.write? cat.schemas = some ⟨e.event.id, key, value⟩ := by
  have hempty : value.any Content.isEmpty = false := by
    cases value with
    | none => rfl
    | some content => exact h.nonempty key content hkey hk hvalue
  rw [EventRow.write?, hkey, hvalue]
  simp only [hempty, Bool.false_eq_true, if_false]

theorem Sessions.Drains.exists_value (h : s.Drains cat) (he : e ∈ s.events)
    (howner : e.owner = none) : ∃ value, e.event.value = .ok value := by
  have hvalue := (h e he howner).2
  cases heq : e.event.value with
  | ok value => exact ⟨value, rfl⟩
  | error fault =>
    rw [heq] at hvalue
    cases hvalue

/-- The events that write the key of a row are those about the row. -/
theorem SessionsInv.about_iff (h : SessionsInv cat (.start db etcd) s) (hdb : Mirrorable cat db)
    (hdrains : s.Drains cat) {row₀ : TableRow} {key : String}
    (hrow₀ : (Sessions.start db etcd).rows about = some row₀) (hs₀ : row₀.Synced)
    (hkey₀ : row₀.resource.key? cat.schemas = some key) (hk : ConfigKey key)
    (he : e ∈ s.events) (howner : e.owner = none) :
    e.about = about ↔ ∃ w, e.event.write? cat.schemas = some w ∧ w.key = key := by
  obtain ⟨row, hrow, hs, hkey⟩ := (h.sound e he).key
  constructor
  · rintro rfl
    cases hrow₀.symm.trans hrow
    obtain ⟨value, hvalue⟩ := hdrains.exists_value he howner
    exact ⟨_, (h.sound e he).write?_eq (hkey.trans hkey₀) hk hvalue, rfl⟩
  · rintro ⟨w, hw, rfl⟩
    obtain ⟨hmem, habout⟩ := of_start_rows hrow
    obtain ⟨hmem₀, habout₀⟩ := of_start_rows hrow₀
    have hsame : row = row₀ := hdb.distinct row hmem row₀ hmem₀ hs hs₀ w.key
      (hkey.symm.trans (EventRow.key?_eq_of_write? hw)) hkey₀ hk
    rw [← habout, hsame, habout₀]

/-- What the key of a row comes to hold is up to the last event about the row. -/
theorem SessionsInv.drained_eq (h : SessionsInv cat (.start db etcd) s) (hdb : Mirrorable cat db)
    (hdrains : s.Drains cat) {row₀ : TableRow} {key : String}
    (hrow₀ : (Sessions.start db etcd).rows about = some row₀) (hs₀ : row₀.Synced)
    (hkey₀ : row₀.resource.key? cat.schemas = some key) (hk : ConfigKey key) :
    s.drained cat key = (((s.last? Option.isNone about).bind
      (·.event.write? cat.schemas)).map Journal.Entry.value).getD (etcd key) := by
  have hlast : Journal.latest (fun e : Logged ↦ e.about == about)
      (s.events.filter (·.owner.isNone)) = s.last? Option.isNone about := Journal.latest_filter
  rw [Sessions.drained, Journal.replay_eq, h.etcd, ← hlast]
  congr 2
  refine Journal.last?_filterMap fun e he ↦ ?_
  obtain ⟨hmem, howner⟩ := List.mem_filter.mp he
  rw [beq_iff_eq]
  exact h.about_iff hdb hdrains hrow₀ hs₀ hkey₀ hk hmem (Option.isNone_iff_eq_none.mp howner)

theorem SessionsInv.upToDate (h : SessionsInv cat (.start db etcd) s) (hdb : Mirrorable cat db)
    (hdrains : s.Drains cat) : UpToDate cat (.start db etcd) s := by
  constructor
  · intro about row₀ key hrow₀ hs₀ hkey₀ hk hright
    have hs : HasEvents (.start db etcd) about := ⟨row₀, hrow₀, hs₀⟩
    rw [Sessions.Holds, h.drained_eq hdb hdrains hrow₀ hs₀ hkey₀ hk]
    cases hlast : s.last? Option.isNone about with
    | none =>
      have hnot := Journal.latest_eq_none_iff.mp hlast
      rcases hright with hright | ⟨e, he, habout, howner⟩
      · rw [h.untouched about hs (Journal.latest_eq_none_iff.mpr fun e he ↦ ?_)]
        · exact hright
        · rw [hnot e he]
          rfl
      · have hfalse := hnot e he
        simp [habout, howner] at hfalse
    | some e =>
      obtain ⟨he, rfl, howner⟩ := of_last?_eq_some hlast
      obtain ⟨value, hvalue⟩ := hdrains.exists_value he (Option.isNone_iff_eq_none.mp howner)
      obtain ⟨row, hrow, -, hkey⟩ := (h.sound e he).key
      cases hrow₀.symm.trans hrow
      have hwrite := (h.sound e he).write?_eq (hkey.trans hkey₀) hk hvalue
      have hshows := h.shown e.about hs e hlast
      rw [hvalue] at hshows
      simp only [Option.bind_some, hwrite, Option.map_some, Option.getD_some]
      exact hshows
  · intro key hk hnone
    rw [Sessions.drained, h.etcd]
    refine Journal.replay_of_forall_ne fun w hw hkey ↦ ?_
    obtain ⟨e, he, hwrite⟩ := List.mem_filterMap.mp hw
    obtain ⟨row, hrow, hs, hsame⟩ := (h.sound e (List.mem_filter.mp he).1).key
    refine hnone e.about row hrow hs (hsame.symm.trans ?_)
    rw [EventRow.key?_eq_of_write? hwrite, hkey]

/-- **Resync.**  In a run in which Resync is undisturbed, whenever the committed events can all be
applied, etcd comes to hold the committed rows. -/
theorem upToDate_of_run (hdb : Mirrorable cat db) {acts : List (SessionAct cat)}
    (hacts : Machine.Along Sessions.step Undisturbed (.start db etcd) acts) :
    ∀ s ∈ Machine.states Sessions.step (.start db etcd) acts, s.Drains cat →
      UpToDate cat (.start db etcd) s := by
  intro s hs hdrains
  have hcat : ∀ about row, (Sessions.start db etcd).rows about = some row →
      row.resource.schema ∈ cat.schemas :=
    fun about row hrow ↦ hdb.registered row (of_start_rows hrow).1
  have hstep : ∀ (s : Sessions) (a : SessionAct cat), SessionsInv cat (.start db etcd) s →
      Undisturbed s a → SessionsInv cat (.start db etcd) (s.step a) :=
    fun s a h hok ↦ h.step hcat hok
  exact (Machine.invariant_of_along hstep .start hacts s hs).upToDate hdb hdrains

/-! ## A machine that is written meanwhile -/

/-- A machine, and etcd with its key. -/
def machines : Tables := ⟨[⟨(vm "blue" "small").stored, 1⟩], by simp⟩

/-- What etcd has for a machine. -/
def machineKeys : String → Option Content :=
  Function.update (fun _ ↦ none) "/config/vms/blue"
    (some (.object (vm "blue" "small").stored.json 0))

/-- Resync logs the machine before a client gives it another size. -/
def inTime : List (SessionAct vmCatalog) :=
  [.begin 0, .begin 1, .resync 0 ("vm", "v1"),
    .update 1 (vm "blue" "large") (vm_mem _ _), .commit 1, .commit 0]

/-- Resync logs the machine as it was before. -/
def loggedLate : List (SessionAct vmCatalog) :=
  [.begin 0, .begin 1, .update 1 (vm "blue" "large") (vm_mem _ _), .commit 1,
    .resync 0 ("vm", "v1"), .commit 0]

/-- Resync logs a machine that has been deleted. -/
def revived : List (SessionAct vmCatalog) :=
  [.begin 0, .begin 1, .delete 1 vmSchema "v1" [], .commit 1, .resync 0 ("vm", "v1"), .commit 0]

omit [TextEngine] in
theorem mirrorable_machines : letI := placeholders; Mirrorable vmCatalog machines := by
  let _ := placeholders
  refine ⟨fun row hrow ↦ ?_, fun row hrow row' hrow' _ _ _ _ _ _ ↦ ?_⟩
  · cases List.mem_singleton.mp hrow
    exact List.mem_cons_self
  · exact (List.mem_singleton.mp hrow).trans (List.mem_singleton.mp hrow').symm

omit [TextEngine] in
/-- The update gives every property. -/
theorem lookup_vm (name : String) :
    letI := placeholders
    (vm "blue" "large").properties.lookup name =
      ((TableRow.mk (vm "blue" "small").stored 1).updated
        (vm "blue" "large")).resource.properties.lookup name := by
  let _ := placeholders
  have hperm : (vm "blue" "large").properties.entries.Perm ((TableRow.mk (vm "blue" "small").stored
      1).updated (vm "blue" "large")).resource.properties.entries :=
    List.perm_append_singleton (⟨"id", .str "v1"⟩ : (_ : String) × Value)
      [⟨"size", .str "large"⟩, ⟨"name", .str "blue"⟩]
  exact AList.perm_lookup hperm

omit [TextEngine] in
/-- All events are about one row, and Resync has not logged the last that is due. -/
theorem fresh_of_all (about : String × String) (habout : s.events.all (·.about == about) = true)
    (hlast : (s.last? (due t) about).all (·.read.isNone) = true) :
    ∀ about e row, s.last? (due t) about = some e → e.read = some row →
      s.view t s.rows about = some row := by
  intro about' e row he hread
  obtain ⟨hmem, rfl, -⟩ := of_last?_eq_some he
  rw [← beq_iff_eq.mp (List.all_eq_true.mp habout e hmem), he, Option.all_some, hread] at hlast
  cases hlast

omit [TextEngine] in
theorem drains_inTime :
    letI := placeholders
    Sessions.Drains vmCatalog
      (Machine.final Sessions.step (.start machines machineKeys) inTime) := by
  decide

omit [TextEngine] in
/-- The new size arrives. -/
theorem upToDate_inTime :
    letI := placeholders
    UpToDate vmCatalog (.start machines machineKeys)
      (Machine.final Sessions.step (Sessions.start machines machineKeys) inTime) := by
  let _ := placeholders
  obtain ⟨-, hlarge, hstored, hupdated⟩ := key?_vm
  have hplain : ∀ resource : Resource, resource.schema = vmSchema → ¬ resource.RendersEmpty := by
    rintro resource hschema ⟨hplain, -⟩
    rw [hschema] at hplain
    exact Bool.false_ne_true hplain
  have hacts : Machine.Along Sessions.step Undisturbed (Sessions.start machines machineKeys)
      inTime := by
    refine ⟨trivial, trivial, fun snapshot row hs hview _ ↦ ?_, fun _ ↦ ⟨⟨unambiguous_vm _,
      fun _ _ _ ↦ hplain _ rfl⟩, _, rfl, hlarge.trans hstored.symm, hupdated.trans hstored.symm,
      lookup_vm⟩, fresh_of_all ("vm", "v1") rfl rfl, fresh_of_all ("vm", "v1") rfl rfl, trivial⟩
    cases hs
    cases hview
    exact ⟨unambiguous_vm _, fun _ _ _ ↦ hplain _ rfl⟩
  exact upToDate_of_run mirrorable_machines hacts _ (Machine.final_mem_states _ _)
    drains_inTime

omit [TextEngine] in
theorem of_loggedLate :
    letI := placeholders
    let s : Sessions := Machine.final Sessions.step (.start machines machineKeys) loggedLate
    s.Drains vmCatalog ∧ (s.rows ("vm", "v1")).map (·.resource.properties.get "size") =
        some (.str "large") ∧
      s.drained vmCatalog "/config/vms/blue" =
        some (.object (vm "blue" "small").stored.json 0) := by
  decide

omit [TextEngine] in
theorem of_revived :
    letI := placeholders
    let u : Sessions := Machine.final Sessions.step (.start machines machineKeys) revived
    u.Drains vmCatalog ∧ (u.rows ("vm", "v1")).isNone ∧
      u.drained vmCatalog "/config/vms/blue" =
        some (.object (vm "blue" "small").stored.json 0) := by
  decide

omit [TextEngine] in
/-- The key of the machine goes back to its old size, and the key of a machine that has been deleted
holds it again. -/
theorem not_upToDate :
    letI := placeholders
    let start := Sessions.start machines machineKeys
    let s := Machine.final Sessions.step start loggedLate
    let u := Machine.final Sessions.step start revived
    start.Holds vmCatalog ("vm", "v1") "/config/vms/blue" ∧
    s.Drains vmCatalog ∧ (s.rows ("vm", "v1")).map (·.resource.properties.get "size") =
        some (.str "large") ∧
      s.drained vmCatalog "/config/vms/blue" = some (.object (vm "blue" "small").stored.json 0) ∧
      ¬ UpToDate vmCatalog start s ∧
    u.Drains vmCatalog ∧ (u.rows ("vm", "v1")).isNone ∧
      u.drained vmCatalog "/config/vms/blue" = some (.object (vm "blue" "small").stored.json 0) ∧
      ¬ UpToDate vmCatalog start u := by
  intro start s u
  let _ := placeholders
  obtain ⟨-, -, hkey, -⟩ := key?_vm
  have hstart : start.Holds vmCatalog ("vm", "v1") "/config/vms/blue" :=
    ⟨(vm "blue" "small").stored.properties, fun _ ↦ rfl, rfl⟩
  obtain ⟨hdrains, hsize, hkept⟩ := of_loggedLate
  obtain ⟨hdrains', hgone, hkept'⟩ := of_revived
  refine ⟨hstart, hdrains, hsize, hkept, fun h ↦ ?_, hdrains', hgone, hkept', fun h ↦ ?_⟩
  · obtain ⟨data, hdata, hvalue⟩ := h.holds ("vm", "v1") _ _ rfl rfl hkey (by decide) (.inl hstart)
    have hcontent := (congrArg Except.ok hkept).symm.trans hvalue
    have hjson : (vm "blue" "small").stored.json = Resource.json ⟨vmSchema, data⟩ :=
      (Content.object.inj (Option.some.inj (Except.ok.inj hcontent))).1
    have hsize := congrArg (List.lookup "size") (Value.map.inj hjson)
    rw [GoMap.lookup_toList, GoMap.lookup_toList, hdata "size"] at hsize
    exact absurd hsize (by decide)
  · have hvalue := h.holds ("vm", "v1") _ _ rfl rfl hkey (by decide) (.inl hstart)
    cases hkept'.symm.trans (Except.ok.inj hvalue)

end Gohan.Sync
