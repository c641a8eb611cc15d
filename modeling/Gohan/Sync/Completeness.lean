import Gohan.Sync.Logger

/-!
# Is every change logged?

`Complete` compares the tables before and after an operation with the rows that the operation adds
to the event table: every row of a schema with events that has come, changed or gone has an event of
its type and path.

Creating and updating is always complete.  A deletion is not, since a foreign key that cascades
removes rows which are not named in the call, and only those that are named are logged.
`exec_complete_iff` says exactly when a deletion is complete, and `run_complete_iff` says it of a
whole transaction, at whose end the events of all its operations are in the event table.
-/

set_option autoImplicit false

namespace Gohan.Sync

variable [TextEngine] {cat : Catalog} {tx tx' : Tx}

/-- For every row that has been added, changed or removed there is an event. -/
structure Complete (before after : Tables) (events : List EventRow) : Prop where
  inserted : ∀ row ∈ after.rows, row.Synced → (∀ old ∈ before.rows, old.key ≠ row.key) →
    ∃ e ∈ events, e.type = .create ∧ e.path = row.resource.path
  changed : ∀ row ∈ after.rows, row.Synced → ∀ old ∈ before.rows, old.key = row.key → row ≠ old →
    ∃ e ∈ events, e.type = .update ∧ e.path = row.resource.path
  removed : ∀ row ∈ before.rows, row.Synced → (∀ new ∈ after.rows, new.key ≠ row.key) →
    ∃ e ∈ events, e.type = .delete ∧ e.path = row.resource.path

/-- Every row with events that goes with the named ones has the path of one whose deletion is
logged. -/
def CascadeLogged (cat : Catalog) (db : Tables) (op : Op) : Prop :=
  ∀ row ∈ db.rows, row.Synced → db.gone cat op.targets row = true →
    ∃ named ∈ db.rows, op.targets named = true ∧ op.logs named = true ∧
      named.resource.path = row.resource.path

theorem exists_mem_logEvent {id : ℕ} {type : EventType} {resource : Resource} {version : ℤ}
    {path : String} : (∃ e ∈ (logEvent id type resource version).toList,
      e.type = type ∧ e.path = path) ↔
    resource.schema.syncEventNeeded = true ∧ resource.path = path := by
  rw [logEvent]
  by_cases h : resource.schema.syncEventNeeded = true <;> simp [h]

/-- Without named rows no row goes. -/
theorem cascadeLogged_of_targets {db : Tables} {op : Op} (h : ∀ row, op.targets row = false) :
    CascadeLogged cat db op := by
  intro row hrow _ hgone
  obtain ⟨target, htarget, -⟩ := (Tables.gone_iff hrow).mp hgone
  rw [h target] at htarget
  cases htarget

theorem complete_create {resource : Resource} (h : tx.create resource = .ok tx') :
    Complete tx.db tx'.db (tx'.events.drop tx.events.length) := by
  obtain ⟨hdb, hevents⟩ := Tx.create_eq_ok h
  obtain ⟨hnew, hrows⟩ := Tables.create_eq_ok hdb
  have hmem : ∀ row, row ∈ tx'.db.rows ↔ row ∈ tx.db.rows ∨ row = ⟨resource.stored, 1⟩ := by
    simp [hrows]
  rw [hevents, List.drop_left]
  refine ⟨fun row hrow hsynced hold ↦ ?_, fun row hrow hsynced old hold hkey hne ↦ ?_,
    fun row hrow hsynced hgone ↦ ?_⟩
  · rcases (hmem row).mp hrow with hrow | rfl
    · exact absurd rfl (hold row hrow)
    · exact exists_mem_logEvent.mpr ⟨hsynced, resource.stored_path.symm⟩
  · rcases (hmem row).mp hrow with hrow | rfl
    · exact absurd (Tables.eq_of_key_eq hrow hold hkey.symm) hne
    · exact absurd (hkey.trans (Prod.ext rfl resource.stored_ID)) (hnew old hold)
  · exact absurd rfl (hgone row ((hmem row).mpr (.inl hrow)))

theorem complete_update {resource : Resource} (h : tx.update resource = .ok tx') :
    Complete tx.db tx'.db (tx'.events.drop tx.events.length) := by
  obtain ⟨hdb, version, hevents⟩ := Tx.update_eq_ok h
  have hkey : ∀ row : TableRow, (if row.is resource.schema resource.ID then row.updated resource
      else row).key = row.key := by
    intro row
    split
    · next his => exact TableRow.updated_key his
    · rfl
  rw [hevents, List.drop_left, hdb]
  refine ⟨fun row hrow hsynced hold ↦ ?_, fun row hrow hsynced old hold hkeys hne ↦ ?_,
    fun row hrow hsynced hgone ↦ ?_⟩
  · obtain ⟨old, hmem, rfl⟩ := Tables.mem_update.mp hrow
    exact absurd (hkey old).symm (hold old hmem)
  · obtain ⟨old', hmem, rfl⟩ := Tables.mem_update.mp hrow
    rw [hkey old'] at hkeys
    cases Tables.eq_of_key_eq hold hmem hkeys
    by_cases his : old.is resource.schema resource.ID = true
    · rw [if_pos his] at hsynced ⊢
      exact exists_mem_logEvent.mpr ⟨hsynced, (TableRow.updated_path his).symm⟩
    · exact absurd (if_neg his) hne
  · exact absurd (hkey row) (hgone _ (Tables.mem_update.mpr ⟨row, hrow, rfl⟩))

/-- A deletion whose events are those of the named rows. -/
theorem complete_delete_iff {op : Op} {events : List EventRow}
    (hdb : tx.db.delete cat op.targets = .ok tx'.db)
    (hevents : ∀ path, (∃ e ∈ events, e.type = .delete ∧ e.path = path) ↔
      ∃ named ∈ tx.db.rows, op.targets named = true ∧ op.logs named = true ∧
        named.resource.path = path) :
    Complete tx.db tx'.db events ↔ CascadeLogged cat tx.db op := by
  constructor
  · intro h row hrow hsynced hgone
    refine (hevents _).mp (h.removed row hrow hsynced fun new hnew hkey ↦ ?_)
    obtain ⟨hmem, hstays⟩ := (Tables.mem_of_delete_eq_ok hdb).mp hnew
    cases Tables.eq_of_key_eq hmem hrow hkey
    rw [hgone] at hstays
    cases hstays
  · intro h
    refine ⟨fun row hrow hsynced hold ↦ ?_, fun row hrow hsynced old hold hkey hne ↦ ?_,
      fun row hrow hsynced hgone ↦ ?_⟩
    · exact absurd rfl (hold row ((Tables.mem_of_delete_eq_ok hdb).mp hrow).1)
    · have hmem := ((Tables.mem_of_delete_eq_ok hdb).mp hrow).1
      exact absurd (Tables.eq_of_key_eq hmem hold hkey.symm) hne
    · refine (hevents _).mpr (h row hrow hsynced ?_)
      by_contra hstays
      exact hgone row ((Tables.mem_of_delete_eq_ok hdb).mpr ⟨hrow, by simpa using hstays⟩) rfl

theorem foldl_logEvent_db (rows : List TableRow) (tx : Tx) :
    (rows.foldl (fun tx row ↦ tx.logEvent .delete row.resource (Tx.deletedVersion row)) tx).db =
      tx.db := by
  induction rows generalizing tx with
  | nil => rfl
  | cons row rows ih => rw [List.foldl_cons, ih, Tx.logEvent_db]

/-- The events of the rows that `DeleteFilter` has listed. -/
theorem foldl_logEvent_events (rows : List TableRow) (tx : Tx) :
    ∃ logged, (rows.foldl (fun tx row ↦ tx.logEvent .delete row.resource (Tx.deletedVersion row))
        tx).events = tx.events ++ logged ∧
      ∀ path, (∃ e ∈ logged, e.type = .delete ∧ e.path = path) ↔
        ∃ row ∈ rows, row.Synced ∧ row.resource.path = path := by
  induction rows generalizing tx with
  | nil => exact ⟨[], by simp, by simp⟩
  | cons row rows ih =>
    obtain ⟨logged, hevents, hlogged⟩ :=
      ih (tx.logEvent .delete row.resource (Tx.deletedVersion row))
    refine ⟨(logEvent tx.nextId .delete row.resource (Tx.deletedVersion row)).toList ++ logged, ?_,
      fun path ↦ ?_⟩
    · rw [List.foldl_cons, hevents, Tx.logEvent_events, List.append_assoc]
    · simp only [List.mem_append, or_and_right, exists_or, List.exists_mem_cons_iff]
      rw [exists_mem_logEvent, hlogged]
      rfl

/-- **One operation** is complete exactly when the rows that go with the named ones are logged. -/
theorem exec_complete_iff {op : Op} (h : tx.exec cat op = .ok tx') :
    Complete tx.db tx'.db (tx'.events.drop tx.events.length) ↔ CascadeLogged cat tx.db op := by
  cases op with
  | create resource =>
    exact iff_of_true (complete_create h) (cascadeLogged_of_targets fun _ ↦ rfl)
  | update resource =>
    exact iff_of_true (complete_update h) (cascadeLogged_of_targets fun _ ↦ rfl)
  | delete s resourceID =>
    obtain ⟨hdb, row, hrow, his, hevents⟩ := Tx.delete_eq_ok h
    rw [hevents, List.drop_left]
    refine complete_delete_iff hdb fun path ↦ ?_
    rw [exists_mem_logEvent]
    constructor
    · exact fun ⟨hlogs, hpath⟩ ↦ ⟨row, hrow, his, hlogs, hpath⟩
    · rintro ⟨named, hnamed, htarget, hlogs, hpath⟩
      have hkey : named.key = row.key := (beq_iff_eq.mp htarget).trans (beq_iff_eq.mp his).symm
      cases Tables.eq_of_key_eq hnamed hrow hkey
      exact ⟨hlogs, hpath⟩
  | deleteFilter s filter =>
    obtain ⟨db, hdb, htx⟩ := Go.bind_eq_ok.mp h
    by_cases hneeded : s.syncEventNeeded = true
    · rw [if_pos hneeded] at htx
      cases htx
      obtain ⟨logged, hevents, hlogged⟩ := foldl_logEvent_events
        (tx.db.rows.filter fun row ↦ row.resource.schema.id == s.id && filter row) { tx with db }
      rw [hevents, List.drop_left]
      refine complete_delete_iff (hdb.trans (by rw [foldl_logEvent_db])) fun path ↦ ?_
      rw [hlogged]
      simp only [List.mem_filter, Op.targets, Op.logs, hneeded, Bool.true_and, TableRow.Synced,
        and_assoc]
    · rw [if_neg hneeded] at htx
      cases htx
      rw [List.drop_length]
      refine complete_delete_iff hdb fun path ↦ ?_
      simp [Op.logs, hneeded]

/-! ## A whole transaction -/

/-- Every operation of the transaction is complete, and what it adds to the event table is there
when the transaction ends. -/
def CompleteThroughout (cat : Catalog) (tx : Tx) (ops : List Op) (final : Tx) : Prop :=
  ∀ done op todo before after, ops = done ++ op :: todo → tx.run cat done = .ok before →
    before.exec cat op = .ok after →
      Complete before.db after.db (after.events.drop before.events.length) ∧
        ∀ e ∈ after.events.drop before.events.length, e ∈ final.events

theorem run_append {done todo : List Op} {final : Tx} :
    tx.run cat (done ++ todo) = .ok final ↔
      ∃ between, tx.run cat done = .ok between ∧ between.run cat todo = .ok final := by
  rw [Tx.run, List.foldlM_append, Go.bind_eq_ok]
  rfl

/-- Rows are only added to the event table. -/
theorem prefix_of_exec {op : Op} (h : tx.exec cat op = .ok tx') : tx.events <+: tx'.events := by
  cases op with
  | create resource =>
    rw [(Tx.create_eq_ok h).2]
    exact List.prefix_append _ _
  | update resource =>
    obtain ⟨-, version, hevents⟩ := Tx.update_eq_ok h
    rw [hevents]
    exact List.prefix_append _ _
  | delete s resourceID =>
    obtain ⟨-, row, -, -, hevents⟩ := Tx.delete_eq_ok h
    rw [hevents]
    exact List.prefix_append _ _
  | deleteFilter s filter =>
    obtain ⟨db, hdb, htx⟩ := Go.bind_eq_ok.mp h
    split at htx
    · cases htx
      obtain ⟨logged, hevents, -⟩ := foldl_logEvent_events
        (tx.db.rows.filter fun row ↦ row.resource.schema.id == s.id && filter row) { tx with db }
      exact ⟨logged, hevents.symm⟩
    · cases htx
      exact List.prefix_refl _

theorem prefix_of_run {ops : List Op} (h : tx.run cat ops = .ok tx') :
    tx.events <+: tx'.events := by
  induction ops generalizing tx with
  | nil =>
    cases h
    exact List.prefix_refl _
  | cons op ops ih =>
    rw [Tx.run, List.foldlM_cons, Go.bind_eq_ok] at h
    obtain ⟨next, hnext, h⟩ := h
    exact (prefix_of_exec hnext).trans (ih h)

/-- **A transaction** that commits is complete throughout exactly when none of its deletions takes a
row with events along without logging it. -/
theorem run_complete_iff {ops : List Op} {final : Tx} (h : tx.run cat ops = .ok final) :
    CompleteThroughout cat tx ops final ↔
      ∀ done op todo before, ops = done ++ op :: todo → tx.run cat done = .ok before →
        CascadeLogged cat before.db op := by
  constructor
  · intro hcomplete done op todo before hops hbefore
    rw [hops] at h
    obtain ⟨between, hdone, htodo⟩ := run_append.mp h
    cases hbefore.symm.trans hdone
    rw [Tx.run, List.foldlM_cons, Go.bind_eq_ok] at htodo
    obtain ⟨after, hafter, -⟩ := htodo
    exact (exec_complete_iff hafter).mp (hcomplete done op todo before after hops hdone hafter).1
  · intro hlogged done op todo before after hops hbefore hafter
    refine ⟨(exec_complete_iff hafter).mpr (hlogged done op todo before hops hbefore), ?_⟩
    rw [hops] at h
    obtain ⟨between, hdone, htodo⟩ := run_append.mp h
    cases hbefore.symm.trans hdone
    rw [Tx.run, List.foldlM_cons, hafter] at htodo
    exact fun e he ↦ (prefix_of_run htodo).subset (List.mem_of_mem_drop he)

/-! ## A child that goes with its parent -/

/-- Networks. -/
def networkSchema : Schema where
  id := "network"
  singular := "network"
  plural := "networks"
  url := "/v1.0/networks"
  properties := [{ id := "id" }]

/-- Subnets, which go with their network. -/
def subnetSchema : Schema where
  id := "subnet"
  singular := "subnet"
  plural := "subnets"
  url := "/v1.0/subnets"
  parent := "network"
  properties := [{ id := "id" }, { id := "network_id", relation := "network" }]

/-- The schema of the subnets has `on_parent_delete_cascade`. -/
def networkCatalog : Catalog where
  schemas := [networkSchema, subnetSchema]
  distinct := by decide
  onParentDeleteCascade s := s.id == "subnet"

/-- A network is created. -/
def createNetwork : Op := .create ⟨networkSchema, GoMap.ofList [("id", .str "n1")]⟩

/-- A subnet is created in the network. -/
def createSubnet : Op :=
  .create ⟨subnetSchema, GoMap.ofList [("id", .str "s1"), ("network_id", .str "n1")]⟩

/-- The network is deleted. -/
def deleteNetwork : Op := .delete networkSchema "n1"

omit [TextEngine] in
/-- A network without subnets. -/
theorem run_complete_lone :
    letI := placeholders
    ∃ final, Tx.run networkCatalog ⟨.empty, [], 1⟩ [createNetwork, deleteNetwork] = .ok final ∧
      CompleteThroughout networkCatalog ⟨.empty, [], 1⟩ [createNetwork, deleteNetwork] final := by
  let _ := placeholders
  refine ⟨_, rfl, (run_complete_iff rfl).mpr ?_⟩
  intro done op todo before hops hbefore
  rcases done with _ | ⟨d, _ | ⟨d', done⟩⟩
  · cases hops
    exact cascadeLogged_of_targets fun _ ↦ rfl
  · cases hops
    cases hbefore
    intro row hrow hsynced _
    cases List.mem_singleton.mp hrow
    exact ⟨_, List.mem_singleton_self _, by decide, by decide, rfl⟩
  · simp at hops

omit [TextEngine] in
/-- The subnet goes with its network, and has no event. -/
theorem run_not_complete :
    letI := placeholders
    ∃ final, Tx.run networkCatalog ⟨.empty, [], 1⟩ [createNetwork, createSubnet, deleteNetwork] =
        .ok final ∧ final.db.rows = [] ∧
      (final.events.map fun e ↦ (e.type, e.path)) = [(.create, "/v1.0/networks/n1"),
        (.create, "/v1.0/subnets/s1"), (.delete, "/v1.0/networks/n1")] ∧
      ¬ CompleteThroughout networkCatalog ⟨.empty, [], 1⟩
        [createNetwork, createSubnet, deleteNetwork] final := by
  let _ := placeholders
  refine ⟨_, rfl, rfl, rfl, fun h ↦ ?_⟩
  obtain ⟨hcomplete, -⟩ := h [createNetwork, createSubnet] deleteNetwork [] _ _ rfl rfl rfl
  obtain ⟨e, he, -, hpath⟩ := hcomplete.removed _ (List.mem_cons_of_mem _ List.mem_cons_self) rfl
    (fun new hnew ↦ absurd hnew List.not_mem_nil)
  cases List.mem_singleton.mp he
  exact absurd hpath (by decide)

end Gohan.Sync
