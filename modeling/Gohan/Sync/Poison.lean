import Gohan.Sync.Event

/-!
# Events that cannot be consumed

`Sync` goes through the event table in order and stops at the first row for which `syncEvent` does
not succeed.  The row stays, and so does every later one; the next run of `Sync` begins with the
same row.  `SyncLeaves` says what a run leaves in the table when etcd and the database do all that
they are asked to.

What the logger writes need not be consumable.  Nothing checks that the property to be stored is
there, that the metadata of the schemas have the types they are read at, or that the key template
can be executed.  The last is noticed only when the resource is deleted: `generatePath` falls back
to the path of the resource where the deletion returns the error.  `syncLeaves_nil_iff` says exactly
which sequences of writes a run can clear.
-/

set_option autoImplicit false

namespace Gohan.Sync

variable [TextEngine]

/-- A call of `logEvent`, and the number the database gives to the row. -/
structure LogCall where
  id : ℕ
  eventType : EventType
  resource : Resource
  version : ℤ

/-- The row that a call of the logger adds to the event table, if there is one. -/
def LogCall.row? (call : LogCall) : Option EventRow :=
  logEvent call.id call.eventType call.resource call.version

/-- What `Sync` leaves of the rows it has listed, if the operations on etcd and on the database
succeed.  Every lookup of a schema visits the schemas in an order of its own. -/
inductive SyncLeaves (schemas : List Schema) : List EventRow → List EventRow → Prop
  | done : SyncLeaves schemas [] []
  | consume {first second : List Schema} {ops : List EtcdOp} {row : EventRow}
      {rows left : List EventRow} :
      first.Perm schemas → second.Perm schemas → eventOps first second row = .ok ops →
        SyncLeaves schemas rows left → SyncLeaves schemas (row :: rows) left
  | stuck {first second : List Schema} {fault : Fault} {row : EventRow} {rows : List EventRow} :
      first.Perm schemas → second.Perm schemas → eventOps first second row = .error fault →
        SyncLeaves schemas (row :: rows) (row :: rows)

/-- Whichever order the schemas are visited in, the operations of the event can be computed. -/
def Consumed (schemas : List Schema) (row : EventRow) : Prop :=
  ∀ first second : List Schema, first.Perm schemas → second.Perm schemas →
    ∃ ops, eventOps first second row = .ok ops

/-- A run clears the table, whatever the orders, exactly when no row can stop it. -/
theorem forall_syncLeaves_iff {schemas : List Schema} {rows : List EventRow} :
    (∀ left, SyncLeaves schemas rows left → left = []) ↔ ∀ row ∈ rows, Consumed schemas row := by
  constructor
  · intro h
    induction rows with
    | nil => simp
    | cons row rows ih =>
      have hrow : Consumed schemas row := by
        intro first second hfirst hsecond
        cases hops : eventOps first second row with
        | ok ops => exact ⟨ops, rfl⟩
        | error fault => exact absurd (h _ (.stuck hfirst hsecond hops)) (by simp)
      obtain ⟨ops, hops⟩ := hrow schemas schemas (.refl _) (.refl _)
      have hrows := ih fun left hleft ↦ h left (.consume (.refl _) (.refl _) hops hleft)
      intro r hr
      rcases List.mem_cons.mp hr with rfl | hr
      · exact hrow
      · exact hrows r hr
  · intro h left hleft
    induction hleft with
    | done => rfl
    | consume _ _ _ _ ih => exact ih fun r hr ↦ h r (List.mem_cons_of_mem _ hr)
    | stuck hfirst hsecond hfault =>
      obtain ⟨ops, hops⟩ := h _ List.mem_cons_self _ _ hfirst hsecond
      rw [hfault] at hops
      cases hops

/-- What a resource and the registered schemas must be like for an event of the resource to be
consumable. -/
structure Consumable (schemas : List Schema) (eventType : EventType) (resource : Resource) :
    Prop where
  /-- A schema whose URL is a prefix of the path says in a Boolean whether the config prefix is to
  be skipped, if it says so at all. -/
  skip : ∀ c ∈ schemas, c.Matches resource.path →
    ∀ v, c.metadata.lookup "sync_skip_config_prefix" = some v → ∃ b, v = .bool b
  /-- The property to be stored is there. -/
  property : eventType ≠ .delete → resource.schema.syncProperty = "" ∨
    resource.schema.syncProperty ∈ resource.properties
  /-- The key template of such a schema can be executed on the resource. -/
  template : eventType = .delete → ∀ c ∈ schemas, c.Matches resource.path →
    ∀ t, c.syncKeyTemplate = some t →
      (TextEngine.execute t (Value.decodeMap resource.properties.toList)).isSome

theorem consumed_iff {schemas : List Schema} {id : ℕ} {eventType : EventType} {resource : Resource}
    {version : ℤ} {row : EventRow} (hschema : resource.schema ∈ schemas)
    (hrow : logEvent id eventType resource version = some row) :
    Consumed schemas row ↔ Consumable schemas eventType resource := by
  have hmatch := resource.matches_path
  cases logEvent_eq_some hrow
  constructor
  · intro h
    refine ⟨fun c hc hcm ↦ ?_, fun htype ↦ ?_, fun htype c hc hcm ↦ ?_⟩
    · obtain ⟨first, hfirst, hfound⟩ := exists_order_getSchemaByURLPath hc hcm
      obtain ⟨ops, hops⟩ := h first schemas hfirst (.refl _)
      have hpath := exists_generatePath_of_eventOps hops
      rw [generatePath, hfound] at hpath
      exact exists_eventPath.mp hpath
    · obtain ⟨ops, hops⟩ := h schemas schemas (.refl _) (.refl _)
      obtain ⟨path, content, -, hcontent, -⟩ := (eventOps_eq_ok_of_ne_delete htype).mp hops
      rw [← AList.lookup_isSome, ← GoMap.lookup_toList]
      exact (exists_eventContent rfl).mp ⟨content, hcontent⟩
    · obtain ⟨second, hsecond, hfound⟩ := exists_order_getSchemaByURLPath hc hcm
      obtain ⟨ops, hops⟩ := h schemas second (.refl _) hsecond
      obtain ⟨path, s, below, -, hs, hbelow, -⟩ := (eventOps_eq_ok_of_delete htype).mp hops
      cases hfound.symm.trans hs
      exact exists_deletePath.mp ⟨below, hbelow⟩
  · intro h first second hfirst hsecond
    obtain ⟨c, hc, hcm, hfound⟩ := exists_getSchemaByURLPath hschema hmatch hfirst
    obtain ⟨path, hpath⟩ := exists_eventPath.mpr (h.skip c hc hcm)
    have hgenerate : generatePath first resource.path resource.json = .ok path := by
      rw [generatePath, hfound]
      exact hpath
    by_cases htype : eventType = .delete
    · obtain ⟨c', hc', hcm', hfound'⟩ := exists_getSchemaByURLPath hschema hmatch hsecond
      have hdelete : ∃ below, deletePath c' resource.path resource.json = .ok below :=
        exists_deletePath.mpr (h.template htype c' hc' hcm')
      obtain ⟨below, hbelow⟩ := hdelete
      exact ⟨_, (eventOps_eq_ok_of_delete htype).mpr
        ⟨path, c', below, hgenerate, hfound', hbelow, rfl⟩⟩
    · have hproperty := h.property htype
      rw [← AList.lookup_isSome, ← GoMap.lookup_toList] at hproperty
      have hevent : ∃ content, eventContent ⟨id, eventType, resource.path, version, resource.json,
          resource.schema.syncPlain, resource.schema.syncProperty⟩ = .ok content :=
        (exists_eventContent rfl).mpr hproperty
      obtain ⟨content, hcontent⟩ := hevent
      exact ⟨_, (eventOps_eq_ok_of_ne_delete htype).mpr
        ⟨path, content, hgenerate, hcontent, rfl⟩⟩

/-- **A run of `Sync` clears the table of the events of registered schemas, whatever the orders,
exactly when each of them is consumable.** -/
theorem syncLeaves_nil_iff {schemas : List Schema} {calls : List LogCall}
    (hschema : ∀ call ∈ calls, call.resource.schema ∈ schemas) :
    (∀ left, SyncLeaves schemas (calls.filterMap LogCall.row?) left → left = []) ↔
      ∀ call ∈ calls, call.resource.schema.syncEventNeeded →
        Consumable schemas call.eventType call.resource := by
  rw [forall_syncLeaves_iff]
  constructor
  · intro h call hcall hneeded
    have hrow : call.row? = some _ := if_pos hneeded
    exact (consumed_iff (hschema call hcall) hrow).mp
      (h _ (List.mem_filterMap.mpr ⟨call, hcall, hrow⟩))
  · intro h row hrow
    obtain ⟨call, hcall, hrow⟩ := List.mem_filterMap.mp hrow
    refine (consumed_iff (hschema call hcall) hrow).mpr (h call hcall ?_)
    by_contra hneeded
    have hnone : call.row? = none := if_neg hneeded
    rw [hrow] at hnone
    cases hnone

/-- A schema of which only one property is to be stored. -/
def poolSchema : Schema where
  id := "pool"
  singular := "pool"
  plural := "pools"
  url := "/v1.0/pools"
  metadata := GoMap.ofList [("sync_property", .str "config")]
  properties := [{ id := "id" }, { id := "config", nullable := true }]

/-- The creation of a pool with its configuration. -/
def configuredCall : LogCall where
  id := 2
  eventType := .create
  resource := ⟨poolSchema, GoMap.ofList [("id", .str "b"), ("config", .str "on")]⟩
  version := 1

/-- The creation of a pool without one. -/
def unconfiguredCall : LogCall where
  id := 1
  eventType := .create
  resource := ⟨poolSchema, GoMap.ofList [("id", .str "a")]⟩
  version := 1

omit [TextEngine] in
/-- The pool with its configuration is stored. -/
theorem syncLeaves_nil_configured :
    letI := placeholders
    SyncLeaves [poolSchema] ([configuredCall].filterMap LogCall.row?) [] ∧
      ∀ left, SyncLeaves [poolSchema] ([configuredCall].filterMap LogCall.row?) left →
        left = [] := by
  let _ := placeholders
  refine ⟨.consume (.refl _) (.refl _) rfl .done,
    (syncLeaves_nil_iff (by simp [configuredCall])).mpr ?_⟩
  intro call hcall _
  cases List.mem_singleton.mp hcall
  refine ⟨fun c hc _ v hv ↦ ?_, fun _ ↦ .inr (by decide), nofun⟩
  cases List.mem_singleton.mp hc
  cases hv

omit [TextEngine] in
/-- The pool without one stops the run, and the other pool's event stays behind it. -/
theorem syncLeaves_blocked :
    letI := placeholders
    ∃ left,
      SyncLeaves [poolSchema] ([unconfiguredCall, configuredCall].filterMap LogCall.row?) left ∧
      left.map EventRow.id = [1, 2] := by
  let _ := placeholders
  exact ⟨_, .stuck (.refl _) (.refl _) rfl, rfl⟩

end Gohan.Sync
