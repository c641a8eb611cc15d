import Gohan.Sync.Logger
import Gohan.Logic.Machine

/-!
# etcd as a mirror of the tables

Resources are created, updated and deleted through the event logger, and a sync writer applies the
rows of the event table in their order.  When the event table is empty, etcd should hold the last
event of every resource there is, and nothing of one there is not: `Mirrors`.

The logger and the writer find the key of an event independently, each from the body it has at hand.
So this depends on what the bodies say.  An update that changes a property of the key template moves
the resource to another key and leaves the first as it is; one that lacks the property stores the
resource under the wrong key; an update of a row that is not there stores a resource that does not
exist; two resources may have one key; a row that goes by a cascade leaves its key behind; and an
empty string is not stored.  `Faithful` excludes these, operation by operation.

The invariant is about `drained`, what etcd comes to hold when the rest of the event table is
applied.  The writer does not change it (`drained_apply`), and an operation of a client changes it
at one key (`drained_log`).  An event that cannot be consumed stays in the table for ever, and
nothing is claimed about a table that never gets empty (`Poisoned`).
-/

set_option autoImplicit false

namespace Gohan.Sync

variable [TextEngine] {cat : Catalog}

/-- The key that the schemas give to a resource. -/
def Resource.key? (schemas : List Schema) (resource : Resource) : Option String :=
  keyOf? schemas resource.path resource.json

/-- The content of the resource is the empty string: it is one property, stored as it is. -/
def Resource.RendersEmpty (resource : Resource) : Prop :=
  resource.schema.syncPlain = true ∧ resource.schema.syncProperty ≠ "" ∧
    resource.properties.lookup resource.schema.syncProperty = some (.str "")

/-! ## The machine -/

/-- The database, with the event table, and etcd.  For the record, `last` has the last event of
every resource. -/
structure Site where
  tx : Tx
  etcd : String → Option Content
  last : String × String → Option EventRow

/-- The tables and etcd are empty. -/
def Site.start : Site where
  tx := ⟨.empty, [], 1⟩
  etcd _ := none
  last _ := none

/-- An operation on a resource of a registered schema, or the writer's next event. -/
inductive SiteAct (cat : Catalog) where
  | create (resource : Resource) (registered : resource.schema ∈ cat.schemas)
  | update (resource : Resource) (registered : resource.schema ∈ cat.schemas)
  | delete (s : Schema) (resourceID : String) (registered : s ∈ cat.schemas)
  | apply (first second : Order cat.schemas)

/-- An operation on the resource with the given key has led to `tx`. -/
def Site.log (s : Site) (key : String × String) (tx : Tx) : Site :=
  { s with
    tx
    last :=
      match (tx.events.drop s.tx.events.length).getLast? with
      | some e => Function.update s.last key (some e)
      | none => s.last }

/-- One step.  Where an operation fails, the transaction is not committed. -/
def Site.step (s : Site) : SiteAct cat → Site
  | .create resource _ =>
    match s.tx.create resource with
    | .ok tx => s.log (resource.schema.id, resource.ID) tx
    | .error _ => s
  | .update resource _ =>
    match s.tx.update resource with
    | .ok tx => s.log (resource.schema.id, resource.ID) tx
    | .error _ => s
  | .delete schema resourceID _ =>
    match s.tx.delete cat schema resourceID with
    | .ok tx => s.log (schema.id, resourceID) tx
    | .error _ => s
  | .apply first second =>
    match s.tx.events with
    | [] => s
    | row :: rest =>
      match eventOps first second row with
      | .ok ops =>
        { s with
          tx := { s.tx with events := rest }
          etcd := Journal.replay s.etcd (ops.map (·.entry row.id)) }
      | .error _ => s

/-- Every resource with events has its last event at the key of its current data, and a key that
holds something is the key of a resource. -/
structure Mirrors (cat : Catalog) (s : Site) : Prop where
  live : ∀ row ∈ s.tx.db.rows, row.Synced → ∀ key, row.resource.key? cat.schemas = some key →
    ConfigKey key → ∃ e content, s.last row.key = some e ∧ e.value = .ok (some content) ∧
      s.etcd key = some content
  dead : ∀ key, ConfigKey key → s.etcd key ≠ none → ∃ row ∈ s.tx.db.rows, row.Synced ∧
    row.resource.key? cat.schemas = some key

/-- The operations that keep etcd a mirror.  An operation on a schema without events has only to
spare the rows of the others. -/
def Faithful (s : Site) : SiteAct cat → Prop
  | .create resource _ => resource.schema.syncEventNeeded = true →
      Unambiguous cat.schemas resource.path resource.json ∧
      resource.stored.key? cat.schemas = resource.key? cat.schemas ∧
      ∀ key, resource.key? cat.schemas = some key → ConfigKey key → ¬ resource.RendersEmpty ∧
        ∀ row ∈ s.tx.db.rows, row.Synced → row.resource.key? cat.schemas ≠ some key
  | .update resource _ => resource.schema.syncEventNeeded = true →
      Unambiguous cat.schemas resource.path resource.json ∧
      (∃ row ∈ s.tx.db.rows, row.is resource.schema resource.ID = true ∧
        row.resource.key? cat.schemas = resource.key? cat.schemas ∧
        (row.updated resource).resource.key? cat.schemas = resource.key? cat.schemas) ∧
      ∀ key, resource.key? cat.schemas = some key → ConfigKey key → ¬ resource.RendersEmpty
  | .delete schema resourceID _ => ∀ row ∈ s.tx.db.rows, row.Synced →
      (row.is schema resourceID = true →
        Unambiguous cat.schemas row.resource.path row.resource.json) ∧
      (s.tx.db.gone cat (·.is schema resourceID) row = true → row.is schema resourceID = true)
  | .apply _ _ => True

/-! ## What etcd comes to hold -/

/-- etcd when the rest of the event table has been applied. -/
def Site.drained (cat : Catalog) (s : Site) : String → Option Content :=
  Journal.replay s.etcd (s.tx.events.filterMap (EventRow.write? cat.schemas))

/-- Some event cannot be consumed. -/
def Poisoned (cat : Catalog) (s : Site) : Prop :=
  ∃ e ∈ s.tx.events, e.key? cat.schemas = none ∨ ∀ value, e.value ≠ .ok value

/-- What holds in every run: once the events that wait are applied, etcd is what the tables say. -/
structure SiteInv (cat : Catalog) (s : Site) : Prop where
  registered : ∀ row ∈ s.tx.db.rows, row.resource.schema ∈ cat.schemas
  unambiguous : ∀ e ∈ s.tx.events, e.Unambiguous cat.schemas
  /-- No two resources have the same key. -/
  distinct : ∀ row ∈ s.tx.db.rows, ∀ row' ∈ s.tx.db.rows, row.Synced → row'.Synced → ∀ key,
    row.resource.key? cat.schemas = some key → row'.resource.key? cat.schemas = some key →
      ConfigKey key → row = row'
  live : ∀ row ∈ s.tx.db.rows, row.Synced → ∀ key, row.resource.key? cat.schemas = some key →
    ConfigKey key → ∃ e content, s.last row.key = some e ∧ e.value = .ok (some content) ∧
      s.drained cat key = some content
  dead : ∀ key, ConfigKey key → s.drained cat key ≠ none → ∃ row ∈ s.tx.db.rows, row.Synced ∧
    row.resource.key? cat.schemas = some key

theorem decode_eq_str {v : Value} {t : String} (h : v.decode = .str t) : v = .str t := by
  cases v <;> simp_all [Value.decode]

/-- The content of an event is empty only if that of the resource is. -/
theorem rendersEmpty_of_eventContent {id : ℕ} {type : EventType} {resource : Resource}
    {version : ℤ} {e : EventRow} (he : logEvent id type resource version = some e)
    {content : Content} (hcontent : eventContent e = .ok content)
    (hempty : content.isEmpty = true) : resource.RendersEmpty := by
  cases logEvent_eq_some he
  rw [eventContent, Go.bind_eq_ok] at hcontent
  obtain ⟨v, htarget, hcontent⟩ := hcontent
  cases hcontent
  by_cases hplain : resource.schema.syncPlain = true
  · by_cases hproperty : resource.schema.syncProperty = ""
    · rw [eventTarget, if_pos hproperty] at htarget
      cases htarget
      simp [hplain, Resource.json, Value.decode, Content.isEmpty] at hempty
    · obtain ⟨u, hu, rfl⟩ := (eventTarget_eq_ok rfl hproperty).mp htarget
      rw [GoMap.lookup_toList] at hu
      simp only [hplain, if_true] at hempty
      cases hdecode : u.decode.decode with
      | str t =>
        rw [hdecode] at hempty
        cases decode_eq_str (decode_eq_str hdecode)
        cases beq_iff_eq.mp hempty
        exact ⟨hplain, hproperty, hu⟩
      | _ =>
        rw [hdecode] at hempty
        cases hempty
  · simp [hplain, Content.isEmpty] at hempty

variable {s s' : Site}

/-! ## The writer -/

/-- **The writer does not change what etcd comes to hold.** -/
theorem drained_apply {row : EventRow} {rest : List EventRow} {first second : Order cat.schemas}
    {ops : List EtcdOp} (hevents : s.tx.events = row :: rest)
    (hrow : row.Unambiguous cat.schemas) (hops : eventOps first second row = .ok ops)
    {k : String} (hk : ConfigKey k) :
    Site.drained cat { s with
      tx := { s.tx with events := rest }
      etcd := Journal.replay s.etcd (ops.map (·.entry row.id)) } k = s.drained cat k := by
  rw [Site.drained, Site.drained, hevents]
  refine (replay_eventOps hrow first.2 hops s.etcd _ hk).trans ?_
  rw [List.filterMap_cons]
  cases row.write? cat.schemas <;> rfl

theorem inv_apply {row : EventRow} {rest : List EventRow} {first second : Order cat.schemas}
    {ops : List EtcdOp} (hevents : s.tx.events = row :: rest)
    (hops : eventOps first second row = .ok ops) (h : SiteInv cat s) :
    SiteInv cat { s with
      tx := { s.tx with events := rest }
      etcd := Journal.replay s.etcd (ops.map (·.entry row.id)) } := by
  have hrow : row.Unambiguous cat.schemas :=
    h.unambiguous row (hevents ▸ List.mem_cons_self)
  refine ⟨h.registered, fun e he ↦ ?_, h.distinct, fun r hr hsynced key hkey hk ↦ ?_,
    fun key hk hholds ↦ ?_⟩
  · exact h.unambiguous e (hevents ▸ List.mem_cons_of_mem _ he)
  · rw [drained_apply hevents hrow hops hk]
    exact h.live r hr hsynced key hkey hk
  · rw [drained_apply hevents hrow hops hk] at hholds
    exact h.dead key hk hholds

/-! ## The logger -/

/-- An event that is logged changes what etcd comes to hold at its key. -/
theorem drained_log {e : EventRow} {key : String} {value : Option Content}
    (hetcd : s'.etcd = s.etcd)
    (hevents : s'.tx.events = s.tx.events ++ [e]) (hkey : e.key? cat.schemas = some key)
    (hvalue : e.value = .ok value) (hempty : ConfigKey key → value.any Content.isEmpty = false)
    {k : String} (hk : ConfigKey k) :
    s'.drained cat k = if k = key then value else s.drained cat k := by
  rw [Site.drained, hetcd, hevents, List.filterMap_append, Journal.replay_append]
  have hwrite : e.write? cat.schemas =
      if value.any Content.isEmpty then none else some ⟨e.id, key, value⟩ := by
    rw [EventRow.write?, hkey, hvalue]
  by_cases hany : value.any Content.isEmpty = true
  · have hne : k ≠ key := by
      rintro rfl
      rw [hempty hk] at hany
      cases hany
    rw [if_neg hne, List.filterMap_cons_none (hwrite.trans (if_pos hany))]
    rfl
  · rw [List.filterMap_cons_some (hwrite.trans (if_neg hany))]
    split
    · next heq =>
      subst heq
      exact Function.update_self ..
    · next hne => exact Function.update_of_ne hne ..

theorem log_last_of_append {key : String × String} {tx : Tx} {e : EventRow}
    (h : tx.events = s.tx.events ++ [e]) :
    (s.log key tx).last = Function.update s.last key (some e) := by
  rw [Site.log, h, List.drop_left]
  rfl

theorem log_last_of_eq {key : String × String} {tx : Tx} (h : tx.events = s.tx.events) :
    (s.log key tx).last = s.last := by
  rw [Site.log, h, List.drop_length]
  rfl

/-- What is logged of a resource that is created or updated: it has the key of the resource, and a
content that is not empty unless that of the resource is. -/
theorem poisoned_or_logged {id : ℕ} {type : EventType} {resource : Resource} {version : ℤ}
    {e : EventRow} {key : String × String} {tx : Tx} (htype : type ≠ .delete)
    (he : logEvent id type resource version = some e) (hevents : tx.events = s.tx.events ++ [e]) :
    Poisoned cat (s.log key tx) ∨ ∃ key content, resource.key? cat.schemas = some key ∧
      e.key? cat.schemas = some key ∧ e.value = .ok (some content) ∧
        (content.isEmpty = true → resource.RendersEmpty) := by
  have hmem : e ∈ (s.log key tx).tx.events := by
    have hlog : (s.log key tx).tx.events = tx.events := rfl
    rw [hlog, hevents]
    simp
  have hevent := logEvent_eq_some he
  have hkeys : e.key? cat.schemas = resource.key? cat.schemas := key?_of_logEvent he
  have hvalue : e.value = (eventContent e).map some :=
    EventRow.value_of_ne_delete (by rwa [hevent])
  cases hkey : e.key? cat.schemas with
  | none => exact .inl ⟨e, hmem, .inl hkey⟩
  | some k =>
    cases hcontent : eventContent e with
    | error fault =>
      refine .inl ⟨e, hmem, .inr fun value h ↦ ?_⟩
      rw [hvalue, hcontent] at h
      cases h
    | ok content =>
      refine .inr ⟨k, content, hkeys ▸ hkey, rfl, ?_, rendersEmpty_of_eventContent he hcontent⟩
      rw [hvalue, hcontent]
      rfl

/-- Nothing is logged, and no resource with events has changed. -/
theorem inv_unlogged {key : String × String} {tx : Tx} (hevents : tx.events = s.tx.events)
    (hregistered : ∀ row ∈ tx.db.rows, row.resource.schema ∈ cat.schemas)
    (hsynced : ∀ row : TableRow, row.Synced → (row ∈ tx.db.rows ↔ row ∈ s.tx.db.rows))
    (h : SiteInv cat s) : SiteInv cat (s.log key tx) := by
  have hdrained : (s.log key tx).drained cat = s.drained cat := by
    have hlog : (s.log key tx).tx.events = s.tx.events := hevents
    rw [Site.drained, Site.drained, hlog]
    rfl
  refine ⟨hregistered, hevents ▸ h.unambiguous, fun row hrow row' hrow' hs hs' ↦
    h.distinct row ((hsynced row hs).mp hrow) row' ((hsynced row' hs').mp hrow') hs hs', ?_, ?_⟩
  · intro row hrow hs key' hkey hk
    rw [hdrained, log_last_of_eq hevents]
    exact h.live row ((hsynced row hs).mp hrow) hs key' hkey hk
  · intro key' hk hholds
    rw [hdrained] at hholds
    obtain ⟨row, hrow, hs, hkey⟩ := h.dead key' hk hholds
    exact ⟨row, (hsynced row hs).mpr hrow, hs, hkey⟩

/-- The row `row₀` is written, and its content logged at its key.  The other rows are as they were,
and have other keys. -/
theorem inv_put {tx : Tx} {e : EventRow} {row₀ : TableRow} {k₀ : String} {content : Content}
    (hevents : tx.events = s.tx.events ++ [e]) (hunambiguous : e.Unambiguous cat.schemas)
    (hekey : e.key? cat.schemas = some k₀) (hvalue : e.value = .ok (some content))
    (hempty : ConfigKey k₀ → content.isEmpty = false) (hrow₀ : row₀ ∈ tx.db.rows)
    (hsynced₀ : row₀.Synced) (hkey₀ : row₀.resource.key? cat.schemas = some k₀)
    (hregistered : ∀ row ∈ tx.db.rows, row.resource.schema ∈ cat.schemas)
    (hother : ∀ row ∈ tx.db.rows, row.Synced → row = row₀ ∨ row ∈ s.tx.db.rows ∧
      row.key ≠ row₀.key ∧ (ConfigKey k₀ → row.resource.key? cat.schemas ≠ some k₀))
    (hback : ∀ row ∈ s.tx.db.rows, row.Synced → row ∈ tx.db.rows ∨
      row.resource.key? cat.schemas = some k₀)
    (h : SiteInv cat s) : SiteInv cat (s.log row₀.key tx) := by
  have hlog : (s.log row₀.key tx).tx.events = s.tx.events ++ [e] := hevents
  have hetcd : (s.log row₀.key tx).etcd = s.etcd := rfl
  have hdrained : ∀ k, ConfigKey k → (s.log row₀.key tx).drained cat k =
      if k = k₀ then some content else s.drained cat k :=
    fun k hk ↦ drained_log hetcd hlog hekey hvalue hempty hk
  refine ⟨hregistered, fun e' he' ↦ ?_, ?_, ?_, ?_⟩
  · rw [hlog] at he'
    rcases List.mem_append.mp he' with he' | he'
    · exact h.unambiguous e' he'
    · cases List.mem_singleton.mp he'
      exact hunambiguous
  · intro row hrow row' hrow' hs hs' key hkey hkey' hk
    rcases hother row hrow hs with rfl | ⟨hold, -, hne⟩ <;>
      rcases hother row' hrow' hs' with rfl | ⟨hold', -, hne'⟩
    · rfl
    · cases hkey₀.symm.trans hkey
      exact absurd hkey' (hne' hk)
    · cases hkey₀.symm.trans hkey'
      exact absurd hkey (hne hk)
    · exact h.distinct row hold row' hold' hs hs' key hkey hkey' hk
  · intro row hrow hs key hkey hk
    rw [hdrained key hk, log_last_of_append hevents]
    rcases hother row hrow hs with rfl | ⟨hold, hne, hkne⟩
    · cases hkey₀.symm.trans hkey
      exact ⟨e, content, Function.update_self .., hvalue, if_pos rfl⟩
    · have hkeys : key ≠ k₀ := by
        rintro rfl
        exact hkne hk hkey
      rw [Function.update_of_ne hne, if_neg hkeys]
      exact h.live row hold hs key hkey hk
  · intro key hk hholds
    rw [hdrained key hk] at hholds
    by_cases hkeys : key = k₀
    · exact ⟨row₀, hrow₀, hsynced₀, hkeys ▸ hkey₀⟩
    · rw [if_neg hkeys] at hholds
      obtain ⟨row, hrow, hs, hkey⟩ := h.dead key hk hholds
      rcases hback row hrow hs with hmem | hsame
      · exact ⟨row, hmem, hs, hkey⟩
      · cases hkey.symm.trans hsame
        exact absurd rfl hkeys

/-- A resource is created. -/
theorem inv_create {resource : Resource} {registered : resource.schema ∈ cat.schemas} {tx : Tx}
    (htx : s.tx.create resource = .ok tx) (hok : Faithful s (.create resource registered))
    (h : SiteInv cat s) : Poisoned cat (s.log (resource.schema.id, resource.ID) tx) ∨
      SiteInv cat (s.log (resource.schema.id, resource.ID) tx) := by
  obtain ⟨hdb, hevents⟩ := Tx.create_eq_ok htx
  obtain ⟨hnew, hrows⟩ := Tables.create_eq_ok hdb
  have hmem : ∀ row, row ∈ tx.db.rows ↔ row ∈ s.tx.db.rows ∨ row = ⟨resource.stored, 1⟩ := by
    simp [hrows]
  have hkey : (resource.schema.id, resource.ID) = (TableRow.mk resource.stored 1).key :=
    Prod.ext rfl resource.stored_ID.symm
  have hregistered : ∀ row ∈ tx.db.rows, row.resource.schema ∈ cat.schemas := by
    intro row hrow
    rcases (hmem row).mp hrow with hrow | rfl
    · exact h.registered row hrow
    · exact registered
  cases hlog : logEvent s.tx.nextId .create resource 1 with
  | none =>
    have hneeded := not_needed_of_logEvent_eq_none hlog
    rw [hlog] at hevents
    refine .inr (inv_unlogged (hevents.trans (List.append_nil _)) hregistered ?_ h)
    refine fun row hs ↦ ⟨fun hrow ↦ ?_, fun hrow ↦ (hmem row).mpr (.inl hrow)⟩
    rcases (hmem row).mp hrow with hrow | rfl
    · exact hrow
    · exact absurd hs hneeded
  | some e =>
    have hneeded := needed_of_logEvent_eq_some hlog
    rw [hlog] at hevents
    obtain ⟨hunambiguous, hstored, hkeys⟩ := hok hneeded
    have htype : EventType.create ≠ .delete := by decide
    refine (poisoned_or_logged htype hlog hevents).imp_right fun ⟨k₀, content, hk₀, hekey, hvalue,
      hempty⟩ ↦ ?_
    rw [hkey]
    refine inv_put hevents ?_ hekey hvalue ?_ ((hmem _).mpr (.inr rfl)) hneeded (hstored.trans hk₀)
      hregistered ?_ (fun row hrow _ ↦ .inl ((hmem row).mpr (.inl hrow))) h
    · exact (unambiguous_of_logEvent hlog).mpr hunambiguous
    · intro hk
      by_contra hnot
      exact (hkeys k₀ hk₀ hk).1 (hempty (by simpa using hnot))
    · intro row hrow hs
      rcases (hmem row).mp hrow with hrow | rfl
      · exact .inr ⟨hrow, hkey ▸ hnew row hrow, fun hk ↦ (hkeys k₀ hk₀ hk).2 row hrow hs⟩
      · exact .inl rfl

/-- A resource is updated. -/
theorem inv_update {resource : Resource} {registered : resource.schema ∈ cat.schemas} {tx : Tx}
    (htx : s.tx.update resource = .ok tx) (hok : Faithful s (.update resource registered))
    (h : SiteInv cat s) : Poisoned cat (s.log (resource.schema.id, resource.ID) tx) ∨
      SiteInv cat (s.log (resource.schema.id, resource.ID) tx) := by
  obtain ⟨hdb, version, hevents⟩ := Tx.update_eq_ok htx
  have hmem : ∀ row', row' ∈ tx.db.rows ↔ ∃ row ∈ s.tx.db.rows,
      row' = if row.is resource.schema resource.ID then row.updated resource else row := by
    intro row'
    rw [hdb]
    exact Tables.mem_update
  have hschema : ∀ row ∈ s.tx.db.rows, row.is resource.schema resource.ID = true →
      row.resource.schema = resource.schema := fun row hrow his ↦
    cat.eq_of_id_eq (h.registered row hrow) registered (TableRow.is_iff.mp his).1
  have hregistered : ∀ row ∈ tx.db.rows, row.resource.schema ∈ cat.schemas := by
    intro row' hrow'
    obtain ⟨row, hrow, rfl⟩ := (hmem row').mp hrow'
    split
    · exact registered
    · exact h.registered row hrow
  cases hlog : logEvent s.tx.nextId .update resource version with
  | none =>
    have hneeded := not_needed_of_logEvent_eq_none hlog
    rw [hlog] at hevents
    refine .inr (inv_unlogged (hevents.trans (List.append_nil _)) hregistered ?_ h)
    intro row' hs
    rw [hmem]
    constructor
    · rintro ⟨row, hrow, rfl⟩
      by_cases his : row.is resource.schema resource.ID = true
      · rw [if_pos his] at hs
        exact absurd hs hneeded
      · rwa [if_neg his]
    · intro hrow
      have hnot : ¬ row'.is resource.schema resource.ID = true := by
        intro his
        rw [TableRow.Synced, hschema row' hrow his] at hs
        exact hneeded hs
      exact ⟨row', hrow, (if_neg hnot).symm⟩
  | some e =>
    have hneeded := needed_of_logEvent_eq_some hlog
    rw [hlog] at hevents
    obtain ⟨hunambiguous, ⟨row₁, hrow₁, his₁, hkey₁, hupdated⟩, hnonempty⟩ := hok hneeded
    have hsame : ∀ row ∈ s.tx.db.rows, row.is resource.schema resource.ID = true → row = row₁ :=
      fun row hrow his ↦ Tables.eq_of_key_eq hrow hrow₁
        ((beq_iff_eq.mp his).trans (beq_iff_eq.mp his₁).symm)
    have hkey : (resource.schema.id, resource.ID) = (row₁.updated resource).key :=
      (beq_iff_eq.mp his₁).symm.trans (TableRow.updated_key his₁).symm
    have hsynced₁ : row₁.Synced := by
      rw [TableRow.Synced, hschema row₁ hrow₁ his₁]
      exact hneeded
    have htype : EventType.update ≠ .delete := by decide
    refine (poisoned_or_logged htype hlog hevents).imp_right fun ⟨k₀, content, hk₀, hekey, hvalue,
      hempty⟩ ↦ ?_
    rw [hkey]
    refine inv_put hevents ?_ hekey hvalue ?_ ((hmem _).mpr ⟨row₁, hrow₁, (if_pos his₁).symm⟩)
      hneeded (hupdated.trans hk₀) hregistered ?_ ?_ h
    · exact (unambiguous_of_logEvent hlog).mpr hunambiguous
    · intro hk
      by_contra hnot
      exact hnonempty k₀ hk₀ hk (hempty (by simpa using hnot))
    · intro row' hrow' hs
      obtain ⟨row, hrow, rfl⟩ := (hmem row').mp hrow'
      by_cases his : row.is resource.schema resource.ID = true
      · rw [if_pos his, hsame row hrow his]
        exact .inl rfl
      · rw [if_neg his] at hs ⊢
        refine .inr ⟨hrow, fun hkeys ↦ his ?_, fun hk hkeys ↦ his ?_⟩
        · exact beq_iff_eq.mpr (hkeys.trans hkey.symm)
        · rw [h.distinct row hrow row₁ hrow₁ hs hsynced₁ k₀ hkeys (hkey₁.trans hk₀) hk]
          exact his₁
    · intro row hrow hs
      by_cases his : row.is resource.schema resource.ID = true
      · rw [hsame row hrow his]
        exact .inr (hkey₁.trans hk₀)
      · exact .inl ((hmem row).mpr ⟨row, hrow, (if_neg his).symm⟩)

/-- A resource is deleted. -/
theorem inv_delete {schema : Schema} {resourceID : String} {registered : schema ∈ cat.schemas}
    {tx : Tx} (htx : s.tx.delete cat schema resourceID = .ok tx)
    (hok : Faithful s (.delete schema resourceID registered)) (h : SiteInv cat s) :
    Poisoned cat (s.log (schema.id, resourceID) tx) ∨
      SiteInv cat (s.log (schema.id, resourceID) tx) := by
  obtain ⟨hdb, row₁, hrow₁, his₁, hevents⟩ := Tx.delete_eq_ok htx
  have hmem : ∀ row, row ∈ tx.db.rows ↔ row ∈ s.tx.db.rows ∧ _ :=
    fun row ↦ Tables.mem_of_delete_eq_ok hdb
  have hsame : ∀ row ∈ s.tx.db.rows, row.is schema resourceID = true → row = row₁ :=
    fun row hrow his ↦ Tables.eq_of_key_eq hrow hrow₁
      ((beq_iff_eq.mp his).trans (beq_iff_eq.mp his₁).symm)
  have hstays : ∀ row ∈ s.tx.db.rows, row.Synced → row ≠ row₁ → row ∈ tx.db.rows := by
    intro row hrow hs hne
    refine (hmem row).mpr ⟨hrow, ?_⟩
    by_contra hgone
    exact hne (hsame row hrow ((hok row hrow hs).2 (by simpa using hgone)))
  have hregistered : ∀ row ∈ tx.db.rows, row.resource.schema ∈ cat.schemas :=
    fun row hrow ↦ h.registered row ((hmem row).mp hrow).1
  cases hlog : logEvent s.tx.nextId .delete row₁.resource (Tx.deletedVersion row₁) with
  | none =>
    have hnot : ¬ row₁.Synced := not_needed_of_logEvent_eq_none hlog
    rw [hlog] at hevents
    refine .inr (inv_unlogged (hevents.trans (List.append_nil _)) hregistered ?_ h)
    refine fun row hs ↦ ⟨fun hrow ↦ ((hmem row).mp hrow).1, fun hrow ↦ hstays row hrow hs ?_⟩
    rintro rfl
    exact hnot hs
  | some e =>
    have hsynced₁ : row₁.Synced := needed_of_logEvent_eq_some hlog
    rw [hlog] at hevents
    have hlogged : (s.log (schema.id, resourceID) tx).tx.events = s.tx.events ++ [e] := hevents
    have hetcd : (s.log (schema.id, resourceID) tx).etcd = s.etcd := rfl
    have hekey : e.key? cat.schemas = row₁.resource.key? cat.schemas := key?_of_logEvent hlog
    have hvalue : e.value = .ok none := value_of_logEvent_delete hlog
    cases hk₀ : row₁.resource.key? cat.schemas with
    | none =>
      refine .inl ⟨e, ?_, .inl (hekey.trans hk₀)⟩
      rw [hlogged]
      simp
    | some k₀ =>
      right
      have hdrained : ∀ k, ConfigKey k → (s.log (schema.id, resourceID) tx).drained cat k =
          if k = k₀ then none else s.drained cat k :=
        fun k hk ↦ drained_log hetcd hlogged (hekey.trans hk₀) hvalue (fun _ ↦ rfl) hk
      refine ⟨hregistered, fun e' he' ↦ ?_, fun row hrow row' hrow' ↦
        h.distinct row ((hmem row).mp hrow).1 row' ((hmem row').mp hrow').1, ?_, ?_⟩
      · rw [hlogged] at he'
        rcases List.mem_append.mp he' with he' | he'
        · exact h.unambiguous e' he'
        · cases List.mem_singleton.mp he'
          exact (unambiguous_of_logEvent hlog).mpr ((hok row₁ hrow₁ hsynced₁).1 his₁)
      · intro row hrow hs key hkey hk
        obtain ⟨hold, hkept⟩ := (hmem row).mp hrow
        have hne : row ≠ row₁ := by
          rintro rfl
          rw [Tables.gone_of_target hold his₁] at hkept
          cases hkept
        have hkeys : key ≠ k₀ := by
          rintro rfl
          exact hne (h.distinct row hold row₁ hrow₁ hs hsynced₁ key hkey hk₀ hk)
        have hrowkey : row.key ≠ (schema.id, resourceID) := fun heq ↦
          hne (hsame row hold (beq_iff_eq.mpr heq))
        rw [hdrained key hk, if_neg hkeys, log_last_of_append hevents,
          Function.update_of_ne hrowkey]
        exact h.live row hold hs key hkey hk
      · intro key hk hholds
        rw [hdrained key hk] at hholds
        by_cases hkeys : key = k₀
        · rw [if_pos hkeys] at hholds
          exact absurd rfl hholds
        · rw [if_neg hkeys] at hholds
          obtain ⟨row, hrow, hs, hkey⟩ := h.dead key hk hholds
          refine ⟨row, hstays row hrow hs ?_, hs, hkey⟩
          rintro rfl
          cases hkey.symm.trans hk₀
          exact hkeys rfl

/-! ## Runs -/

theorem Poisoned.log {key : String × String} {tx : Tx} (h : Poisoned cat s)
    (hevents : s.tx.events <+: tx.events) : Poisoned cat (s.log key tx) := by
  obtain ⟨e, he, hpoison⟩ := h
  exact ⟨e, hevents.subset he, hpoison⟩

theorem inv_step {a : SiteAct cat} (hok : Faithful s a) (h : Poisoned cat s ∨ SiteInv cat s) :
    Poisoned cat (s.step a) ∨ SiteInv cat (s.step a) := by
  cases a with
  | create resource registered =>
    rw [Site.step]
    split
    · next tx htx =>
      rcases h with h | h
      · exact .inl (h.log (by rw [(Tx.create_eq_ok htx).2]; exact List.prefix_append _ _))
      · exact inv_create htx hok h
    · exact h
  | update resource registered =>
    rw [Site.step]
    split
    · next tx htx =>
      rcases h with h | h
      · obtain ⟨-, version, hevents⟩ := Tx.update_eq_ok htx
        exact .inl (h.log (by rw [hevents]; exact List.prefix_append _ _))
      · exact inv_update htx hok h
    · exact h
  | delete schema resourceID registered =>
    rw [Site.step]
    split
    · next tx htx =>
      rcases h with h | h
      · obtain ⟨-, row, -, -, hevents⟩ := Tx.delete_eq_ok htx
        exact .inl (h.log (by rw [hevents]; exact List.prefix_append _ _))
      · exact inv_delete htx hok h
    · exact h
  | apply first second =>
    rw [Site.step]
    split
    · exact h
    · next row rest hevents =>
      split
      · next ops hops =>
        rcases h with ⟨e, he, hpoison⟩ | h
        · -- the event that cannot be consumed is not the one that has been
          left
          rw [hevents] at he
          rcases List.mem_cons.mp he with rfl | he
          · rcases hpoison with hnone | hvalue
            · have hsome := isSome_key?_of_eventOps first.2 hops
              rw [hnone] at hsome
              cases hsome
            · obtain ⟨value, h⟩ := exists_value_of_eventOps hops
              exact absurd h (hvalue value)
          · exact ⟨e, he, hpoison⟩
        · exact .inr (inv_apply hevents hops h)
      · exact h

theorem inv_start : SiteInv cat .start where
  registered _ h := by cases h
  unambiguous _ h := by cases h
  distinct _ h := by cases h
  live _ h := by cases h
  dead _ _ h := absurd rfl h

/-- **The mirror.**  In a run of faithful operations, whenever the event table is empty, every
resource has its last event at its key, and no key holds anything else. -/
theorem mirrors_of_run {acts : List (SiteAct cat)}
    (hacts : Machine.Along Site.step Faithful .start acts) :
    ∀ t ∈ Machine.states Site.step .start acts, t.tx.events = [] → Mirrors cat t := by
  intro t ht hempty
  have hstep : ∀ (s : Site) (a : SiteAct cat), Poisoned cat s ∨ SiteInv cat s → Faithful s a →
      Poisoned cat (s.step a) ∨ SiteInv cat (s.step a) := fun s a h hok ↦ inv_step hok h
  have hinv := Machine.invariant_of_along hstep (.inr inv_start) hacts
  have hdrained : t.drained cat = t.etcd := by
    rw [Site.drained, hempty]
    rfl
  rcases hinv t ht with ⟨e, he, -⟩ | h
  · rw [hempty] at he
    cases he
  · exact ⟨fun row hrow hs key hkey hk ↦ hdrained ▸ h.live row hrow hs key hkey hk,
      fun key hk hholds ↦ h.dead key hk (by rwa [hdrained])⟩

/-! ## A renamed machine and an emptied banner -/

/-- Stored under its name. -/
def vmSchema : Schema where
  id := "vm"
  singular := "vm"
  plural := "vms"
  url := "/v1.0/vms"
  metadata := GoMap.ofList [("sync_key_template", .str "/vms/{{name}}")]
  properties := [{ id := "id" }, { id := "name" }, { id := "size", nullable := true }]

/-- Stored as its text. -/
def bannerSchema : Schema where
  id := "banner"
  singular := "banner"
  plural := "banners"
  url := "/v1.0/banners"
  metadata := GoMap.ofList [("sync_plain", .bool true), ("sync_property", .str "text")]
  properties := [{ id := "id" }, { id := "text" }]

/-- The two schemas. -/
def vmCatalog : Catalog where
  schemas := [vmSchema, bannerSchema]
  distinct := by decide

/-- A machine with a name and a size. -/
def vm (name size : String) : Resource :=
  ⟨vmSchema, GoMap.ofList [("id", .str "v1"), ("name", .str name), ("size", .str size)]⟩

/-- A banner with a text. -/
def banner (text : String) : Resource :=
  ⟨bannerSchema, GoMap.ofList [("id", .str "b1"), ("text", .str text)]⟩

omit [TextEngine] in
theorem vm_mem (name size : String) : (vm name size).schema ∈ vmCatalog.schemas :=
  List.mem_cons_self

/-- The writer applies the next event. -/
def applyEvent : SiteAct vmCatalog := .apply ⟨_, .refl _⟩ ⟨_, .refl _⟩

/-- A machine is created, gets another size, and is deleted. -/
def resized : List (SiteAct vmCatalog) :=
  [.create (vm "blue" "small") (vm_mem _ _), .update (vm "blue" "large") (vm_mem _ _),
    .delete vmSchema "v1" (by simp [vmCatalog]), applyEvent, applyEvent, applyEvent]

/-- A machine is created, gets another name, and is deleted. -/
def renamed : List (SiteAct vmCatalog) :=
  [.create (vm "blue" "small") (vm_mem _ _),
    .update (vm "green" "small") (vm_mem _ _), applyEvent, applyEvent,
    .delete vmSchema "v1" (by simp [vmCatalog]), applyEvent]

/-- A banner is created, and then its text is removed. -/
def emptied : List (SiteAct vmCatalog) :=
  [.create (banner "hello") (by simp [banner, vmCatalog]),
    .update (banner "") (by simp [banner, vmCatalog]), applyEvent, applyEvent]

theorem unambiguous_vm (body : Value) : Unambiguous vmCatalog.schemas "/v1.0/vms/v1" body := by
  have hvm : ∀ c ∈ vmCatalog.schemas, c.Matches "/v1.0/vms/v1" → c = vmSchema := by
    intro c hc hmatch
    simp only [vmCatalog, List.mem_cons, List.not_mem_nil, or_false] at hc
    rcases hc with rfl | rfl
    · rfl
    · exact absurd hmatch (by decide)
  rintro c hc c' hc' hmatch hmatch' key key' hkey hkey'
  cases hvm c hc hmatch
  cases hvm c' hc' hmatch'
  cases hkey.symm.trans hkey'
  rfl

omit [TextEngine] in
/-- The keys are computed one by one, and only the results are compared. -/
theorem key?_vm :
    letI := placeholders
    (vm "blue" "small").key? vmCatalog.schemas = some "/config/vms/blue" ∧
    (vm "blue" "large").key? vmCatalog.schemas = some "/config/vms/blue" ∧
    (vm "blue" "small").stored.key? vmCatalog.schemas = some "/config/vms/blue" ∧
    ((TableRow.mk (vm "blue" "small").stored 1).updated (vm "blue" "large")).resource.key?
      vmCatalog.schemas = some "/config/vms/blue" := by
  let _ := placeholders
  exact ⟨rfl, rfl, rfl, rfl⟩

omit [TextEngine] in
/-- With the same name all the time, nothing is left behind. -/
theorem mirrors_resized :
    letI := placeholders
    Mirrors vmCatalog (Machine.final Site.step Site.start resized) := by
  let _ := placeholders
  obtain ⟨hsmall, hlarge, hstored, hupdated⟩ := key?_vm
  have hplain : ∀ name size, ¬ (vm name size).RendersEmpty := fun _ _ h ↦
    Bool.false_ne_true h.1
  have hacts : Machine.Along Site.step Faithful Site.start resized := by
    refine ⟨fun _ ↦ ⟨unambiguous_vm _, hstored.trans hsmall.symm, fun _ _ _ ↦ ⟨hplain _ _, nofun⟩⟩,
      fun _ ↦ ⟨unambiguous_vm _, ⟨_, List.mem_cons_self, rfl, hstored.trans hlarge.symm,
        hupdated.trans hlarge.symm⟩, fun _ _ _ ↦ hplain _ _⟩, ?_, trivial, trivial, trivial,
      trivial⟩
    intro row hrow _
    obtain ⟨row', hrow', rfl⟩ := Tables.mem_update.mp hrow
    cases List.mem_singleton.mp hrow'
    exact ⟨fun _ ↦ unambiguous_vm _, fun _ ↦ rfl⟩
  exact mirrors_of_run hacts _ (Machine.final_mem_states _ _) rfl

omit [TextEngine] in
/-- The first name of the machine is left behind, and so is the text of the banner. -/
theorem not_mirrors :
    letI := placeholders
    let t := Machine.final Site.step Site.start renamed
    let u := Machine.final Site.step Site.start emptied
    t.tx.events = [] ∧ t.tx.db.rows = [] ∧ (t.etcd "/config/vms/blue").isSome ∧
      ¬ Mirrors vmCatalog t ∧
    u.tx.events = [] ∧
      (u.last ("banner", "b1")).map EventRow.value = some (.ok (some (.plain ""))) ∧
      u.etcd "/config/v1.0/banners/b1" = some (.plain "hello") ∧ ¬ Mirrors vmCatalog u := by
  intro t u
  let _ := placeholders
  refine ⟨rfl, rfl, rfl, fun h ↦ ?_, rfl, rfl, rfl, fun h ↦ ?_⟩
  · obtain ⟨row, hrow, -⟩ := h.dead "/config/vms/blue" (by decide) nofun
    cases hrow
  · obtain ⟨e, content, he, hvalue, hholds⟩ := h.live _ List.mem_cons_self rfl
      "/config/v1.0/banners/b1" rfl (by decide)
    cases he
    cases hvalue
    exact absurd hholds (by decide)

end Gohan.Sync
