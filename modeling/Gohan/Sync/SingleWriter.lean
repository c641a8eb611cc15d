import Gohan.Sync.Writer

/-!
# One writer, and whatever goes wrong

One process is inside `Sync`, again and again, and at any point an operation on etcd fails, the
transaction of the database fails, or the process dies.  What has been listed and not yet applied is
then listed again.

`Lone` is the invariant: the rows in the hands of the process are the first of the table, and the
table is the end of all there has been.  So an operation that takes effect belongs to the oldest row
there is, and the journal of etcd is in the order of the events (`WriterLaws.ordered`), though an
event may occur in it several times.  A journal of this kind leads to the same store as the events
themselves, each once: `etcd_of_drained`.

This takes it for granted that an event means the same at every attempt.  The key depends on the
schema that is found for the path, and the search ranges over a map: where two schemas match, the
next attempt may store the resource under another key and leave the first as it is.  `writerLaws`
has no need of the assumption, and `drained_alike` states it.
-/

set_option autoImplicit false

namespace Gohan.Sync

variable [TextEngine] {schemas : List Schema} {p : ℕ} {etcd : String → Option Content}
  {s : World} {table : List EventRow} {acts acts' : List (Act schemas)}

/-- An arrival, or an action of the process `p`. -/
def Act.By (p : ℕ) : Act schemas → Prop
  | .arrive _ => True
  | .list q | .begin q _ _ | .perform q | .ignore q | .commit q | .retry q | .stop q => q = p

/-- What holds if one process alone writes: its rows are the oldest of the table, and what it has
done is older. -/
structure Lone (p : ℕ) (s : World) : Prop where
  suffix : s.table <:+ s.arrived
  rows_prefix : (s.phase p).rows <+: s.table
  ordered : s.journal.Pairwise (·.id ≤ ·.id)
  behind : ∀ e ∈ s.journal, ∀ row ∈ s.table, e.id ≤ row.id

omit [TextEngine] in
theorem lone_start : Lone p (World.start table etcd) where
  suffix := List.suffix_refl _
  rows_prefix := List.nil_prefix
  ordered := .nil
  behind _ h := by cases h

omit [TextEngine] in
theorem Lone.to (h : Lone p s) {ph : Phase} (hrows : ph.rows <+: s.table) : Lone p (s.to p ph) where
  suffix := h.suffix
  rows_prefix := by rwa [World.to_phase_self]
  ordered := h.ordered
  behind := h.behind

/-- What is in the hands of the process is older than everything else. -/
theorem Lone.id_le (h : Lone p s) (hbase : Base schemas etcd s) {row : EventRow}
    {rest : List EventRow} (hrows : (s.phase p).rows = row :: rest) :
    ∀ r ∈ s.table, row.id ≤ r.id := by
  obtain ⟨new, htable⟩ := h.rows_prefix
  have hsorted := hbase.sorted.sublist h.suffix.sublist
  rw [hrows, List.cons_append] at htable
  rw [← htable, List.pairwise_cons] at hsorted
  rw [← htable]
  intro r hr
  rcases List.mem_cons.mp hr with rfl | hr
  · exact Nat.le_refl _
  · exact Nat.le_of_lt (hsorted.1 r hr)

/-- The row that is deleted is the first. -/
theorem Lone.filter_eq_tail (h : Lone p s) (hbase : Base schemas etcd s) {row : EventRow}
    {rest : List EventRow} (hrows : (s.phase p).rows = row :: rest) :
    (s.table.filter fun r ↦ decide (r.id ≠ row.id)) = s.table.tail ∧ rest <+: s.table.tail := by
  obtain ⟨new, htable⟩ := h.rows_prefix
  have hsorted := hbase.sorted.sublist h.suffix.sublist
  rw [hrows, List.cons_append] at htable
  rw [← htable, List.pairwise_cons] at hsorted
  rw [← htable, List.tail_cons]
  refine ⟨?_, List.prefix_append _ _⟩
  rw [List.filter_cons_of_neg (by simp), List.filter_eq_self]
  intro r hr
  have := hsorted.1 r hr
  exact decide_eq_true (by omega)

theorem lone_step {a : Act schemas} (ha : a.By p) (hbase : Base schemas etcd s) (h : Lone p s) :
    Lone p (step s a) := by
  rcases step_cases s a with heq | hmove
  · rwa [heq]
  · generalize step s a = t at hmove
    cases hmove with
    | @arrive row hnew =>
      obtain ⟨gone, hgone⟩ := h.suffix
      refine ⟨⟨gone, ?_⟩, h.rows_prefix.trans (List.prefix_append _ _), h.ordered, ?_⟩
      · rw [← List.append_assoc, hgone]
      · intro e he r hr
        rcases List.mem_append.mp hr with hr | hr
        · exact h.behind e he r hr
        · cases List.mem_singleton.mp hr
          obtain ⟨r', hr', -, -, -, -, o, -, rfl⟩ := hbase.journal_sub e he
          exact Nat.le_of_lt (hnew r' hr')
    | @list q hq =>
      cases ha
      exact h.to (List.prefix_refl _)
    | @begin q first second row rest ops hq hops =>
      cases ha
      have hprefix := h.rows_prefix
      rw [hq] at hprefix
      exact h.to hprefix
    | @perform q row o todo rest hq =>
      cases ha
      have hprefix := h.rows_prefix
      have hhead := h.id_le hbase (congrArg Phase.rows hq)
      rw [hq] at hprefix
      have hmem : row ∈ s.table := hprefix.subset List.mem_cons_self
      have hperformed : Lone p (s.record (o.entry row.id)) := by
        refine ⟨h.suffix, h.rows_prefix, List.pairwise_append.mpr
          ⟨h.ordered, List.pairwise_singleton _ _, fun e he e' he' ↦ ?_⟩, fun e he r hr ↦ ?_⟩
        · cases List.mem_singleton.mp he'
          exact h.behind e he row hmem
        · rcases List.mem_append.mp he with he | he
          · exact h.behind e he r hr
          · cases List.mem_singleton.mp he
            exact hhead r hr
      exact hperformed.to hprefix
    | @ignore q row o todo rest hq =>
      cases ha
      have hprefix := h.rows_prefix
      rw [hq] at hprefix
      exact h.to hprefix
    | @commit q row rest hq =>
      cases ha
      obtain ⟨htail, hprefix⟩ := h.filter_eq_tail hbase (congrArg Phase.rows hq)
      rw [htail]
      have hsuffix : s.table.tail <:+ s.arrived := (List.tail_suffix _).trans h.suffix
      refine ⟨hsuffix, ?_, h.ordered, fun e he r hr ↦ h.behind e he r (List.mem_of_mem_tail hr)⟩
      rwa [World.to_phase_self]
    | @retry q row todo rest hq =>
      cases ha
      have hprefix := h.rows_prefix
      rw [hq] at hprefix
      exact h.to hprefix
    | stop =>
      cases ha
      exact h.to List.nil_prefix

theorem lone_of_run (htable : table.Pairwise (·.id < ·.id)) (hacts : ∀ a ∈ acts, a.By p) :
    ∀ t ∈ Machine.states step (World.start table etcd) acts, Base schemas etcd t ∧ Lone p t := by
  have hstep : ∀ (s : World) (a : Act schemas), Base schemas etcd s ∧ Lone p s → a.By p →
      Base schemas etcd (step s a) ∧ Lone p (step s a) :=
    fun _ a h ha ↦ ⟨base_step a h.1, lone_step ha h.1 h.2⟩
  exact Machine.invariant_of_along hstep ⟨base_start htable, lone_start⟩
    (Machine.along_of_forall fun _ ↦ hacts)

/-! ## The laws of the writer -/

/-- What comes of one writer: its operations are in the order of the events, and none is missing. -/
structure WriterLaws (schemas : List Schema) (p : ℕ) (s : World) : Prop where
  /-- The operations took effect in the order of the events. -/
  ordered : s.journal.Pairwise (·.id ≤ ·.id)
  /-- The operations required by the event of a row that is gone have taken effect. -/
  applied : ∀ row ∈ s.arrived, row ∉ s.table → Attempt schemas s.journal row []
  /-- A row leaves the table in a commit, after the last operation of its event. -/
  committed : ∀ a : Act schemas, a.By p → ∀ row ∈ s.table, row ∉ (step s a).table →
    ∃ rest, a = .commit p ∧ s.phase p = .applying row [] rest
  /-- After a failure the row at hand is in the table, and every later one. -/
  kept : ∀ row rest, (s.phase p).rows = row :: rest → ∀ a : Act schemas,
    a = .retry p ∨ a = .stop p → ∀ r ∈ s.arrived, row.id ≤ r.id → r ∈ (step s a).table

/-- A row can only leave the table in a commit. -/
theorem exists_of_not_mem_step (hbase : Base schemas etcd s) {a : Act schemas} (ha : a.By p)
    {r : EventRow} (hr : r ∈ s.table) (hgone : r ∉ (step s a).table) :
    ∃ rest, a = .commit p ∧ s.phase p = .applying r [] rest := by
  rcases step_cases s a with heq | hmove
  · rw [heq] at hgone
    exact absurd hr hgone
  · generalize step s a = t at hmove hgone
    cases hmove with
    | arrive _ => exact absurd (List.mem_append_left _ hr) hgone
    | @commit q row rest hq =>
      cases ha
      have hid : r.id = row.id := by
        by_contra hne
        exact hgone (List.mem_filter.mpr ⟨hr, decide_eq_true hne⟩)
      have hrow : row ∈ s.arrived := hbase.rows_sub p row (by rw [hq]; exact List.mem_cons_self)
      cases hbase.eq_of_id_eq (hbase.table_sub r hr) hrow hid
      exact ⟨rest, rfl, hq⟩
    | _ => exact absurd hr hgone

/-- No row that is as recent as the one at hand has left the table. -/
theorem Lone.mem_table (h : Lone p s) (hbase : Base schemas etcd s) {row r : EventRow}
    {rest : List EventRow} (hrows : (s.phase p).rows = row :: rest) (hr : r ∈ s.arrived)
    (hid : row.id ≤ r.id) : r ∈ s.table := by
  obtain ⟨gone, hgone⟩ := h.suffix
  have hrow : row ∈ s.table := h.rows_prefix.subset (by rw [hrows]; exact List.mem_cons_self)
  have hsorted := hbase.sorted
  rw [← hgone] at hr hsorted
  rcases List.mem_append.mp hr with hr | hr
  · have := (List.pairwise_append.mp hsorted).2.2 r hr row hrow
    omega
  · exact hr

theorem writerLaws (hbase : Base schemas etcd s) (h : Lone p s) : WriterLaws schemas p s where
  ordered := h.ordered
  applied row hrow hgone := (hbase.removed row hrow).resolve_left hgone
  committed _ ha _ hr hgone := exists_of_not_mem_step hbase ha hr hgone
  kept row rest hrows a ha r hr hid := by
    have hmem := h.mem_table hbase hrows hr hid
    by_contra hgone
    have hby : a.By p := by rcases ha with rfl | rfl <;> rfl
    obtain ⟨rest, rfl, -⟩ := exists_of_not_mem_step hbase hby hmem hgone
    rcases ha with ha | ha <;> cases ha

/-! ## What is left when the table is empty -/

theorem pairwise_filterMap_write? {rows : List EventRow} (h : rows.Pairwise (·.id < ·.id)) :
    (rows.filterMap (EventRow.write? schemas)).Pairwise (·.id < ·.id) := by
  refine List.Pairwise.filterMap _ (fun r r' hlt w hw w' hw' ↦ ?_) h
  rw [EventRow.id_eq_of_write? hw, EventRow.id_eq_of_write? hw']
  exact hlt

/-- **Every key of an event holds what the events say, one after the other.** -/
theorem etcd_of_drained (hbase : Base schemas etcd s) (h : Lone p s)
    (hevents : ∀ row ∈ s.arrived, row.Unambiguous schemas) (htable : s.table = []) {k : String}
    (hk : ConfigKey k) :
    s.etcd k = Journal.replay etcd (s.arrived.filterMap (EventRow.write? schemas)) k := by
  rw [hbase.etcd_eq]
  refine Journal.replay_eq_replay (pairwise_filterMap_write? hbase.sorted) ?_ ?_
  · rintro e he rfl
    obtain ⟨row, hrow, hwrite⟩ := hbase.exists_write_of_mem_journal hevents he hk
    exact List.mem_filterMap.mpr ⟨row, hrow, hwrite⟩
  · rintro w hw rfl
    obtain ⟨row, hrow, hwrite⟩ := List.mem_filterMap.mp hw
    have happlied := (hbase.removed row hrow).resolve_left (by simp [htable])
    have hmem : w ∈ s.journal := happlied.write_mem (hevents row hrow) hwrite
    cases hlast : Journal.last? w.key s.journal with
    | none => exact absurd rfl (Journal.last?_eq_none_iff.mp hlast w hmem)
    | some d => exact ⟨d, rfl, Journal.id_le_of_last? h.ordered hlast w hmem rfl⟩

/-- **A single writer**, through all errors and crashes, applies the events in order, gives up no
row before it is applied, and leaves etcd as any other run over the same events does, provided that
the events are unambiguous. -/
theorem writer_sound (htable : table.Pairwise (·.id < ·.id)) (hacts : ∀ a ∈ acts, a.By p)
    (hacts' : ∀ a ∈ acts', a.By p) :
    (∀ t ∈ Machine.states step (World.start table etcd) acts, WriterLaws schemas p t) ∧
      ∀ t t', t = Machine.final step (World.start table etcd) acts →
        t' = Machine.final step (World.start table etcd) acts' →
        (∀ row ∈ t.arrived, row.Unambiguous schemas) → t'.arrived = t.arrived →
        t.table = [] → t'.table = [] → ∀ k, ConfigKey k → t.etcd k = t'.etcd k := by
  refine ⟨fun t ht ↦ ?_, ?_⟩
  · obtain ⟨hbase, hlone⟩ := lone_of_run htable hacts t ht
    exact writerLaws hbase hlone
  · rintro t t' rfl rfl hevents harrived hempty hempty' k hk
    obtain ⟨hbase, hlone⟩ := lone_of_run htable hacts _ (Machine.final_mem_states _ _)
    obtain ⟨hbase', hlone'⟩ := lone_of_run htable hacts' _ (Machine.final_mem_states _ _)
    rw [etcd_of_drained hbase hlone hevents hempty hk,
      etcd_of_drained hbase' hlone' (harrived ▸ hevents) hempty' hk, harrived]

/-! ## Two schemas for one path -/

/-- A schema with one resource. -/
def adminSchema : Schema where
  id := "admin"
  singular := "admin"
  plural := "admin"
  url := "/v1.0/admin"
  properties := [{ id := "id" }]

/-- Its URL begins with that of the other schema. -/
def userSchema : Schema where
  id := "user"
  singular := "user"
  plural := "users"
  url := "/v1.0/admin/users"
  metadata := GoMap.ofList [("sync_key_template", .str "/users/{{name}}")]
  properties := [{ id := "id" }, { id := "name" }]

/-- The creation of a user. -/
def userRow : EventRow where
  id := 1
  type := .create
  path := "/v1.0/admin/users/u1"
  version := 1
  body := .map [("id", .str "u1"), ("name", .str "bob")]
  syncPlain := false
  syncProperty := ""

/-- A run of `Sync` over one row. -/
def smoothly {schemas : List Schema} (order : Order schemas) : List (Act schemas) :=
  [.list 0, .begin 0 order order, .perform 0, .commit 0, .stop 0]

/-- The same, where the transaction fails first. -/
def atSecondAttempt {schemas : List Schema} (order order' : Order schemas) : List (Act schemas) :=
  [.list 0, .begin 0 order order, .perform 0, .retry 0, .begin 0 order' order', .perform 0,
    .commit 0, .stop 0]

omit [TextEngine] in
/-- With the schema of the user alone, the second attempt does what the first did. -/
theorem writer_sound_user :
    letI := placeholders
    let order : Order [userSchema] := ⟨_, .refl _⟩
    let once := Machine.final step (World.start [userRow] fun _ ↦ none) (smoothly order)
    let twice := Machine.final step (World.start [userRow] fun _ ↦ none)
      (atSecondAttempt order order)
    once.table = [] ∧ twice.table = [] ∧ ∀ k, ConfigKey k → twice.etcd k = once.etcd k := by
  intro order once twice
  let _ := placeholders
  refine ⟨rfl, rfl, fun k hk ↦ ?_⟩
  have htwice : ∀ a ∈ atSecondAttempt order order, a.By 0 := by simp [atSecondAttempt, Act.By]
  have honce : ∀ a ∈ smoothly order, a.By 0 := by simp [smoothly, Act.By]
  refine (writer_sound (List.pairwise_singleton _ userRow) htwice honce).2 _ _ rfl rfl ?_ ?_ ?_ ?_
    k hk
  · rintro row - c hc c' hc' - - key key' hkey hkey'
    cases List.mem_singleton.mp hc
    cases List.mem_singleton.mp hc'
    rw [hkey] at hkey'
    cases hkey'
    rfl
  · rfl
  · rfl
  · rfl

omit [TextEngine] in
/-- With both schemas, the second attempt may find the other one, and then the user is stored under
two keys. -/
theorem writer_not_sound :
    letI := placeholders
    let order : Order [userSchema, adminSchema] := ⟨_, .refl _⟩
    let order' : Order [userSchema, adminSchema] := ⟨[adminSchema, userSchema], .swap ..⟩
    let once := Machine.final step (World.start [userRow] fun _ ↦ none) (smoothly order')
    let twice := Machine.final step (World.start [userRow] fun _ ↦ none)
      (atSecondAttempt order order')
    once.table = [] ∧ twice.table = [] ∧ once.arrived = twice.arrived ∧
      ConfigKey "/config/users/bob" ∧ once.etcd "/config/users/bob" = none ∧
      twice.etcd "/config/users/bob" = some (.object userRow.body 1) ∧
      twice.etcd "/config/v1.0/admin/users/u1" = some (.object userRow.body 1) := by
  refine ⟨rfl, rfl, rfl, by decide, rfl, rfl, rfl⟩

end Gohan.Sync
