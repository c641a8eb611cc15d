import Gohan.Sync.Writer

/-!
# Several writers at once

The lock is to keep all but one process out of `Sync`, and does not always: a process that has lost
it finishes the run it is in, and `Resync` drains the table without taking it.  Then two processes
have listed the same rows, and each will apply all of them, whatever the other has done meanwhile.

A process that applies an event for the second time does no harm as long as somebody will still
apply the later events for the same key.  `Covered` says that somebody will: the row is in the
table, and no process is about to delete it, or it is in the hands of a process.  `Kept` is the
invariant: of every event, it will still be applied, or the last operation on its key is not
older.  An operation breaks it exactly when a later event for the key is not covered, and a process
that leaves breaks it when it alone had the row in its hands.  `Orderly` excludes both, and
`holdsNewest_of_run` says that this is enough.

`not_holdsNewest` is the run in which neither is excluded: two processes list the first event, one
of them applies it and the next, and then the other applies the first.
-/

set_option autoImplicit false

namespace Gohan.Sync

variable [TextEngine] {schemas : List Schema}

/-! ## Who will still apply an event -/

/-- The process will perform the operation that the event requires. -/
def Phase.WillApply : Phase → EventRow → Prop
  | .idle, _ => False
  | .ready rest, r => r ∈ rest
  | .applying row todo rest, r => r ∈ rest ∨ r = row ∧ ∃ o ∈ todo, o.required = true

/-- The process has performed it, and will delete the row. -/
def Phase.Finishing : Phase → EventRow → Prop
  | .applying row todo _, r => r = row ∧ ∀ o ∈ todo, o.required = false
  | _, _ => False

/-- The row is in the table, and no process is about to delete it. -/
def Safe (s : World) (r : EventRow) : Prop := r ∈ s.table ∧ ∀ p, ¬ (s.phase p).Finishing r

/-- The event will still be applied. -/
def Covered (s : World) (r : EventRow) : Prop := Safe s r ∨ ∃ p, (s.phase p).WillApply r

/-- The last operation on the key of a write is of no earlier event. -/
def Reached (s : World) (w : Journal.Entry String Content) : Prop :=
  ∃ d, Journal.last? w.key s.journal = some d ∧ w.id ≤ d.id

/-- Every event will still be applied, or its write has not been undone by an earlier one. -/
def Kept (schemas : List Schema) (s : World) : Prop :=
  ∀ r ∈ s.arrived, ∀ w, r.write? schemas = some w → ConfigKey w.key → Covered s r ∨ Reached s w

/-- All schemas agree on the key of the event, and what it is to hold is no empty string. -/
structure Regular (schemas : List Schema) (r : EventRow) : Prop where
  unambiguous : r.Unambiguous schemas
  nonempty : ∀ value, r.value = .ok value → value.any Content.isEmpty = false

/-- The steps that do no harm. -/
def Orderly (schemas : List Schema) (s : World) : Act schemas → Prop
  | .arrive row => Regular schemas row
  | .perform p => ∀ row o todo rest, s.phase p = .applying row (o :: todo) rest →
      o.required = true → ∀ r ∈ s.arrived, row.id < r.id → ∀ w, r.write? schemas = some w →
        w.key = o.key → Covered s r
  | .stop p => ∀ r, (s.phase p).WillApply r → Safe s r ∨ (∃ q, q ≠ p ∧ (s.phase q).WillApply r) ∨
      ∀ w, r.write? schemas = some w → Reached s w
  | _ => True

variable {s : World} {p : ℕ} {ph : Phase} {r : EventRow} {etcd : String → Option Content}

section Steps

omit [TextEngine]

theorem Safe.to (h : Safe s r) (hfinishing : ph.Finishing r → (s.phase p).Finishing r) :
    Safe (s.to p ph) r := by
  refine ⟨h.1, fun q ↦ ?_⟩
  rw [World.to_phase]
  split
  · exact fun hq ↦ h.2 p (hfinishing hq)
  · exact h.2 q

theorem covered_of_other {q : ℕ} (hne : q ≠ p) (hq : (s.phase q).WillApply r) :
    Covered (s.to p ph) r := .inr ⟨q, by rwa [World.to_phase_of_ne s p ph hne]⟩

/-- A process goes on, with the event in its hands if it was there before. -/
theorem Covered.to (h : Covered s r) (hfinishing : ph.Finishing r → (s.phase p).Finishing r)
    (hwill : (s.phase p).WillApply r → ph.WillApply r) : Covered (s.to p ph) r := by
  rcases h with hsafe | ⟨q, hq⟩
  · exact .inl (hsafe.to hfinishing)
  · by_cases hqp : q = p
    · subst hqp
      exact .inr ⟨q, by rw [World.to_phase_self]; exact hwill hq⟩
    · exact covered_of_other hqp hq

/-- An operation is done with, and it was not the one that the event `r` requires. -/
theorem Covered.advance {row : EventRow} {o : EtcdOp} {todo : List EtcdOp} {rest : List EventRow}
    (h : Covered s r) (hp : s.phase p = .applying row (o :: todo) rest)
    (hrequired : r = row → o.required = false) :
    Covered (s.to p (.applying row todo rest)) r := by
  refine h.to (fun h ↦ ?_) fun h ↦ ?_
  · rw [hp]
    refine ⟨h.1, fun o' ho' ↦ ?_⟩
    rcases List.mem_cons.mp ho' with rfl | ho'
    · exact hrequired h.1
    · exact h.2 o' ho'
  · rw [hp] at h
    rcases h with hrest | ⟨heq, o', ho', hr⟩
    · exact .inl hrest
    · rcases List.mem_cons.mp ho' with rfl | ho'
      · rw [hrequired heq] at hr
        cases hr
      · exact .inr ⟨heq, o', ho', hr⟩

/-- A process begins with a row: if it is the row of `r`, the operation is among those to come. -/
theorem Covered.begin {row : EventRow} {ops : List EtcdOp} {rest : List EventRow}
    (h : Covered s r) (hp : s.phase p = .ready (row :: rest))
    (hrequired : r = row → ∃ o ∈ ops, o.required = true) :
    Covered (s.to p (.applying row ops rest)) r := by
  refine h.to (fun h ↦ ?_) fun h ↦ ?_
  · obtain ⟨o, ho, hr⟩ := hrequired h.1
    rw [h.2 o ho] at hr
    cases hr
  · rw [hp] at h
    rcases List.mem_cons.mp h with heq | hrest
    · exact .inr ⟨heq, hrequired heq⟩
    · exact .inl hrest

theorem Covered.retry {row : EventRow} {todo : List EtcdOp} {rest : List EventRow}
    (h : Covered s r) (hp : s.phase p = .applying row todo rest) :
    Covered (s.to p (.ready (row :: rest))) r := by
  refine h.to nofun fun h ↦ ?_
  rw [hp] at h
  rcases h with hrest | ⟨rfl, -⟩
  · exact List.mem_cons_of_mem _ hrest
  · exact List.mem_cons_self

/-- A row is deleted after its last operation.  It was not safe before. -/
theorem Covered.commit {row : EventRow} {rest : List EventRow} (h : Covered s r)
    (hp : s.phase p = .applying row [] rest) (heq : r.id = row.id → r = row) :
    Covered (({ s with table := s.table.filter fun r ↦ decide (r.id ≠ row.id) } : World).to p
      (.ready rest)) r := by
  have hafter : Covered { s with table := s.table.filter fun r ↦ decide (r.id ≠ row.id) } r := by
    refine h.imp_left fun hsafe ↦ ⟨List.mem_filter.mpr ⟨hsafe.1, decide_eq_true ?_⟩, hsafe.2⟩
    intro hid
    have hfinishing := hsafe.2 p
    rw [hp] at hfinishing
    exact hfinishing ⟨heq hid, by simp⟩
  refine hafter.to nofun fun h ↦ ?_
  have hwill : (s.phase p).WillApply r := h
  rw [hp] at hwill
  exact hwill.resolve_right fun ⟨_, o, ho, _⟩ ↦ List.not_mem_nil ho

theorem Phase.Finishing.mem_rows (h : ph.Finishing r) : r ∈ ph.rows := by
  cases ph with
  | applying row todo rest =>
    rw [h.1]
    exact List.mem_cons_self
  | _ => cases h

/-- An operation on the key of the write `w`. -/
theorem kept_perform_same {row : EventRow} {o : EtcdOp} {todo : List EtcdOp}
    {rest : List EventRow} (hp : s.phase p = .applying row (o :: todo) rest)
    (hcovered : row.id < r.id → Covered s r) {w : Journal.Entry String Content} (hw : w.id = r.id)
    (hkey : o.key = w.key) :
    Covered ((s.record (o.entry row.id)).to p (.applying row todo rest)) r ∨
      Reached ((s.record (o.entry row.id)).to p (.applying row todo rest)) w := by
  by_cases hlt : row.id < r.id
  · left
    have hafter : Covered (s.record (o.entry row.id)) r := hcovered hlt
    refine hafter.advance hp fun heq ↦ ?_
    subst heq
    omega
  · right
    refine ⟨o.entry row.id, ?_, ?_⟩
    · have hlast : Journal.last? w.key (s.journal ++ [o.entry row.id]) = _ :=
        Journal.last?_append_singleton
      exact hlast.trans (if_pos hkey)
    · rw [hw]
      exact Nat.not_lt.mp hlt

/-- An operation that is not on the key of the write `w`. -/
theorem kept_perform_other {row : EventRow} {o : EtcdOp} {todo : List EtcdOp}
    {rest : List EventRow} (hp : s.phase p = .applying row (o :: todo) rest)
    {w : Journal.Entry String Content} (hkey : o.key ≠ w.key)
    (hrequired : r = row → o.required = false) (h : Covered s r ∨ Reached s w) :
    Covered ((s.record (o.entry row.id)).to p (.applying row todo rest)) r ∨
      Reached ((s.record (o.entry row.id)).to p (.applying row todo rest)) w := by
  rcases h with h | ⟨d, hd, hle⟩
  · left
    have hafter : Covered (s.record (o.entry row.id)) r := h
    exact hafter.advance hp hrequired
  · right
    have hlast : Journal.last? w.key (s.journal ++ [o.entry row.id]) = _ :=
      Journal.last?_append_singleton
    exact ⟨d, (hlast.trans (if_neg hkey)).trans hd, hle⟩

end Steps

/-- What makes an operation that is still to be performed the write of its event. -/
theorem write?_of_attempt {journal : List (Journal.Entry String Content)} {row : EventRow}
    {o : EtcdOp}
    {todo : List EtcdOp} (h : Attempt schemas journal row (o :: todo))
    (hrow : row.Unambiguous schemas) (ho : o.required = true) :
    row.write? schemas = some (o.entry row.id) := by
  obtain ⟨first, second, ops, hops, htodo, -⟩ := h
  exact (exists_required_iff hrow first.2 hops).mp ⟨o, htodo List.mem_cons_self, ho, rfl⟩

/-- An operation that is not required is on no key of an event. -/
theorem not_configKey_of_attempt {journal : List (Journal.Entry String Content)} {row : EventRow}
    {o : EtcdOp} {todo : List EtcdOp} (h : Attempt schemas journal row (o :: todo))
    (ho : o.required = false) : ¬ ConfigKey o.key := by
  obtain ⟨first, second, ops, hops, htodo, -⟩ := h
  exact not_configKey_of_eventOps hops (htodo List.mem_cons_self) ho

/-- **An orderly step loses no event.** -/
theorem kept_step {a : Act schemas} (hbase : Base schemas etcd s)
    (hregular : ∀ row ∈ s.arrived, Regular schemas row) (h : Kept schemas s)
    (hok : Orderly schemas s a) : Kept schemas (step s a) := by
  rcases step_cases s a with heq | hmove
  · rwa [heq]
  · generalize step s a = t at hmove
    intro r hr w hw hk
    cases hmove with
    | @arrive row hnew =>
      rcases List.mem_append.mp hr with hr | hr
      · refine (h r hr w hw hk).imp_left fun h ↦ h.imp_left fun hsafe ↦ ?_
        exact ⟨List.mem_append_left _ hsafe.1, hsafe.2⟩
      · cases List.mem_singleton.mp hr
        refine .inl (.inl ⟨by simp, fun q hq ↦ ?_⟩)
        have hold : r ∈ s.arrived := hbase.rows_sub q r hq.mem_rows
        exact absurd (hnew r hold) (Nat.lt_irrefl _)
    | list hp => exact (h r hr w hw hk).imp_left fun h ↦ h.to nofun (by rw [hp]; nofun)
    | @begin p first second row rest ops hp hops =>
      refine (h r hr w hw hk).imp_left fun h ↦ h.begin hp fun heq ↦ ?_
      subst heq
      obtain ⟨o, ho, hrequired, -⟩ :=
        (exists_required_iff (hregular r hr).unambiguous first.2 hops).mpr hw
      exact ⟨o, ho, hrequired⟩
    | @perform p row o todo rest hp =>
      have hattempt := hbase.attempt p row _ rest hp
      have hrow : row ∈ s.arrived := hbase.rows_sub p row (by rw [hp]; exact List.mem_cons_self)
      by_cases hkey : o.key = w.key
      · -- only the operation that counts is on the key of an event
        have hrequired : o.required = true := by
          by_contra hnot
          exact not_configKey_of_attempt hattempt (by simpa using hnot) (hkey ▸ hk)
        exact kept_perform_same hp
          (fun hlt ↦ hok row o todo rest hp hrequired r hr hlt w hw hkey.symm)
          (EventRow.id_eq_of_write? hw) hkey
      · refine kept_perform_other hp hkey (fun heq ↦ ?_) (h r hr w hw hk)
        by_contra hrequired
        have hwrite := write?_of_attempt hattempt (hregular row hrow).unambiguous
          (by simpa using hrequired)
        subst heq
        rw [hw] at hwrite
        cases hwrite
        exact hkey rfl
    | @ignore p row o todo rest hp ho =>
      exact (h r hr w hw hk).imp_left fun h ↦ h.advance hp fun _ ↦ ho
    | @commit p row rest hp =>
      have hrow : row ∈ s.arrived := hbase.rows_sub p row (by rw [hp]; exact List.mem_cons_self)
      exact (h r hr w hw hk).imp_left fun h ↦ h.commit hp fun hid ↦ hbase.eq_of_id_eq hr hrow hid
    | @retry p row todo rest hp => exact (h r hr w hw hk).imp_left fun h ↦ h.retry hp
    | @stop p =>
      rcases h r hr w hw hk with (hsafe | ⟨q, hq⟩) | hreached
      · exact .inl (.inl (hsafe.to nofun))
      · by_cases hqp : q = p
        · subst hqp
          rcases hok r hq with hsafe | ⟨q', hne, hq'⟩ | hreached
          · exact .inl (.inl (hsafe.to nofun))
          · exact .inl (covered_of_other hne hq')
          · exact .inr (hreached w hw)
        · exact .inl (covered_of_other hqp hq)
      · exact .inr hreached

/-! ## When all have stopped -/

variable {table : List EventRow} {acts : List (Act schemas)}

theorem kept_start : Kept schemas (World.start table etcd) := fun _ hr _ _ _ ↦
  .inl (.inl ⟨hr, fun _ ↦ nofun⟩)

theorem regular_step {a : Act schemas} (h : ∀ row ∈ s.arrived, Regular schemas row)
    (hok : Orderly schemas s a) : ∀ row ∈ (step s a).arrived, Regular schemas row := by
  rcases step_cases s a with heq | hmove
  · rwa [heq]
  · generalize step s a = t at hmove
    cases hmove with
    | @arrive row hnew =>
      intro r hr
      rcases List.mem_append.mp hr with hr | hr
      · exact h r hr
      · cases List.mem_singleton.mp hr
        exact hok
    | _ => exact h

/-- Every key holds what the latest event for it asks for. -/
def HoldsNewest (schemas : List Schema) (s : World) : Prop :=
  ∀ row ∈ s.arrived, ∀ key, row.key? schemas = some key → ConfigKey key →
    (∀ r ∈ s.arrived, r.key? schemas = some key → r.id ≤ row.id) →
      ∃ value, row.value = .ok value ∧ s.etcd key = value

/-- Nobody has anything left to do. -/
def Quiet (s : World) : Prop := s.table = [] ∧ ∀ p, s.phase p = .idle

theorem holdsNewest_of_kept (hbase : Base schemas etcd s)
    (hregular : ∀ row ∈ s.arrived, Regular schemas row) (h : Kept schemas s) (hquiet : Quiet s) :
    HoldsNewest schemas s := by
  intro row hrow key hkey hk hnewest
  have happlied := (hbase.removed row hrow).resolve_left (by simp [hquiet.1])
  obtain ⟨first, second, ops, hops, -⟩ := happlied
  obtain ⟨value, hvalue⟩ := exists_value_of_eventOps hops
  have hwrite : row.write? schemas = some ⟨row.id, key, value⟩ := by
    rw [EventRow.write?, hkey, hvalue]
    simp [(hregular row hrow).nonempty value hvalue]
  rcases h row hrow _ hwrite hk with (hsafe | ⟨p, hp⟩) | ⟨d, hd, hle⟩
  · have hmem := hsafe.1
    rw [hquiet.1] at hmem
    cases hmem
  · rw [hquiet.2 p] at hp
    cases hp
  · -- the last operation on the key is of an event that is not older, hence of this one
    obtain ⟨hmem, hdkey⟩ := Journal.of_last?_eq_some hd
    obtain ⟨r, hr, hrwrite⟩ := hbase.exists_write_of_mem_journal
      (fun row hrow ↦ (hregular row hrow).unambiguous) hmem (hdkey ▸ hk)
    have hid := EventRow.id_eq_of_write? hrwrite
    have hrkey := EventRow.key?_eq_of_write? hrwrite
    rw [hdkey] at hrkey
    have hge : r.id ≤ row.id := hnewest r hr hrkey
    have heq : r = row := hbase.eq_of_id_eq hr hrow (Nat.le_antisymm hge (hid ▸ hle))
    subst heq
    rw [hwrite] at hrwrite
    cases hrwrite
    refine ⟨value, hvalue, ?_⟩
    rw [hbase.etcd_eq, Journal.replay_eq, hd]
    rfl

/-- **Any number of writers.**  If every step of a run is orderly, then whenever the table is empty
and all processes have stopped, every key holds what the latest event for it asks for. -/
theorem holdsNewest_of_run (htable : table.Pairwise (·.id < ·.id))
    (hregular : ∀ row ∈ table, Regular schemas row)
    (hacts : Machine.Along step (Orderly schemas) (World.start table etcd) acts) :
    ∀ t ∈ Machine.states step (World.start table etcd) acts, Quiet t → HoldsNewest schemas t := by
  have hstep : ∀ (s : World) (a : Act schemas), Base schemas etcd s ∧
      (∀ row ∈ s.arrived, Regular schemas row) ∧ Kept schemas s → Orderly schemas s a →
        Base schemas etcd (step s a) ∧ (∀ row ∈ (step s a).arrived, Regular schemas row) ∧
          Kept schemas (step s a) :=
    fun s a h hok ↦ ⟨base_step a h.1, regular_step h.2.1 hok, kept_step h.1 h.2.1 h.2.2 hok⟩
  have hinv := Machine.invariant_of_along hstep ⟨base_start htable, hregular, kept_start⟩ hacts
  intro t ht hquiet
  obtain ⟨hbase, hregular, hkept⟩ := hinv t ht
  exact holdsNewest_of_kept hbase hregular hkept hquiet

/-! ## Two writers and one key -/

/-- Ports, with names. -/
def portSchema : Schema where
  id := "port"
  singular := "port"
  plural := "ports"
  url := "/v1.0/ports"
  properties := [{ id := "id" }, { id := "name" }]

/-- An event of one and the same port. -/
def portRow (id : ℕ) (type : EventType) (name : String) : EventRow where
  id
  type
  path := "/v1.0/ports/p1"
  version := 0
  body := .map [("id", .str "p1"), ("name", .str name)]
  syncPlain := false
  syncProperty := ""

/-- The one order there is. -/
def portOrder : Order [portSchema] := ⟨_, .refl _⟩

/-- The process applies the next of its rows. -/
def applyNext (p : ℕ) : List (Act [portSchema]) :=
  [.begin p portOrder portOrder, .perform p, .commit p]

/-- Both have listed the first event; the other one comes later. -/
def overtaken : List (Act [portSchema]) :=
  [.list 0, .list 1] ++ applyNext 0 ++ [.stop 0, .arrive (portRow 2 .update "new"), .list 0] ++
    applyNext 0 ++ applyNext 1 ++ [.stop 0, .stop 1]

/-- Both have listed the first event, and the process that is late applies the other one as well. -/
def caughtUp : List (Act [portSchema]) :=
  [.list 0, .list 1] ++ applyNext 0 ++ [.stop 0, .arrive (portRow 2 .update "new")] ++
    applyNext 1 ++ [.stop 1, .list 0] ++ applyNext 0 ++ [.stop 0]

omit [TextEngine] in
theorem regular_portRow {id : ℕ} {type : EventType} {name : String} :
    letI := placeholders
    Regular [portSchema] (portRow id type name) := by
  let _ := placeholders
  refine ⟨?_, fun value hvalue ↦ ?_⟩
  · rintro c hc c' hc' - - key key' hkey hkey'
    cases List.mem_singleton.mp hc
    cases List.mem_singleton.mp hc'
    rw [hkey] at hkey'
    cases hkey'
    rfl
  · cases type <;> cases hvalue <;> rfl

omit [TextEngine] in
/-- The late process applies the first event once more while the other event is in the table. -/
theorem holdsNewest_caughtUp :
    letI := placeholders
    HoldsNewest [portSchema]
      (Machine.final step (World.start [portRow 1 .create "old"] fun _ ↦ none) caughtUp) := by
  let _ := placeholders
  refine holdsNewest_of_run (List.pairwise_singleton _ _) ?_ ?_ _ (Machine.final_mem_states _ _)
    ⟨rfl, fun p ↦ by rcases p with _ | _ | p <;> rfl⟩
  · intro row hrow
    cases List.mem_singleton.mp hrow
    exact regular_portRow
  · refine ⟨trivial, trivial, trivial, ?_, trivial, ?_, regular_portRow, trivial, ?_, trivial, ?_,
      trivial, trivial, ?_, trivial, ?_, trivial⟩
    · rintro row o todo rest hp - r hr hlt
      cases hp
      cases List.mem_singleton.mp hr
      exact absurd hlt (Nat.lt_irrefl _)
    · exact fun r hr ↦ absurd hr List.not_mem_nil
    · rintro row o todo rest hp - r hr hlt w hw hkey
      cases hp
      have hmem : r ∈ [portRow 1 .create "old", portRow 2 .update "new"] := hr
      simp only [List.mem_cons, List.not_mem_nil, or_false] at hmem
      rcases hmem with rfl | rfl
      · exact absurd hlt (Nat.lt_irrefl _)
      · refine .inl ⟨List.mem_cons_self, fun p ↦ ?_⟩
        rcases p with _ | _ | p
        · nofun
        · exact fun h ↦ absurd (congrArg EventRow.id h.1) (by decide)
        · nofun
    · exact fun r hr ↦ absurd hr List.not_mem_nil
    · rintro row o todo rest hp - r hr hlt
      cases hp
      have hmem : r ∈ [portRow 1 .create "old", portRow 2 .update "new"] := hr
      simp only [List.mem_cons, List.not_mem_nil, or_false] at hmem
      rcases hmem with rfl | rfl
      · exact absurd hlt (by decide)
      · exact absurd hlt (Nat.lt_irrefl _)
    · exact fun r hr ↦ absurd hr List.not_mem_nil

omit [TextEngine] in
/-- The first event is applied last, and the key holds what it says. -/
theorem not_holdsNewest :
    letI := placeholders
    let t := Machine.final step (World.start [portRow 1 .create "old"] fun _ ↦ none) overtaken
    Quiet t ∧ ¬ HoldsNewest [portSchema] t := by
  intro t
  let _ := placeholders
  refine ⟨⟨rfl, fun p ↦ ?_⟩, fun h ↦ ?_⟩
  · rcases p with _ | _ | p <;> rfl
  · obtain ⟨value, hvalue, hholds⟩ := h (portRow 2 .update "new") (by decide)
      "/config/v1.0/ports/p1" rfl (by decide) (by decide)
    cases hvalue
    revert hholds
    decide

end Gohan.Sync
