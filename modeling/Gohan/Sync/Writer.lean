import Gohan.Sync.Event
import Gohan.Logic.Journal
import Gohan.Logic.Machine

/-!
# Sync writers at work

Any number of processes may be inside `Sync`, each with the rows it listed when it began.  A process
takes its rows one after the other.  For each it computes the operations, performs them on etcd one
by one, and deletes the row in a transaction of the database.  Between any two of these steps other
processes take theirs, and new events arrive.

`step` is one step of one process, or one arrival.  An operation on etcd is no part of the
transaction: when the transaction fails, what has been done to etcd stays done.  After a failure the
process makes another attempt, as `db.WithinTx` does when the error is temporary, or it leaves
`Sync`, with the error or because it died.

The table holds the rows in the order of their numbers, and a new row has a greater number than all
before it.

`Base` is what holds in every run, whatever the processes do (`base_of_run`): where the rows in
their hands come from, that etcd is the replay of the operations that took effect, and that no row
leaves the table before the operations its event requires are done.
-/

set_option autoImplicit false

namespace Gohan.Sync

variable {schemas : List Schema}

/-! ## The machine -/

/-- Where a process is in `Sync`. -/
inductive Phase where
  /-- not inside -/
  | idle
  /-- between two rows, with those it has still to take -/
  | ready (rest : List EventRow)
  /-- in the transaction of a row, with the operations it has still to perform -/
  | applying (row : EventRow) (todo : List EtcdOp) (rest : List EventRow)

/-- The rows in the hands of a process. -/
def Phase.rows : Phase → List EventRow
  | .idle => []
  | .ready rest => rest
  | .applying row _ rest => row :: rest

/-- The event table, etcd and the processes.  The last two fields are for the record: all rows there
have been, and all operations that took effect, in their order. -/
structure World where
  table : List EventRow
  etcd : String → Option Content
  phase : ℕ → Phase
  arrived : List EventRow
  journal : List (Journal.Entry String Content)

/-- No process has begun, and these are the events and the keys. -/
def World.start (table : List EventRow) (etcd : String → Option Content) : World where
  table
  etcd
  phase _ := .idle
  arrived := table
  journal := []

/-- A process comes to another phase. -/
def World.to (s : World) (p : ℕ) (phase : Phase) : World :=
  { s with phase := Function.update s.phase p phase }

/-- An operation takes effect. -/
def World.record (s : World) (e : Journal.Entry String Content) : World :=
  { s with etcd := Journal.apply s.etcd e, journal := s.journal ++ [e] }

namespace World

variable (s : World) (p : ℕ) (ph : Phase)

@[simp] theorem to_table : (s.to p ph).table = s.table := rfl

@[simp] theorem to_etcd : (s.to p ph).etcd = s.etcd := rfl

@[simp] theorem to_arrived : (s.to p ph).arrived = s.arrived := rfl

@[simp] theorem to_journal : (s.to p ph).journal = s.journal := rfl

@[simp] theorem to_phase_self : (s.to p ph).phase p = ph := Function.update_self ..

theorem to_phase_of_ne {q : ℕ} (h : q ≠ p) : (s.to p ph).phase q = s.phase q :=
  Function.update_of_ne h ..

theorem to_phase (q : ℕ) : (s.to p ph).phase q = if q = p then ph else s.phase q := by
  by_cases h : q = p
  · subst h
    simp
  · rw [to_phase_of_ne s p ph h, if_neg h]

end World

/-- What can happen at any point of a run. -/
inductive Act (schemas : List Schema) where
  /-- A transaction with an event commits. -/
  | arrive (row : EventRow)
  /-- `listEvents` -/
  | list (p : ℕ)
  /-- `syncEvent` begins with the next row. -/
  | begin (p : ℕ) (first second : Order schemas)
  /-- The next operation takes effect. -/
  | perform (p : ℕ)
  /-- The next operation fails, and the error is ignored. -/
  | ignore (p : ℕ)
  /-- The row is deleted and the transaction commits. -/
  | commit (p : ℕ)
  /-- The transaction fails and is attempted again. -/
  | retry (p : ℕ)
  /-- `Sync` returns, or the process dies. -/
  | stop (p : ℕ)

variable [TextEngine]

/-- One step.  A row for which the operations cannot be computed is never begun, and all that is
left to the process is to stop. -/
def step (s : World) : Act schemas → World
  | .arrive row =>
    if ∀ r ∈ s.arrived, r.id < row.id then
      { s with table := s.table ++ [row], arrived := s.arrived ++ [row] }
    else s
  | .list p =>
    match s.phase p with
    | .idle => s.to p (.ready s.table)
    | _ => s
  | .begin p first second =>
    match s.phase p with
    | .ready (row :: rest) =>
      match eventOps first second row with
      | .ok ops => s.to p (.applying row ops rest)
      | .error _ => s
    | _ => s
  | .perform p =>
    match s.phase p with
    | .applying row (o :: todo) rest =>
      (s.record (o.entry row.id)).to p (.applying row todo rest)
    | _ => s
  | .ignore p =>
    match s.phase p with
    | .applying row (o :: todo) rest => if o.required then s else s.to p (.applying row todo rest)
    | _ => s
  | .commit p =>
    match s.phase p with
    | .applying row [] rest =>
      { s with table := s.table.filter fun r ↦ decide (r.id ≠ row.id) }.to p (.ready rest)
    | _ => s
  | .retry p =>
    match s.phase p with
    | .applying row _ rest => s.to p (.ready (row :: rest))
    | _ => s
  | .stop p => s.to p .idle

/-- What an action can do to the state. -/
inductive Moves (s : World) : Act schemas → World → Prop
  | arrive {row : EventRow} : (∀ r ∈ s.arrived, r.id < row.id) →
      Moves s (.arrive row) { s with table := s.table ++ [row], arrived := s.arrived ++ [row] }
  | list {p : ℕ} : s.phase p = .idle → Moves s (.list p) (s.to p (.ready s.table))
  | begin {p : ℕ} {first second : Order schemas} {row : EventRow} {rest : List EventRow}
      {ops : List EtcdOp} :
      s.phase p = .ready (row :: rest) → eventOps first second row = .ok ops →
        Moves s (.begin p first second) (s.to p (.applying row ops rest))
  | perform {p : ℕ} {row : EventRow} {o : EtcdOp} {todo : List EtcdOp} {rest : List EventRow} :
      s.phase p = .applying row (o :: todo) rest →
        Moves s (.perform p) ((s.record (o.entry row.id)).to p (.applying row todo rest))
  | ignore {p : ℕ} {row : EventRow} {o : EtcdOp} {todo : List EtcdOp} {rest : List EventRow} :
      s.phase p = .applying row (o :: todo) rest → o.required = false →
        Moves s (.ignore p) (s.to p (.applying row todo rest))
  | commit {p : ℕ} {row : EventRow} {rest : List EventRow} :
      s.phase p = .applying row [] rest →
        Moves s (.commit p)
          ({ s with table := s.table.filter fun r ↦ decide (r.id ≠ row.id) }.to p (.ready rest))
  | retry {p : ℕ} {row : EventRow} {todo : List EtcdOp} {rest : List EventRow} :
      s.phase p = .applying row todo rest → Moves s (.retry p) (s.to p (.ready (row :: rest)))
  | stop {p : ℕ} : Moves s (.stop p) (s.to p .idle)

/-- **What one step can do**: one of these, or nothing. -/
theorem step_cases (s : World) (a : Act schemas) : step s a = s ∨ Moves s a (step s a) := by
  cases a with
  | arrive row =>
    rw [step]
    split
    · next h => exact .inr (.arrive h)
    · exact .inl rfl
  | list p =>
    rw [step]
    split
    · next h => exact .inr (.list h)
    · exact .inl rfl
  | begin p first second =>
    rw [step]
    split
    · next h =>
      split
      · next hops => exact .inr (.begin h hops)
      · exact .inl rfl
    · exact .inl rfl
  | perform p =>
    rw [step]
    split
    · next h => exact .inr (.perform h)
    · exact .inl rfl
  | ignore p =>
    rw [step]
    split
    · next h =>
      split
      · exact .inl rfl
      · next hrequired => exact .inr (.ignore h (by simpa using hrequired))
    · exact .inl rfl
  | commit p =>
    rw [step]
    split
    · next h => exact .inr (.commit h)
    · exact .inl rfl
  | retry p =>
    rw [step]
    split
    · next h => exact .inr (.retry h)
    · exact .inl rfl
  | stop p => exact .inr .stop

/-! ## What holds in every run -/

/-- The row has been begun, with operations of which those in `todo` are still to be performed. -/
def Attempt (schemas : List Schema) (journal : List (Journal.Entry String Content)) (row : EventRow)
    (todo : List EtcdOp) : Prop :=
  ∃ (first second : Order schemas) (ops : List EtcdOp), eventOps first second row = .ok ops ∧
    todo ⊆ ops ∧ ∀ o ∈ ops, o.required = true → o ∈ todo ∨ o.entry row.id ∈ journal

/-- What holds in every run: the events are in order, and who works on one works on one that has
arrived. -/
structure Base (schemas : List Schema) (etcd : String → Option Content) (s : World) : Prop where
  sorted : s.arrived.Pairwise (·.id < ·.id)
  table_sub : ∀ row ∈ s.table, row ∈ s.arrived
  rows_sub : ∀ p, ∀ row ∈ (s.phase p).rows, row ∈ s.arrived
  attempt : ∀ p row todo rest, s.phase p = .applying row todo rest →
    Attempt schemas s.journal row todo
  /-- A row that has left the table has been applied. -/
  removed : ∀ row ∈ s.arrived, row ∈ s.table ∨ Attempt schemas s.journal row []
  journal_sub : ∀ e ∈ s.journal, ∃ row ∈ s.arrived, ∃ (first second : Order schemas)
    (ops : List EtcdOp), eventOps first second row = .ok ops ∧ ∃ o ∈ ops, e = o.entry row.id
  etcd_eq : s.etcd = Journal.replay etcd s.journal

section

variable {journal journal' : List (Journal.Entry String Content)} {row : EventRow} {o : EtcdOp}
  {todo : List EtcdOp} {etcd : String → Option Content} {s : World} {p : ℕ}

theorem Attempt.mono (h : Attempt schemas journal row todo) (hsub : journal ⊆ journal') :
    Attempt schemas journal' row todo := by
  obtain ⟨first, second, ops, hops, htodo, hdone⟩ := h
  exact ⟨first, second, ops, hops, htodo, fun o ho hr ↦ (hdone o ho hr).imp_right (hsub ·)⟩

/-- An operation is performed. -/
theorem Attempt.perform (h : Attempt schemas journal row (o :: todo)) :
    Attempt schemas (journal ++ [o.entry row.id]) row todo := by
  obtain ⟨first, second, ops, hops, htodo, hdone⟩ := h
  refine ⟨first, second, ops, hops, fun o' ho' ↦ htodo (List.mem_cons_of_mem _ ho'), ?_⟩
  intro o' ho' hr
  rcases hdone o' ho' hr with hmem | hmem
  · rcases List.mem_cons.mp hmem with rfl | hmem
    · exact .inr (by simp)
    · exact .inl hmem
  · exact .inr (List.mem_append_left _ hmem)

/-- An operation is ignored. -/
theorem Attempt.ignore (h : Attempt schemas journal row (o :: todo)) (ho : o.required = false) :
    Attempt schemas journal row todo := by
  obtain ⟨first, second, ops, hops, htodo, hdone⟩ := h
  refine ⟨first, second, ops, hops, fun o' ho' ↦ htodo (List.mem_cons_of_mem _ ho'), ?_⟩
  intro o' ho' hr
  rcases hdone o' ho' hr with hmem | hmem
  · rcases List.mem_cons.mp hmem with rfl | hmem
    · rw [ho] at hr
      cases hr
    · exact .inl hmem
  · exact .inr hmem

theorem base_start {table : List EventRow} (htable : table.Pairwise (·.id < ·.id)) :
    Base schemas etcd (World.start table etcd) where
  sorted := htable
  table_sub _ h := h
  rows_sub _ _ h := by cases h
  attempt _ _ _ _ h := by cases h
  removed _ h := .inl h
  journal_sub _ h := by cases h
  etcd_eq := rfl

/-- A process may take up any row there has been, and any attempt that has been made. -/
theorem Base.to (h : Base schemas etcd s) {ph : Phase} (hrows : ∀ row ∈ ph.rows, row ∈ s.arrived)
    (hattempt : ∀ row todo rest, ph = .applying row todo rest →
      Attempt schemas s.journal row todo) : Base schemas etcd (s.to p ph) where
  sorted := h.sorted
  table_sub := h.table_sub
  rows_sub q := by
    rw [World.to_phase]
    split
    · exact hrows
    · exact h.rows_sub q
  attempt q := by
    rw [World.to_phase]
    split
    · exact hattempt
    · exact h.attempt q
  removed := h.removed
  journal_sub := h.journal_sub
  etcd_eq := h.etcd_eq

theorem Base.record (h : Base schemas etcd s) {e : Journal.Entry String Content}
    (he : ∃ row ∈ s.arrived, ∃ (first second : Order schemas) (ops : List EtcdOp),
      eventOps first second row = .ok ops ∧ ∃ o ∈ ops, e = o.entry row.id) :
    Base schemas etcd (s.record e) where
  sorted := h.sorted
  table_sub := h.table_sub
  rows_sub := h.rows_sub
  attempt q row todo rest hq := (h.attempt q row todo rest hq).mono (List.subset_append_left _ _)
  removed row hrow := (h.removed row hrow).imp_right (·.mono (List.subset_append_left _ _))
  journal_sub e' he' := by
    rcases List.mem_append.mp he' with hmem | hmem
    · exact h.journal_sub e' hmem
    · cases List.mem_singleton.mp hmem
      exact he
  etcd_eq := by
    have hreplay : Journal.replay etcd (s.record e).journal = Journal.apply s.etcd e := by
      rw [h.etcd_eq]
      exact Journal.replay_append
    exact hreplay.symm

theorem Base.arrive (h : Base schemas etcd s) (hnew : ∀ r ∈ s.arrived, r.id < row.id) :
    Base schemas etcd { s with table := s.table ++ [row], arrived := s.arrived ++ [row] } where
  sorted := List.pairwise_append.mpr ⟨h.sorted, List.pairwise_singleton _ _, fun r hr r' hr' ↦ by
    cases List.mem_singleton.mp hr'
    exact hnew r hr⟩
  table_sub r hr := (List.mem_append.mp hr).elim
    (fun hr ↦ List.mem_append_left _ (h.table_sub r hr)) (List.mem_append_right _ ·)
  rows_sub q r hr := List.mem_append_left _ (h.rows_sub q r hr)
  attempt := h.attempt
  removed r hr := by
    rcases List.mem_append.mp hr with hr | hr
    · exact (h.removed r hr).imp_left (List.mem_append_left _ ·)
    · exact .inl (List.mem_append_right _ hr)
  journal_sub e he := by
    obtain ⟨r, hr, hops⟩ := h.journal_sub e he
    exact ⟨r, List.mem_append_left _ hr, hops⟩
  etcd_eq := h.etcd_eq

/-- Two rows with the same number are the same row. -/
theorem Base.eq_of_id_eq (h : Base schemas etcd s) {r r' : EventRow} (hr : r ∈ s.arrived)
    (hr' : r' ∈ s.arrived) (hid : r.id = r'.id) : r = r' :=
  List.inj_on_of_nodup_map (List.pairwise_map.mpr (h.sorted.imp (Nat.ne_of_lt ·))) hr hr' hid

theorem Base.commit (h : Base schemas etcd s) (hrow : row ∈ s.arrived)
    (happlied : Attempt schemas s.journal row []) :
    Base schemas etcd { s with table := s.table.filter fun r ↦ decide (r.id ≠ row.id) } where
  sorted := h.sorted
  table_sub r hr := h.table_sub r (List.mem_of_mem_filter hr)
  rows_sub := h.rows_sub
  attempt := h.attempt
  removed r hr := by
    rcases h.removed r hr with hmem | hdone
    · by_cases hid : r.id = row.id
      · cases h.eq_of_id_eq hr hrow hid
        exact .inr happlied
      · exact .inl (List.mem_filter.mpr ⟨hmem, decide_eq_true hid⟩)
    · exact .inr hdone
  journal_sub := h.journal_sub
  etcd_eq := h.etcd_eq

theorem base_step (a : Act schemas) (h : Base schemas etcd s) : Base schemas etcd (step s a) := by
  rcases step_cases s a with heq | hmove
  · rwa [heq]
  · generalize step s a = t at hmove
    cases hmove with
    | arrive hnew => exact h.arrive hnew
    | list hp => exact h.to h.table_sub nofun
    | @begin p first second row rest ops hp hops =>
      have hsub := h.rows_sub p
      rw [hp] at hsub
      refine h.to hsub fun row' todo rest' heq ↦ ?_
      cases heq
      exact ⟨first, second, ops, hops, List.Subset.refl _, fun o ho _ ↦ .inl ho⟩
    | @perform p row o todo rest hp =>
      have hsub := h.rows_sub p
      rw [hp] at hsub
      have hattempt := h.attempt p row _ rest hp
      have hperformed := hattempt.perform
      obtain ⟨first, second, ops, hops, htodo, -⟩ := hattempt
      have hentry := h.record (e := o.entry row.id) ⟨row, hsub row List.mem_cons_self,
        first, second, ops, hops, o, htodo List.mem_cons_self, rfl⟩
      refine hentry.to hsub fun row' todo' rest' heq ↦ ?_
      cases heq
      exact hperformed
    | @ignore p row o todo rest hp ho =>
      have hsub := h.rows_sub p
      rw [hp] at hsub
      refine h.to hsub fun row' todo' rest' heq ↦ ?_
      cases heq
      exact (h.attempt p row _ rest hp).ignore ho
    | @commit p row rest hp =>
      have hsub := h.rows_sub p
      rw [hp] at hsub
      have hcommit := h.commit (hsub row List.mem_cons_self) (h.attempt p row [] rest hp)
      exact hcommit.to (fun r hr ↦ hsub r (List.mem_cons_of_mem _ hr)) nofun
    | @retry p row todo rest hp =>
      have hsub := h.rows_sub p
      rw [hp] at hsub
      exact h.to hsub nofun
    | stop => exact h.to nofun nofun

/-- **In every run of any processes.** -/
theorem base_of_run {table : List EventRow} {acts : List (Act schemas)}
    (htable : table.Pairwise (·.id < ·.id)) :
    ∀ t ∈ Machine.states step (World.start table etcd) acts, Base schemas etcd t := by
  have hstep : ∀ (s : World) (a : Act schemas), Base schemas etcd s → True →
      Base schemas etcd (step s a) := fun _ a h _ ↦ base_step a h
  exact Machine.invariant_of_along hstep (base_start htable)
    (Machine.along_of_forall fun _ _ _ ↦ trivial)

/-! ## The writes of unambiguous events -/

/-- An operation on a key that is no report is the write of an event. -/
theorem Base.exists_write_of_mem_journal (hbase : Base schemas etcd s)
    (hevents : ∀ row ∈ s.arrived, row.Unambiguous schemas) {e : Journal.Entry String Content}
    (he : e ∈ s.journal) (hk : ConfigKey e.key) :
    ∃ row ∈ s.arrived, row.write? schemas = some e := by
  obtain ⟨row, hrow, first, second, ops, hops, o, ho, rfl⟩ := hbase.journal_sub e he
  refine ⟨row, hrow, (exists_required_iff (hevents row hrow) first.2 hops).mp ⟨o, ho, ?_, rfl⟩⟩
  by_contra hrequired
  exact not_configKey_of_eventOps hops ho (by simpa using hrequired) hk

/-- The write of an applied event has taken effect. -/
theorem Attempt.write_mem {journal : List (Journal.Entry String Content)} {row : EventRow}
    (h : Attempt schemas journal row []) (hrow : row.Unambiguous schemas)
    {w : Journal.Entry String Content} (hw : row.write? schemas = some w) : w ∈ journal := by
  obtain ⟨first, second, ops, hops, -, hdone⟩ := h
  obtain ⟨o, ho, hrequired, rfl⟩ := (exists_required_iff hrow first.2 hops).mpr hw
  exact (hdone o ho hrequired).resolve_left (List.not_mem_nil)

end

end Gohan.Sync
