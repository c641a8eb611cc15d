import Mathlib.Logic.Function.Basic
import Gohan.Logic.Machine

/-!
# Waking up the sync writer

When a transaction that has logged events is committed, the number of its last event goes into a
channel; the commit informer takes it from there and puts it under a key in etcd, again and again
until that succeeds; and the sync writer, which watches the key, lists the event table whenever it
sees a put.  A writer that has been interrupted, by an error of etcd or of the database or because
its lock is lost, starts over, and the first thing its new watch reports is what the key holds.

`Cluster` is any number of processes, each with its commits, its informer and its writer.  Nothing
is assumed about who has the lock: any number of writers may run at a time.

An event is never left behind (`pending_of_run`).  As long as it is in the table, each writer is
about to be woken up, or to start over, or has the event in its hands.  What this takes is counted
in `Cluster.Awake`; but two things have to be added to it, a commit between the database and the
channel, and a writer that has listed the event and has not come to it (`not_awake`).
-/

set_option autoImplicit false

namespace Gohan.Sync.Wakeup

/-! ## The parties -/

/-- What a watch delivers. -/
inductive WatchEvent where
  | put (id : ℕ)
  | error

/-- A watch of the trigger key. -/
structure Watch where
  /-- Has `getCurrentValue` returned? -/
  read : Bool
  /-- How many puts there were before the ones that are still to be delivered. -/
  revision : ℕ
  eventCh : List WatchEvent
  /-- Has `watch` not yet returned? -/
  running : Bool

/-- What `SyncWriter.run` is doing. -/
inductive Doing where
  | select
  /-- `Sync` has been called and has not listed the events. -/
  | listing
  /-- `Sync` has listed events, and these are left. -/
  | syncing (todo : List ℕ)

/-- The sync writer of a process: its watch, and what it is doing. -/
structure Writer where
  watch : Watch
  doing : Doing

/-- One gohan process. -/
structure Process where
  /-- The event numbers of the calls of `Commit` that have committed and not yet sent them. -/
  sending : List ℕ
  /-- `transactionCommitted`. -/
  channel : List ℕ
  /-- The number in the hands of `notify`. -/
  notifying : Option ℕ
  /-- The writer, once it has the lock. -/
  writer : Option Writer

/-- The event table, the trigger key and the processes. -/
structure Cluster where
  /-- The event table. -/
  events : List ℕ
  /-- The numbers that have been given to events. -/
  issued : List ℕ
  /-- What has been put under the trigger key. -/
  puts : List ℕ
  process : ℕ → Process

/-- There are no events, and nothing runs. -/
def start : Cluster where
  events := []
  issued := []
  puts := []
  process _ := ⟨[], [], none, none⟩

/-- How a put ends: it may have taken effect although an error is returned. -/
inductive PutResult where
  | done
  | refused
  | unanswered
  deriving DecidableEq

/-- What can happen at any point of a run. -/
inductive Act where
  /-- A transaction is committed in the database.  It has logged these events, in this order. -/
  | commit (p : ℕ) (ids : List ℕ)
  /-- One of the waiting calls of `Commit` sends its number. -/
  | send (p : ℕ) (id : ℕ)
  /-- The informer receives a number and calls `notify`. -/
  | receive (p : ℕ)
  /-- `drain` receives a further number. -/
  | drain (p : ℕ)
  /-- `notify` tries to put the number. -/
  | put (p : ℕ) (result : PutResult)
  /-- The writer gets the lock and calls `Watch`. -/
  | lock (p : ℕ)
  /-- `getCurrentValue`, which may fail. -/
  | read (p : ℕ) (ok : Bool)
  /-- The watch passes a put on. -/
  | deliver (p : ℕ)
  /-- The watch ends, with an error or without. -/
  | abort (p : ℕ) (error : Bool)
  /-- The writer takes what is first in the channel of the watch, or sees that it is closed. -/
  | take (p : ℕ)
  /-- The writer learns that its lock is lost. -/
  | lost (p : ℕ)
  /-- `listEvents`, which may fail. -/
  | list (p : ℕ) (ok : Bool)
  /-- `Sync` takes its next event, which may fail, or returns. -/
  | sync (p : ℕ) (ok : Bool)

/-- A process is replaced. -/
def Cluster.to (s : Cluster) (p : ℕ) (process : Process) : Cluster :=
  { s with process := Function.update s.process p process }

/-- The capacity of the channel from the transactions to the informer. -/
def channelCapacity : ℕ := 1024

/-- The capacity of the channel of a watch. -/
def eventChCapacity : ℕ := 32

namespace Watch

/-- `Watch`, from the current revision. -/
def start : Watch := ⟨false, 0, [], true⟩

/-- `watch` returns.  An error goes into the channel if there is room. -/
def abort (w : Watch) (error : Bool) : Watch :=
  { w with
    running := false
    eventCh :=
      if error && decide (w.eventCh.length < eventChCapacity) then w.eventCh ++ [.error]
      else w.eventCh }

/-- `getCurrentValue`. -/
def getCurrentValue (w : Watch) (puts : List ℕ) : Watch :=
  { w with read := true, revision := puts.length, eventCh := puts.getLast?.toList.map .put }

/-- The next put is passed on. -/
def deliver (w : Watch) (puts : List ℕ) : Watch :=
  match puts[w.revision]? with
  | some id => { w with revision := w.revision + 1, eventCh := w.eventCh ++ [.put id] }
  | none => w

end Watch

/-- A step of the writer.  `none` is a return from `run`, after which it starts over. -/
def Writer.step (w : Writer) (s : Cluster) : Act → Option Writer
  | .read _ ok =>
    if w.watch.read || !w.watch.running then some w
    else if ok then some { w with watch := w.watch.getCurrentValue s.puts }
    else some { w with watch := w.watch.abort true }
  | .deliver _ =>
    if w.watch.read && w.watch.running && decide (w.watch.eventCh.length < eventChCapacity) then
      some { w with watch := w.watch.deliver s.puts }
    else some w
  | .abort _ error =>
    if w.watch.running then some { w with watch := w.watch.abort error } else some w
  | .take _ =>
    match w.doing, w.watch.eventCh with
    | .select, .put _ :: rest => some ⟨{ w.watch with eventCh := rest }, .listing⟩
    | .select, .error :: _ => none
    | .select, [] => if w.watch.running then some w else none
    | _, _ => some w
  | .lost _ =>
    match w.doing with
    | .select => none
    | _ => some w
  | .list _ ok =>
    match w.doing with
    | .listing => if ok then some { w with doing := .syncing s.events } else none
    | _ => some w
  | .sync _ ok =>
    match w.doing with
    | .syncing (_ :: todo) => if ok then some { w with doing := .syncing todo } else none
    | .syncing [] => some { w with doing := .select }
    | _ => some w
  | _ => some w

/-- The event that leaves the table in a step of the writer. -/
def Writer.consumes (w : Writer) : Act → Option ℕ
  | .sync _ true =>
    match w.doing with
    | .syncing (e :: _) => some e
    | _ => none
  | _ => none

/-- One step. -/
def step (s : Cluster) (a : Act) : Cluster :=
  match a with
  | .commit p ids =>
    match ids.getLast? with
    | none => s
    | some lastEventId =>
      if ids.all fun id ↦ !s.issued.contains id then
        { s.to p { s.process p with sending := (s.process p).sending ++ [lastEventId] } with
          events := s.events ++ ids
          issued := s.issued ++ ids }
      else s
  | .send p id =>
    let process := s.process p
    if process.sending.contains id && decide (process.channel.length < channelCapacity) then
      s.to p { process with
        sending := process.sending.erase id
        channel := process.channel ++ [id] }
    else s
  | .receive p =>
    let process := s.process p
    match process.notifying, process.channel with
    | none, id :: rest => s.to p { process with notifying := some id, channel := rest }
    | _, _ => s
  | .drain p =>
    let process := s.process p
    match process.notifying, process.channel with
    | some _, id :: rest => s.to p { process with notifying := some id, channel := rest }
    | _, _ => s
  | .put p result =>
    let process := s.process p
    match process.notifying with
    | none => s
    | some id =>
      match result with
      | .done => { s.to p { process with notifying := none } with puts := s.puts ++ [id] }
      | .refused => s
      | .unanswered => { s with puts := s.puts ++ [id] }
  | .lock p =>
    let process := s.process p
    match process.writer with
    | none => s.to p { process with writer := some ⟨.start, .select⟩ }
    | some _ => s
  | .read p _ | .deliver p | .abort p _ | .take p | .lost p | .list p _ | .sync p _ =>
    let process := s.process p
    match process.writer with
    | none => s
    | some w =>
      { s.to p { process with writer := w.step s a } with
        events := s.events.filter fun e ↦ w.consumes a != some e }

/-! ## Who is going to look at the event table -/

namespace Writer

/-- A put of the trigger key is on its way to the writer. -/
def Undelivered (w : Writer) (puts : List ℕ) : Prop :=
  (∃ id, .put id ∈ w.watch.eventCh) ∨
    w.watch.read = true ∧ w.watch.running = true ∧ w.watch.revision < puts.length

/-- The writer's watch is about to read the trigger key, or has ended: then the next thing the
writer waits for is a new watch. -/
def Restarts (w : Writer) : Prop := w.watch.read = false ∨ w.watch.running = false

end Writer

namespace Cluster

/-- The wake-ups: a number in the channel of a process, or in the hands of `notify`; and for the
writer of the process `p`, a put on its way, a `Sync` that has not listed the events, and a restart
which will read the key. -/
def Awake (s : Cluster) (p : ℕ) : Prop :=
  (∃ q, (s.process q).channel ≠ []) ∨
  (∃ q, (s.process q).notifying ≠ none) ∨
  (∃ w, (s.process p).writer = some w ∧ w.Undelivered s.puts) ∨
  (∃ w, (s.process p).writer = some w ∧ w.doing = .listing) ∨
  (s.puts ≠ [] ∧ ∀ w, (s.process p).writer = some w → w.Restarts)

/-- The event is taken care of: there is a wake-up, or a commit is about to send its number, or the
writer has listed the event and not come to it. -/
def Pending (s : Cluster) (p : ℕ) (e : ℕ) : Prop :=
  s.Awake p ∨
  (∃ q, (s.process q).sending ≠ []) ∨
  (∃ w todo, (s.process p).writer = some w ∧ w.doing = .syncing todo ∧ e ∈ todo)

/-! ## The invariant -/

/-- A number of a commit has not been put under the trigger key. -/
def Informing (s : Cluster) : Prop :=
  ∃ q, (s.process q).sending ≠ [] ∨ (s.process q).channel ≠ [] ∨ (s.process q).notifying ≠ none

end Cluster

/-- The writer will list the event, or has listed it. -/
def Writer.Due (w : Writer) (puts : List ℕ) (e : ℕ) : Prop :=
  w.Undelivered puts ∨ w.doing = .listing ∨ w.Restarts ∨ ∃ todo, w.doing = .syncing todo ∧ e ∈ todo

/-- What holds in every run: for every event in the table somebody is going to wake a writer. -/
structure Inv (s : Cluster) : Prop where
  revision : ∀ p w, (s.process p).writer = some w → w.watch.revision ≤ s.puts.length
  pending : ∀ e ∈ s.events, s.Informing ∨
    s.puts ≠ [] ∧ ∀ p w, (s.process p).writer = some w → w.Due s.puts e

variable {s : Cluster} {p : ℕ}

theorem Inv.pending_of (h : Inv s) {e : ℕ} (he : e ∈ s.events) : s.Pending p e := by
  rcases h.pending e he with ⟨q, hsending | hchannel | hnotifying⟩ | ⟨hputs, hdue⟩
  · exact .inr (.inl ⟨q, hsending⟩)
  · exact .inl (.inl ⟨q, hchannel⟩)
  · exact .inl (.inr (.inl ⟨q, hnotifying⟩))
  · cases hw : (s.process p).writer with
    | none => exact .inl (.inr (.inr (.inr (.inr ⟨hputs, fun w h ↦ absurd (hw ▸ h) nofun⟩))))
    | some w =>
      rcases hdue p w hw with h | h | h | ⟨todo, htodo, hmem⟩
      · exact .inl (.inr (.inr (.inl ⟨w, hw, h⟩)))
      · exact .inl (.inr (.inr (.inr (.inl ⟨w, hw, h⟩))))
      · refine .inl (.inr (.inr (.inr (.inr ⟨hputs, fun w' hw' ↦ ?_⟩))))
        rw [hw] at hw'
        cases hw'
        exact h
      · exact .inr (.inr ⟨w, todo, hw, htodo, hmem⟩)

/-! ## One step -/

@[simp] theorem Cluster.to_self (s : Cluster) (p : ℕ) (process : Process) :
    (s.to p process).process p = process := Function.update_self ..

theorem Cluster.to_of_ne (s : Cluster) (process : Process) {q : ℕ} (h : q ≠ p) :
    (s.to p process).process q = s.process q := Function.update_of_ne h ..

namespace Writer

variable {w w' : Writer} {a : Act} {e : ℕ}

theorem revision_deliver {watch : Watch} (puts : List ℕ) (h : watch.revision ≤ puts.length) :
    (watch.deliver puts).revision ≤ puts.length := by
  rw [Watch.deliver]
  split
  · next hput =>
    obtain ⟨hlt, -⟩ := List.getElem?_eq_some_iff.mp hput
    exact hlt
  · exact h

/-- The writer never takes more puts for delivered than there have been. -/
theorem revision_step (h : w.watch.revision ≤ s.puts.length) (hstep : w.step s a = some w') :
    w'.watch.revision ≤ s.puts.length := by
  cases a with
  | read q ok =>
    simp only [step] at hstep
    split at hstep
    · cases hstep
      exact h
    · split at hstep
      · cases hstep
        exact Nat.le_refl s.puts.length
      · cases hstep
        exact h
  | deliver q =>
    simp only [step] at hstep
    split at hstep
    · cases hstep
      exact revision_deliver s.puts h
    · cases hstep
      exact h
  | abort q error =>
    simp only [step] at hstep
    split at hstep <;> (cases hstep; exact h)
  | take q =>
    simp only [step] at hstep
    split at hstep
    · cases hstep
      exact h
    · cases hstep
    · split at hstep
      · cases hstep
        exact h
      · cases hstep
    · cases hstep
      exact h
  | lost q =>
    simp only [step] at hstep
    split at hstep
    · cases hstep
    · cases hstep
      exact h
  | list q ok | sync q ok =>
    simp only [step] at hstep
    split at hstep
    · split at hstep <;> cases hstep
      exact h
    all_goals
      cases hstep
      exact h
  | _ =>
    cases hstep
    exact h

/-- A put that is passed on is still undelivered to the writer. -/
theorem undelivered_deliver {puts : List ℕ} (h : w.Undelivered puts) :
    Writer.Undelivered { w with watch := w.watch.deliver puts } puts := by
  rcases h with ⟨id, hid⟩ | ⟨-, -, hrevision⟩
  · refine .inl ⟨id, ?_⟩
    simp only [Watch.deliver]
    split
    · exact List.mem_append_left _ hid
    · exact hid
  · refine .inl ⟨puts[w.watch.revision], ?_⟩
    simp only [Watch.deliver, List.getElem?_eq_getElem hrevision]
    exact List.mem_append_right _ (List.mem_singleton_self _)

/-- **A step of the writer** leaves every event that it does not consume in good hands. -/
theorem due_step (hputs : s.puts ≠ []) (hstep : w.step s a = some w') (he : e ∈ s.events)
    (hstays : w.consumes a ≠ some e) (h : w.Due s.puts e) : w'.Due s.puts e := by
  cases a with
  | read q ok =>
    simp only [step] at hstep
    split at hstep
    · cases hstep
      exact h
    · split at hstep
      · cases hstep
        exact .inl (.inl ⟨s.puts.getLast hputs, by
          simp [Watch.getCurrentValue, List.getLast?_eq_some_getLast hputs]⟩)
      · cases hstep
        exact .inr (.inr (.inl (.inr rfl)))
  | deliver q =>
    simp only [step] at hstep
    split at hstep
    · next hopen =>
      cases hstep
      simp only [Bool.and_eq_true] at hopen
      rcases h with h | h | h | h
      · exact .inl (undelivered_deliver h)
      · exact .inr (.inl h)
      · rcases h with h | h <;> simp [h] at hopen
      · exact .inr (.inr (.inr h))
    · cases hstep
      exact h
  | abort q error =>
    simp only [step] at hstep
    split at hstep
    · cases hstep
      exact .inr (.inr (.inl (.inr rfl)))
    · cases hstep
      exact h
  | take q =>
    simp only [step] at hstep
    split at hstep
    · cases hstep
      exact .inr (.inl rfl)
    · cases hstep
    · split at hstep
      · cases hstep
        exact h
      · cases hstep
    · cases hstep
      exact h
  | lost q =>
    simp only [step] at hstep
    split at hstep
    · cases hstep
    · cases hstep
      exact h
  | list q ok =>
    simp only [step] at hstep
    split at hstep
    · split at hstep
      · cases hstep
        exact .inr (.inr (.inr ⟨s.events, rfl, he⟩))
      · cases hstep
    · cases hstep
      exact h
  | sync q ok =>
    simp only [step] at hstep
    split at hstep
    · next x todo hdoing =>
      cases ok with
      | false => cases hstep
      | true =>
        cases hstep
        rcases h with h | h | h | ⟨todo', hdoing', hmem⟩
        · exact .inl h
        · rw [hdoing] at h
          cases h
        · exact .inr (.inr (.inl h))
        · rw [hdoing] at hdoing'
          cases hdoing'
          refine .inr (.inr (.inr ⟨todo, rfl, ?_⟩))
          rcases List.mem_cons.mp hmem with rfl | hmem
          · exact absurd (by simp [consumes, hdoing]) hstays
          · exact hmem
    · next hdoing =>
      cases hstep
      rcases h with h | h | h | ⟨todo', hdoing', hmem⟩
      · exact .inl h
      · rw [hdoing] at h
        cases h
      · exact .inr (.inr (.inl h))
      · rw [hdoing] at hdoing'
        cases hdoing'
        cases hmem
    · cases hstep
      exact h
  | _ =>
    cases hstep
    exact h

end Writer

/-! ## A run -/

variable {s' : Cluster}

/-- A step of the informer, or of a commit, after which there is still a number to put. -/
theorem inv_of_informing (h : Inv s) (hputs : s'.puts = s.puts)
    (hwriter : ∀ q, (s'.process q).writer = (s.process q).writer) (hinforming : s'.Informing) :
    Inv s' where
  revision q w hw := by
    rw [hputs]
    exact h.revision q w (hwriter q ▸ hw)
  pending _ _ := .inl hinforming

/-- A put reaches every watch there is, and the key has a value from now on. -/
theorem inv_of_put {id : ℕ} (h : Inv s) (hputs : s'.puts = s.puts ++ [id])
    (hwriter : ∀ q, (s'.process q).writer = (s.process q).writer) : Inv s' where
  revision q w hw := by
    rw [hputs, List.length_append]
    exact Nat.le_add_right_of_le (h.revision q w (hwriter q ▸ hw))
  pending e _ := by
    refine .inr ⟨by simp [hputs], fun q w hw ↦ ?_⟩
    by_cases hrestarts : w.Restarts
    · exact .inr (.inr (.inl hrestarts))
    · simp only [Writer.Restarts, not_or, Bool.not_eq_false] at hrestarts
      refine .inl (.inr ⟨hrestarts.1, hrestarts.2, ?_⟩)
      rw [hputs, List.length_append]
      exact Nat.lt_add_one_of_le (h.revision q w (hwriter q ▸ hw))

/-- A step that concerns the writer of one process. -/
theorem inv_of_writer (h : Inv s) {writer : Option Writer} {events : List ℕ}
    (hrevision : ∀ w, writer = some w → w.watch.revision ≤ s.puts.length)
    (hevents : ∀ e ∈ events, e ∈ s.events)
    (hdue : s.puts ≠ [] → ∀ e ∈ events, (∀ w, (s.process p).writer = some w → w.Due s.puts e) →
      ∀ w, writer = some w → w.Due s.puts e) :
    Inv { s.to p { s.process p with writer := writer } with events := events } where
  revision q w hw := by
    by_cases hq : q = p
    · subst hq
      simp only [Cluster.to_self] at hw
      exact hrevision w hw
    · simp only [Cluster.to_of_ne _ _ hq] at hw
      exact h.revision q w hw
  pending e he := by
    rcases h.pending e (hevents e he) with ⟨q, hq⟩ | ⟨hputs, hall⟩
    · refine .inl ⟨q, ?_⟩
      by_cases hqp : q = p
      · subst hqp
        simpa only [Cluster.to_self] using hq
      · simpa only [Cluster.to_of_ne _ _ hqp] using hq
    · refine .inr ⟨hputs, fun q w hw ↦ ?_⟩
      by_cases hq : q = p
      · subst hq
        simp only [Cluster.to_self] at hw
        exact hdue hputs e he (hall q) w hw
      · simp only [Cluster.to_of_ne _ _ hq] at hw
        exact hall q w hw

theorem to_writer (s : Cluster) {process : Process}
    (h : process.writer = (s.process p).writer) (q : ℕ) :
    ((s.to p process).process q).writer = (s.process q).writer := by
  by_cases hq : q = p
  · subst hq
    rw [Cluster.to_self, h]
  · rw [Cluster.to_of_ne _ _ hq]

theorem inv_step (s : Cluster) (a : Act) (h : Inv s) : Inv (step s a) := by
  cases a with
  | commit p ids =>
    simp only [step]
    split
    · exact h
    · split
      · exact inv_of_informing h rfl (to_writer s rfl) ⟨p, .inl (by simp)⟩
      · exact h
  | send p id =>
    simp only [step]
    split
    · exact inv_of_informing h rfl (to_writer s rfl) ⟨p, .inr (.inl (by simp))⟩
    · exact h
  | receive p | drain p =>
    simp only [step]
    split
    · exact inv_of_informing h rfl (to_writer s rfl) ⟨p, .inr (.inr (by simp))⟩
    · exact h
  | put p result =>
    simp only [step]
    split
    · exact h
    · cases result with
      | done => exact inv_of_put h rfl (to_writer s rfl)
      | refused => exact h
      | unanswered => exact inv_of_put h rfl fun _ ↦ rfl
  | lock p =>
    simp only [step]
    split
    · refine inv_of_writer h (fun w hw ↦ ?_) (fun _ ↦ id) fun _ e _ _ w hw ↦ ?_
      · cases hw
        exact Nat.zero_le _
      · cases hw
        exact .inr (.inr (.inl (.inl rfl)))
    · exact h
  | read p _ | deliver p | abort p _ | take p | lost p | list p _ | sync p _ =>
    simp only [step]
    split
    · exact h
    · next w hw =>
      refine inv_of_writer h (fun w' hw' ↦ Writer.revision_step (h.revision p w hw) hw')
        (fun e he ↦ (List.mem_filter.mp he).1) fun hputs e he hdue w' hw' ↦ ?_
      obtain ⟨hmem, hstays⟩ := List.mem_filter.mp he
      exact Writer.due_step hputs hw' hmem (by simpa using hstays) (hdue w hw)

theorem inv_start : Inv start where
  revision p w hw := by cases hw
  pending e he := by cases he

/-- **No event is left behind**, for any number of processes and any order of their steps. -/
theorem pending_of_run (acts : List Act) {s : Cluster} (hs : s ∈ Machine.states step start acts)
    {e : ℕ} (he : e ∈ s.events) (p : ℕ) : s.Pending p e :=
  (Machine.invariant_of_along (fun s a h _ ↦ inv_step s a h) inv_start
    (Machine.along_of_forall fun _ _ _ ↦ trivial) s hs).pending_of he

/-! ## An event in the hands of the writer -/

/-- A commit, its number put under the trigger key, and a writer that lists the event. -/
def listed : List Act :=
  [.commit 0 [1], .send 0 1, .receive 0, .put 0 .done, .lock 0, .read 0 true, .take 0, .list 0 true]

theorem pending_listed : (Machine.final step start listed).Pending 0 1 :=
  pending_of_run listed (Machine.final_mem_states _ _) List.mem_cons_self 0

/-- The process that takes a step. -/
def Act.actor : Act → ℕ
  | .commit p _ | .send p _ | .receive p | .drain p | .put p _ | .lock p | .read p _ | .deliver p
  | .abort p _ | .take p | .lost p | .list p _ | .sync p _ => p

/-- A step of one process leaves the others as they are. -/
theorem step_of_ne (s : Cluster) (a : Act) {q : ℕ} (hq : q ≠ a.actor) :
    (step s a).process q = s.process q := by
  cases a with
  | commit p ids =>
    simp only [step]
    split
    · rfl
    · split
      · exact s.to_of_ne _ hq
      · rfl
  | put p result =>
    simp only [step]
    split
    · rfl
    · cases result with
      | done => exact s.to_of_ne _ hq
      | _ => rfl
  | send p id | receive p | drain p | lock p =>
    simp only [step]
    split
    · exact s.to_of_ne _ hq
    · rfl
  | _ =>
    simp only [step]
    split
    · rfl
    · exact s.to_of_ne _ hq

/-- Where only the first process takes steps, the others do not change. -/
theorem final_of_ne {acts : List Act} (hacts : ∀ a ∈ acts, a.actor = 0) {q : ℕ} (hq : q ≠ 0) :
    (Machine.final step s acts).process q = s.process q := by
  induction acts generalizing s with
  | nil => rfl
  | cons a acts ih =>
    refine (ih fun b hb ↦ hacts b (List.mem_cons_of_mem _ hb)).trans (step_of_ne s a ?_)
    rwa [hacts a List.mem_cons_self]

/-- The event is in the table, and nothing is going to wake up the writer: neither while the writer
has it in its hands, nor while the commit has not sent its number. -/
theorem not_awake :
    (1 ∈ (Machine.final step start listed).events ∧
      ¬ (Machine.final step start listed).Awake 0) ∧
    1 ∈ (Machine.final step start [.commit 0 [1]]).events ∧
      ¬ (Machine.final step start [.commit 0 [1]]).Awake 0 := by
  refine ⟨⟨List.mem_cons_self, ?_⟩, List.mem_cons_self, ?_⟩
  · rintro (⟨q, h⟩ | ⟨q, h⟩ | ⟨w, hw, h⟩ | ⟨w, hw, h⟩ | ⟨-, h⟩)
    · by_cases hq : q = 0
      · subst hq
        exact h rfl
      · exact h (by rw [final_of_ne (by decide) hq]; rfl)
    · by_cases hq : q = 0
      · subst hq
        exact h rfl
      · exact h (by rw [final_of_ne (by decide) hq]; rfl)
    · cases hw
      rcases h with ⟨id, hid⟩ | ⟨-, -, hlt⟩
      · cases hid
      · exact absurd hlt (by decide)
    · cases hw
      cases h
    · rcases h _ rfl with h | h <;> cases h
  · rintro (⟨q, h⟩ | ⟨q, h⟩ | ⟨w, hw, h⟩ | ⟨w, hw, h⟩ | ⟨h, -⟩)
    · by_cases hq : q = 0
      · subst hq
        exact h rfl
      · exact h (by rw [final_of_ne (by decide) hq]; rfl)
    · by_cases hq : q = 0
      · subst hq
        exact h rfl
      · exact h (by rw [final_of_ne (by decide) hq]; rfl)
    · cases hw
    · cases hw
    · exact h rfl

end Gohan.Sync.Wakeup
