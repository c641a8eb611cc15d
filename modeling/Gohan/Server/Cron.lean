import Mathlib.Logic.Function.Basic
import Gohan.Logic.Machine

/-!
# Cron jobs

Every process of a cluster has the same cron jobs, and a job is to run on one of them at a time.
When a job is due, the process first takes a token out of a channel that holds one, so that there is
no second run of the job in the process, and then the lock of the job in etcd, so that there is none
in another.  If it cannot take the lock it puts the token back.  When the job is over it puts the
token back, and after that it unlocks.

In one process no two runs of a job overlap, whatever etcd does, and the token is never lost:
`oneAtATime_of_run`.  In the cluster it takes more.  The token is there again while the unlocking is
still going on, so a run of the same process can take the lock between the two requests that unlock
it, `Revoke` and the deletion of the key; what is deleted then is the key of the new lock, and
another process can take it (`not_exclusive`).  Unless that happens, or the lease of a lock runs out
while the job runs, the job runs once in the cluster (`exclusive_of_run`).
-/

set_option autoImplicit false

namespace Gohan.Cron

/-- The number of a lease. -/
abbrev LeaseID := ℕ

/-- Where a run of the job is. -/
inductive Phase where
  /-- The job is not due, or the run is over. -/
  | idle
  /-- The token is taken, and `Grant` has been called. -/
  | granting
  | granted (lease : LeaseID)
  /-- The transaction of `Lock` has succeeded. -/
  | acquired (lease : LeaseID)
  /-- `Lock` has returned an error. -/
  | failed
  /-- The extension handles the event. -/
  | running (lease : LeaseID)
  /-- The job is over, or it has panicked. -/
  | returning
  /-- In `Unlock`, before the table of locks is read. -/
  | getting
  | removing (lease : LeaseID)
  | revoking (lease : LeaseID)
  | deleting
  deriving DecidableEq

/-- The run has the token. -/
def Phase.busy : Phase → Bool
  | .granting | .granted _ | .acquired _ | .failed | .running _ | .returning => true
  | .idle | .getting | .removing _ | .revoking _ | .deleting => false

/-- The run is between the requests of `Unlock`. -/
def Phase.unlocking : Phase → Bool
  | .getting | .removing _ | .revoking _ | .deleting => true
  | .idle | .granting | .granted _ | .acquired _ | .failed | .running _ | .returning => false

/-- The lease of the lock under which the job runs, or is about to. -/
def Phase.lock : Phase → Option LeaseID
  | .acquired lease | .running lease => some lease
  | .idle | .granting | .granted _ | .failed | .returning | .getting | .removing _ | .revoking _
  | .deleting => none

/-- The lease that the run has at hand. -/
def Phase.lease : Phase → Option LeaseID
  | .granted lease | .acquired lease | .running lease | .removing lease | .revoking lease =>
    some lease
  | .idle | .granting | .failed | .returning | .getting | .deleting => none

/-- etcd, and the processes, with any number of runs of the job in each. -/
structure State where
  /-- To which process a lease has been granted. -/
  owner : LeaseID → Option ℕ
  alive : LeaseID → Bool
  /-- The key of the lock: the process whose identifier it holds, and the lease it was put with. -/
  path : Option (ℕ × LeaseID)
  /-- The token is in the channel of the process. -/
  slot : ℕ → Bool
  /-- The entry of the key in the table of locks of the process. -/
  entry : ℕ → Option LeaseID
  phase : ℕ → ℕ → Phase

/-- Nobody has locked the path, and every token is in its channel. -/
def State.start : State where
  owner _ := none
  alive _ := false
  path := none
  slot _ := true
  entry _ := none
  phase _ _ := .idle

/-- What can happen at any point of a run. -/
inductive Act where
  | expire (lease : LeaseID)
  /-- The goroutine that keeps the lock of a process alive gives up, and removes the entry. -/
  | abort (p : ℕ)
  /-- The job is due. -/
  | fire (p i : ℕ)
  | grant (p i : ℕ) (answer : Option LeaseID)
  /-- The transaction of `Lock`, which need not be executed nor its answer arrive. -/
  | txn (p i : ℕ) (executed answered : Bool)
  /-- The lease is entered into the table, and the job is run. -/
  | set (p i : ℕ)
  /-- The token is put back, as the lock cannot be taken. -/
  | giveBack (p i : ℕ)
  | finish (p i : ℕ)
  /-- The token is put back, and `Unlock` is called. -/
  | release (p i : ℕ)
  | get (p i : ℕ)
  | remove (p i : ℕ)
  | revoke (p i : ℕ) (executed : Bool)
  | delete (p i : ℕ) (executed : Bool)

namespace State

/-- A lease is gone, and what was put with it. -/
def lapse (s : State) (lease : LeaseID) : State :=
  { s with
    alive := Function.update s.alive lease false
    path := s.path.filter (·.2 ≠ lease) }

/-- A run comes to another phase. -/
def move (s : State) (p i : ℕ) (phase : Phase) : State :=
  { s with phase := fun q j ↦ if q = p ∧ j = i then phase else s.phase q j }

/-- The token of a process is put into the channel, or taken out of it. -/
def setSlot (s : State) (p : ℕ) (slot : Bool) : State :=
  { s with slot := Function.update s.slot p slot }

/-- The entry of a process in its table of locks is replaced. -/
def setEntry (s : State) (p : ℕ) (entry : Option LeaseID) : State :=
  { s with entry := Function.update s.entry p entry }

/-- Does the transaction put the key? -/
def puts (s : State) (lease : LeaseID) (executed : Bool) : Bool :=
  executed && s.alive lease && s.path.isNone

end State

/-- One step. -/
def step (s : State) : Act → State
  | .expire lease => s.lapse lease
  | .abort p => s.setEntry p none
  | .fire p i =>
    match s.phase p i with
    | .idle => if s.slot p then (s.setSlot p false).move p i .granting else s
    | _ => s
  | .grant p i answer =>
    match s.phase p i, answer with
    | .granting, some lease =>
      if lease = 0 ∨ s.owner lease ≠ none then s
      else { s.move p i (.granted lease) with
        owner := Function.update s.owner lease (some p)
        alive := Function.update s.alive lease true }
    | .granting, none => s.move p i .failed
    | _, _ => s
  | .txn p i executed answered =>
    match s.phase p i with
    | .granted lease =>
      if s.puts lease executed then
        { s.move p i (if answered then .acquired lease else .failed) with path := some (p, lease) }
      else s.move p i .failed
    | _ => s
  | .set p i =>
    match s.phase p i with
    | .acquired lease => (s.setEntry p (some lease)).move p i (.running lease)
    | _ => s
  | .giveBack p i =>
    match s.phase p i with
    | .failed => (s.setSlot p true).move p i .idle
    | _ => s
  | .finish p i =>
    match s.phase p i with
    | .running _ => s.move p i .returning
    | _ => s
  | .release p i =>
    match s.phase p i with
    | .returning => (s.setSlot p true).move p i .getting
    | _ => s
  | .get p i =>
    match s.phase p i with
    | .getting =>
      match s.entry p with
      | some lease => s.move p i (.removing lease)
      | none => s.move p i .idle
    | _ => s
  | .remove p i =>
    match s.phase p i with
    | .removing lease =>
      (s.setEntry p none).move p i (if 0 < lease then .revoking lease else .idle)
    | _ => s
  | .revoke p i executed =>
    match s.phase p i with
    | .revoking lease => (if executed then s.lapse lease else s).move p i .deleting
    | _ => s
  | .delete p i executed =>
    match s.phase p i with
    | .deleting =>
      { s.move p i .idle with
        path := if executed then s.path.filter (·.1 ≠ p) else s.path }
    | _ => s

/-! ## The token -/

/-- The token of a process is in its channel, or one run has it. -/
structure State.Slots (s : State) : Prop where
  free : ∀ p, s.slot p = true → ∀ i, (s.phase p i).busy = false
  one : ∀ p i j, (s.phase p i).busy = true → (s.phase p j).busy = true → i = j
  kept : ∀ p, s.slot p = false → ∃ i, (s.phase p i).busy = true

variable {s : State} {p i : ℕ}

@[simp] theorem phase_move (s : State) (p i q j : ℕ) (phase : Phase) :
    (s.move p i phase).phase q j = if q = p ∧ j = i then phase else s.phase q j := rfl

/-- What matters for the token. -/
theorem State.Slots.congr {s' : State} (h : s.Slots) (hslot : s'.slot = s.slot)
    (hbusy : ∀ q j, (s'.phase q j).busy = (s.phase q j).busy) : s'.Slots := by
  refine ⟨fun q hq j ↦ ?_, fun q j k hj hk ↦ ?_, fun q hq ↦ ?_⟩
  · rw [hbusy]
    exact h.free q (hslot ▸ hq) j
  · rw [hbusy] at hj hk
    exact h.one q j k hj hk
  · obtain ⟨j, hj⟩ := h.kept q (hslot ▸ hq)
    exact ⟨j, (hbusy q j).trans hj⟩

/-- A step in which the run keeps the token, or does not have it. -/
theorem State.Slots.move (h : s.Slots) {s' : State} {phase : Phase} (hslot : s'.slot = s.slot)
    (hphase : s'.phase = (s.move p i phase).phase) (hbusy : phase.busy = (s.phase p i).busy) :
    s'.Slots := by
  refine h.congr hslot fun q j ↦ ?_
  rw [hphase, phase_move]
  split
  · next heq => rw [hbusy, heq.1, heq.2]
  · rfl

/-- The token is taken. -/
theorem State.Slots.take (h : s.Slots) (hslot : s.slot p = true) {phase : Phase}
    (hbusy : phase.busy = true) : ((s.setSlot p false).move p i phase).Slots := by
  have hother {q : ℕ} (hq : q ≠ p) : (s.setSlot p false).slot q = s.slot q :=
    Function.update_of_ne hq _ _
  refine ⟨fun q hq j ↦ ?_, fun q j k hj hk ↦ ?_, fun q hq ↦ ?_⟩
  · by_cases hqp : q = p
    · subst hqp
      have hself : (s.setSlot q false).slot q = false :=
        Function.update_self q _ s.slot
      exact absurd (hself.symm.trans hq) Bool.false_ne_true
    · rw [phase_move, if_neg fun heq ↦ hqp heq.1]
      exact h.free q ((hother hqp).symm.trans hq) j
  · rw [phase_move] at hj hk
    by_cases hqp : q = p
    · subst hqp
      -- no other run of the process is busy
      have honly {l : ℕ}
          (hl : (if q = q ∧ l = i then phase else s.phase q l).busy = true) : l = i := by
        by_contra hne
        rw [if_neg fun heq ↦ hne heq.2, h.free q hslot l] at hl
        exact Bool.false_ne_true hl
      exact (honly hj).trans (honly hk).symm
    · rw [if_neg fun heq ↦ hqp heq.1] at hj hk
      exact h.one q j k hj hk
  · by_cases hqp : q = p
    · subst hqp
      exact ⟨i, by rw [phase_move, if_pos ⟨rfl, rfl⟩, hbusy]⟩
    · obtain ⟨j, hj⟩ := h.kept q ((hother hqp).symm.trans hq)
      exact ⟨j, by rw [phase_move, if_neg fun heq ↦ hqp heq.1]; exact hj⟩

/-- The token is put back. -/
theorem State.Slots.put (h : s.Slots) (hhas : (s.phase p i).busy = true) {phase : Phase}
    (hbusy : phase.busy = false) : ((s.setSlot p true).move p i phase).Slots := by
  have hother {q : ℕ} (hq : q ≠ p) : (s.setSlot p true).slot q = s.slot q :=
    Function.update_of_ne hq _ _
  have hnone (j : ℕ) : (((s.setSlot p true).move p i phase).phase p j).busy = false := by
    rw [phase_move]
    split
    · exact hbusy
    · next hne =>
      by_contra hj
      exact hne ⟨rfl, h.one p j i (Bool.not_eq_false _ ▸ hj) hhas⟩
  refine ⟨fun q hq j ↦ ?_, fun q j k hj hk ↦ ?_, fun q hq ↦ ?_⟩
  · by_cases hqp : q = p
    · subst hqp
      exact hnone j
    · rw [phase_move, if_neg fun heq ↦ hqp heq.1]
      exact h.free q ((hother hqp).symm.trans hq) j
  · by_cases hqp : q = p
    · subst hqp
      exact absurd ((hnone j).symm.trans hj) Bool.false_ne_true
    · rw [phase_move, if_neg fun heq ↦ hqp heq.1] at hj hk
      exact h.one q j k hj hk
  · by_cases hqp : q = p
    · subst hqp
      have hself : (s.setSlot q true).slot q = true :=
        Function.update_self q _ s.slot
      exact absurd (hself.symm.trans hq).symm Bool.false_ne_true
    · obtain ⟨j, hj⟩ := h.kept q ((hother hqp).symm.trans hq)
      exact ⟨j, by rw [phase_move, if_neg fun heq ↦ hqp heq.1]; exact hj⟩

/-- The step of a run that does not pass on the token. -/
theorem State.Slots.stay (h : s.Slots) {phase phase' : Phase} (hphase : s.phase p i = phase)
    {s' : State} (hmove : s'.phase = (s.move p i phase').phase) (hslot : s'.slot = s.slot)
    (hbusy : phase'.busy = phase.busy) : s'.Slots :=
  h.move hslot hmove (hbusy.trans (congrArg Phase.busy hphase.symm))

theorem slots_start : State.start.Slots where
  free _ _ _ := rfl
  one _ _ _ h := nomatch h
  kept _ h := nomatch h

theorem slots_step (s : State) (a : Act) (h : s.Slots) : (step s a).Slots := by
  cases a with
  | expire lease => exact h.congr rfl fun _ _ ↦ rfl
  | abort p => exact h.congr rfl fun _ _ ↦ rfl
  | fire p i =>
    simp only [step]
    split
    · split
      · next hslot => exact h.take hslot rfl
      · exact h
    · exact h
  | grant p i answer =>
    simp only [step]
    split
    · next hphase =>
      split
      · exact h
      · exact h.stay hphase rfl rfl rfl
    · next hphase => exact h.stay hphase rfl rfl rfl
    · exact h
  | txn p i executed answered =>
    simp only [step]
    split
    · next hphase =>
      split
      · exact h.stay hphase rfl rfl (by cases answered <;> rfl)
      · exact h.stay hphase rfl rfl rfl
    · exact h
  | set p i =>
    simp only [step]
    split
    · next hphase => exact h.stay hphase rfl rfl rfl
    · exact h
  | giveBack p i =>
    simp only [step]
    split
    · next hphase => exact h.put (hphase ▸ rfl) rfl
    · exact h
  | finish p i =>
    simp only [step]
    split
    · next hphase => exact h.stay hphase rfl rfl rfl
    · exact h
  | release p i =>
    simp only [step]
    split
    · next hphase => exact h.put (hphase ▸ rfl) rfl
    · exact h
  | get p i =>
    simp only [step]
    split
    · next hphase =>
      split
      · exact h.stay hphase rfl rfl rfl
      · exact h.stay hphase rfl rfl rfl
    · exact h
  | remove p i =>
    simp only [step]
    split
    · next hphase => exact h.stay hphase rfl rfl (by split <;> rfl)
    · exact h
  | revoke p i executed =>
    simp only [step]
    split
    · next hphase => cases executed <;> exact h.stay hphase rfl rfl rfl
    · exact h
  | delete p i executed =>
    simp only [step]
    split
    · next hphase => exact h.stay hphase rfl rfl rfl
    · exact h

/-- **In one process no two runs of the job overlap, and the token is never lost.**  Whatever the
other processes and etcd do, when it is in the channel no run has it, and when it is not, one run
has it, and no other does. -/
theorem oneAtATime_of_run (acts : List Act) : ∀ s ∈ Machine.states step State.start acts,
    ∀ p, (s.slot p = true → ∀ i, (s.phase p i).busy = false) ∧
      (s.slot p = false → ∃! i, (s.phase p i).busy = true) := by
  intro s hs p
  have h : s.Slots := Machine.invariant_of_along (fun s a hinv _ ↦ slots_step s a hinv) slots_start
    (Machine.along_of_forall fun _ _ _ ↦ trivial :
      Machine.Along step (fun _ _ ↦ True) State.start acts) s hs
  refine ⟨h.free p, fun hslot ↦ ?_⟩
  obtain ⟨i, hi⟩ := h.kept p hslot
  exact ⟨i, hi, fun j hj ↦ h.one p j i hj hi⟩

/-- A run takes the lock with the lease, and the job is run. -/
def lockWith (p i : ℕ) (lease : LeaseID) : List Act :=
  [.fire p i, .grant p i (some lease), .txn p i true true, .set p i]

/-- Of a process that runs the job. -/
theorem oneAtATime_of_run_locked :
    ∃! i, ((Machine.final step State.start (lockWith 1 0 7)).phase 1 i).busy = true :=
  (oneAtATime_of_run _ _ (Machine.final_mem_states _ _) 1).2 rfl

/-! ## The lock -/

/-- No lock of a job that runs is taken away: its lease does not run out, and no run of a process
takes the lock while another run of the process unlocks it. -/
def Calm (s : State) : Act → Prop
  | .expire lease => ∀ p i, (s.phase p i).lock ≠ some lease
  | .txn p i executed _ => ∀ lease, s.phase p i = .granted lease → s.puts lease executed = true →
      ∀ j, (s.phase p j).unlocking = false
  | _ => True

/-- What holds of the leases: each is that of one process, and a job runs under a lock in etcd. -/
structure State.Held (s : State) : Prop where
  /-- The lease at hand has been granted to the process. -/
  own : ∀ p i lease, (s.phase p i).lease = some lease → s.owner lease = some p
  entered : ∀ p lease, s.entry p = some lease → s.owner lease = some p
  /-- The job runs under a lock that is in etcd. -/
  locked : ∀ p i lease, (s.phase p i).lock = some lease → s.path = some (p, lease)
  apart : ∀ p i j, (s.phase p i).lock ≠ none → (s.phase p j).unlocking = false

theorem held_start : State.start.Held where
  own _ _ _ h := nomatch h
  entered _ _ h := nomatch h
  locked _ _ _ h := nomatch h
  apart _ _ _ h := absurd rfl h

theorem Phase.busy_of_lock {phase : Phase} (h : phase.lock ≠ none) : phase.busy = true := by
  cases phase with
  | acquired | running => rfl
  | idle | granting | granted | failed | returning | getting | removing | revoking | deleting =>
    exact absurd rfl h

theorem Phase.lease_of_lock {phase : Phase} {lease : LeaseID} (h : phase.lock = some lease) :
    phase.lease = some lease := by
  cases phase with
  | acquired | running => exact h
  | idle | granting | granted | failed | returning | getting | removing | revoking | deleting =>
    cases h

/-- Beside a run that has the token and no lock, there is no lock in the process. -/
theorem State.Slots.lock_eq_none (h : s.Slots) (hbusy : (s.phase p i).busy = true)
    (hlock : (s.phase p i).lock = none) (j : ℕ) : (s.phase p j).lock = none := by
  by_contra hj
  exact hj (h.one p j i (Phase.busy_of_lock hj) hbusy ▸ hlock)

theorem State.Held.lock_eq_none (h : s.Held) (hunlocking : (s.phase p i).unlocking = true)
    (j : ℕ) : (s.phase p j).lock = none := by
  by_contra hj
  exact Bool.false_ne_true ((h.apart p j i hj).symm.trans hunlocking)

/-- A step of a run that does not get a lock. -/
theorem State.Held.move (h : s.Held) {phase : Phase} {s' : State}
    (hphase : s'.phase = (s.move p i phase).phase)
    (howner : ∀ q lease, s.owner lease = some q → s'.owner lease = some q)
    (hlease : ∀ lease, phase.lease = some lease → s'.owner lease = some p)
    (hentry : ∀ q lease, s'.entry q = some lease → s'.owner lease = some q)
    (hpath : ∀ q j lease, (s.phase q j).lock = some lease → s'.path = s.path)
    (hlock : ∀ lease, phase.lock = some lease → (s.phase p i).lock = some lease)
    (hunlocking : phase.unlocking = true → ∀ j, (s.phase p j).lock = none) : s'.Held := by
  have hsome {q j : ℕ} {lease : LeaseID} (hl : (s'.phase q j).lock = some lease) :
      (s.phase q j).lock = some lease := by
    rw [hphase, phase_move] at hl
    split at hl
    · next heq => exact heq.1 ▸ heq.2 ▸ hlock lease hl
    · exact hl
  refine ⟨fun q j lease hl ↦ ?_, hentry, fun q j lease hl ↦ ?_, fun q j k hl ↦ ?_⟩
  · rw [hphase, phase_move] at hl
    split at hl
    · next heq => exact heq.1 ▸ hlease lease hl
    · exact howner q lease (h.own q j lease hl)
  · rw [hpath q j lease (hsome hl)]
    exact h.locked q j lease (hsome hl)
  · obtain ⟨lease, hl⟩ := Option.ne_none_iff_exists'.mp hl
    have hne : (s.phase q j).lock ≠ none := by simp [hsome hl]
    rw [hphase, phase_move]
    split
    · next heq =>
      obtain ⟨rfl, rfl⟩ := heq
      by_contra htrue
      exact hne (hunlocking (Bool.not_eq_false _ ▸ htrue) j)
    · exact h.apart q j k hne

theorem State.Held.entered_setEntry (h : s.Held) {entry : Option LeaseID}
    (hentry : ∀ lease, entry = some lease → s.owner lease = some p) (q : ℕ) (lease : LeaseID)
    (hq : (s.setEntry p entry).entry q = some lease) : s.owner lease = some q := by
  change Function.update s.entry p entry q = some lease at hq
  by_cases heq : q = p
  · subst heq
    rw [Function.update_self] at hq
    exact hentry lease hq
  · rw [Function.update_of_ne heq] at hq
    exact h.entered q lease hq

/-- The same for a step that changes nothing but the phase and the token. -/
theorem State.Held.step (h : s.Held) {phase : Phase} {s' : State}
    (hphase : s'.phase = (s.move p i phase).phase)
    (hrest : s'.owner = s.owner ∧ s'.entry = s.entry ∧ s'.path = s.path)
    (hlease : ∀ lease, phase.lease = some lease → s.owner lease = some p)
    (hlock : phase.lock = none)
    (hunlocking : phase.unlocking = true → ∀ j, (s.phase p j).lock = none) : s'.Held := by
  obtain ⟨howner, hentry, hpath⟩ := hrest
  refine h.move hphase (fun q lease ho ↦ howner ▸ ho) (fun lease hl ↦ howner ▸ hlease lease hl)
    (fun q lease he ↦ ?_) (fun _ _ _ _ ↦ hpath) (fun lease hl ↦ ?_) hunlocking
  · rw [howner]
    exact h.entered q lease (hentry ▸ he)
  · rw [hlock] at hl
    cases hl

theorem State.Held.lapse (h : s.Held) {lease : LeaseID}
    (hlease : ∀ p i, (s.phase p i).lock ≠ some lease) : (s.lapse lease).Held where
  own := h.own
  entered := h.entered
  locked p i other hl := by
    have hne : other ≠ lease := by
      rintro rfl
      exact hlease p i hl
    simp [State.lapse, h.locked p i other hl, hne]
  apart := h.apart

/-- The transaction of `Lock` has put the key, so there was none and no run had a lock. -/
theorem State.Held.acquire (h : s.Held) {lease : LeaseID} {phase : Phase}
    (hphase : s.phase p i = .granted lease) (hpath : s.path = none)
    (hacquired : phase = .acquired lease ∨ phase = .failed)
    (halone : ∀ j, (s.phase p j).unlocking = false) :
    { s.move p i phase with path := some (p, lease) }.Held := by
  have hnone (q j : ℕ) : (s.phase q j).lock = none := by
    by_contra hne
    obtain ⟨other, hother⟩ := Option.ne_none_iff_exists'.mp hne
    exact Option.some_ne_none _ ((h.locked q j other hother).symm.trans hpath)
  have hself {q j : ℕ} (hl : (if q = p ∧ j = i then phase else s.phase q j).lock ≠ none) :
      q = p ∧ phase = .acquired lease := by
    split at hl
    · next heq =>
      obtain rfl | rfl := hacquired
      · exact ⟨heq.1, rfl⟩
      · exact absurd rfl hl
    · exact absurd (hnone q j) hl
  refine ⟨fun q j other hl ↦ ?_, h.entered, fun q j other hl ↦ ?_, fun q j k hl ↦ ?_⟩
  · change (if q = p ∧ j = i then phase else s.phase q j).lease = some other at hl
    split at hl
    · next heq =>
      obtain ⟨rfl, rfl⟩ := heq
      obtain rfl | rfl := hacquired
      · exact h.own q j other (hphase ▸ hl)
      · cases hl
    · exact h.own q j other hl
  · change (if q = p ∧ j = i then phase else s.phase q j).lock = some other at hl
    obtain ⟨rfl, rfl⟩ := hself (by rw [hl]; exact Option.some_ne_none _)
    split at hl
    · cases hl
      rfl
    · rw [hnone] at hl
      cases hl
  · obtain ⟨rfl, rfl⟩ := hself hl
    change (if q = q ∧ k = i then _ else s.phase q k).unlocking = false
    split
    · rfl
    · exact halone k

theorem held_step (s : State) (a : Act) (h : s.Slots ∧ s.Held) (hcalm : Calm s a) :
    (step s a).Held := by
  obtain ⟨hslots, h⟩ := h
  cases a with
  | expire lease => exact h.lapse hcalm
  | abort p => exact ⟨h.own, h.entered_setEntry nofun, h.locked, h.apart⟩
  | fire p i =>
    simp only [step]
    split
    · split
      · exact h.step rfl ⟨rfl, rfl, rfl⟩ nofun rfl nofun
      · exact h
    · exact h
  | grant p i answer =>
    simp only [step]
    split
    · next lease _ =>
      split
      · exact h
      · next hfresh =>
        have howner (q : ℕ) (other : LeaseID) (ho : s.owner other = some q) :
            Function.update s.owner lease (some p) other = some q := by
          rw [Function.update_of_ne, ho]
          rintro rfl
          exact hfresh (Or.inr (by simp [ho]))
        refine h.move (show _ = (s.move p i (.granted lease)).phase from rfl) howner
          (fun other hl ↦ ?_) (fun q other he ↦ howner q other (h.entered q other he))
          (fun _ _ _ _ ↦ rfl) nofun nofun
        cases hl
        exact Function.update_self _ _ _
    · exact h.step rfl ⟨rfl, rfl, rfl⟩ nofun rfl nofun
    · exact h
  | txn p i executed answered =>
    simp only [step]
    split
    · next lease hphase =>
      split
      · next hputs =>
        have hpath : s.path = none := by
          simp only [State.puts, Bool.and_eq_true, Option.isNone_iff_eq_none] at hputs
          exact hputs.2
        exact h.acquire hphase hpath (by cases answered <;> simp) (hcalm lease hphase hputs)
      · exact h.step rfl ⟨rfl, rfl, rfl⟩ nofun rfl nofun
    · exact h
  | set p i =>
    simp only [step]
    split
    · next lease hphase =>
      have hown : s.owner lease = some p := h.own p i lease (hphase ▸ rfl)
      have hentry (other : LeaseID) (he : some lease = some other) : s.owner other = some p := by
        cases he
        exact hown
      exact h.move (show _ = (s.move p i (.running lease)).phase from rfl) (fun _ _ ho ↦ ho) hentry
        (h.entered_setEntry hentry) (fun _ _ _ _ ↦ rfl) (fun other hl ↦ hphase ▸ hl) nofun
    · exact h
  | giveBack p i =>
    simp only [step]
    split
    · exact h.step rfl ⟨rfl, rfl, rfl⟩ nofun rfl nofun
    · exact h
  | finish p i =>
    simp only [step]
    split
    · exact h.step rfl ⟨rfl, rfl, rfl⟩ nofun rfl nofun
    · exact h
  | release p i =>
    simp only [step]
    split
    · next hphase =>
      exact h.step rfl ⟨rfl, rfl, rfl⟩ nofun rfl fun _ ↦
        hslots.lock_eq_none (i := i) (hphase ▸ rfl) (hphase ▸ rfl)
    · exact h
  | get p i =>
    simp only [step]
    split
    · next hphase =>
      split
      · next lease hentry =>
        refine h.step rfl ⟨rfl, rfl, rfl⟩ (fun other hl ↦ ?_) rfl fun _ ↦
          h.lock_eq_none (i := i) (hphase ▸ rfl)
        cases hl
        exact h.entered p lease hentry
      · exact h.step rfl ⟨rfl, rfl, rfl⟩ nofun rfl nofun
    · exact h
  | remove p i =>
    simp only [step]
    split
    · next lease hphase =>
      have hown : s.owner lease = some p := h.own p i lease (hphase ▸ rfl)
      refine h.move rfl (fun _ _ ho ↦ ho) (fun other hl ↦ ?_) (h.entered_setEntry nofun)
        (fun _ _ _ _ ↦ rfl) (fun other hl ↦ ?_) fun _ ↦ h.lock_eq_none (i := i) (hphase ▸ rfl)
      · split at hl
        · cases hl
          exact hown
        · cases hl
      · split at hl <;> cases hl
    · exact h
  | revoke p i executed =>
    simp only [step]
    split
    · next lease hphase =>
      have hnone := h.lock_eq_none (p := p) (i := i) (hphase ▸ rfl)
      have hlapse : (if executed then s.lapse lease else s).Held := by
        split
        · -- the lease is one of this process, in which no run has a lock
          refine h.lapse fun q j hl ↦ ?_
          have hown : s.owner lease = some p := h.own p i lease (hphase ▸ rfl)
          cases (h.own q j lease (Phase.lease_of_lock hl)).symm.trans hown
          rw [hnone] at hl
          cases hl
        · exact h
      exact hlapse.step rfl ⟨rfl, rfl, rfl⟩ nofun rfl fun _ ↦ by split <;> exact hnone
    · exact h
  | delete p i executed =>
    simp only [step]
    split
    · next hphase =>
      have hnone := h.lock_eq_none (p := p) (i := i) (hphase ▸ rfl)
      refine h.move (show _ = (s.move p i .idle).phase from rfl) (fun _ _ ho ↦ ho) nofun h.entered
        (fun q j lease hl ↦ ?_) nofun nofun
      have hne : q ≠ p := by
        rintro rfl
        rw [hnone] at hl
        cases hl
      simp [h.locked q j lease hl, hne]
    · exact h

/-- The extension handles the event of the run. -/
def Phase.runs : Phase → Bool
  | .running _ => true
  | .idle | .granting | .granted _ | .acquired _ | .failed | .returning | .getting | .removing _
  | .revoking _ | .deleting => false

theorem Phase.lock_of_runs {phase : Phase} (h : phase.runs = true) : phase.lock ≠ none := by
  cases phase with
  | running lease => exact Option.some_ne_none lease
  | idle | granting | granted | acquired | failed | returning | getting | removing | revoking
  | deleting => cases h

/-- **In a calm run the job runs once in the cluster**, in one process and once there. -/
theorem exclusive_of_run (acts : List Act) (hcalm : Machine.Along step Calm State.start acts) :
    ∀ s ∈ Machine.states step State.start acts, ∀ p i q j,
      (s.phase p i).runs = true → (s.phase q j).runs = true → p = q ∧ i = j := by
  intro s hs p i q j hi hj
  have hstep (s : State) (a : Act) (h : s.Slots ∧ s.Held) (hok : Calm s a) :
      (step s a).Slots ∧ (step s a).Held := ⟨slots_step s a h.1, held_step s a h hok⟩
  obtain ⟨hslots, h⟩ := Machine.invariant_of_along hstep ⟨slots_start, held_start⟩ hcalm s hs
  have hpq : p = q := by
    obtain ⟨lease, hl⟩ := Option.ne_none_iff_exists'.mp (Phase.lock_of_runs hi)
    obtain ⟨other, hother⟩ := Option.ne_none_iff_exists'.mp (Phase.lock_of_runs hj)
    cases (h.locked p i lease hl).symm.trans (h.locked q j other hother)
    rfl
  subst hpq
  exact ⟨rfl, hslots.one p i j (Phase.busy_of_lock (Phase.lock_of_runs hi))
    (Phase.busy_of_lock (Phase.lock_of_runs hj))⟩

/-- The job is over, and the lock is released. -/
def unlock (p i : ℕ) : List Act :=
  [.finish p i, .release p i, .get p i, .remove p i, .revoke p i true, .delete p i true]

/-- Two processes run the job one after the other, and then it is the second. -/
theorem exclusive_of_run_inTurn :
    ∃ s ∈ Machine.states step State.start (lockWith 1 0 7 ++ unlock 1 0 ++ lockWith 2 0 8),
      (s.phase 2 0).runs = true ∧ ∀ p i, (s.phase p i).runs = true → p = 2 ∧ i = 0 := by
  have hcalm : Machine.Along step Calm State.start
      (lockWith 1 0 7 ++ unlock 1 0 ++ lockWith 2 0 8) := by
    simp only [lockWith, unlock, List.cons_append, List.nil_append, Machine.Along, Calm, true_and,
      and_true]
    refine ⟨fun lease _ _ j ↦ ?_, fun lease _ _ j ↦ ?_⟩
    · cases j <;> rfl
    · cases j <;> rfl
  have hruns : ((Machine.final step State.start
      (lockWith 1 0 7 ++ unlock 1 0 ++ lockWith 2 0 8)).phase 2 0).runs = true := by decide
  refine ⟨_, Machine.final_mem_states _ _, hruns, fun p i hi ↦ ?_⟩
  exact exclusive_of_run _ hcalm _ (Machine.final_mem_states _ _) p i 2 0 hi hruns

/-- A run of the first process takes the lock between the two requests of an earlier one which
unlock it.  The second of these deletes the key, and another process runs the job as well. -/
theorem not_exclusive :
    let s := Machine.final step State.start
      (lockWith 1 0 7 ++ [.finish 1 0, .release 1 0, .get 1 0, .remove 1 0, .revoke 1 0 true] ++
        lockWith 1 1 8 ++ [.delete 1 0 true] ++ lockWith 2 0 9)
    (s.phase 1 1).runs = true ∧ (s.phase 2 0).runs = true := by
  decide

end Gohan.Cron
