import Mathlib.Logic.Function.Basic
import Mathlib.Data.List.Basic
import Gohan.Logic.Machine

/-!
# The lock of a path

`Lock` puts the path in etcd, with a lease, if it is not there, and enters the lease into the table
`locks` under the path.  It leaves a goroutine behind that keeps the lease alive for as long as
there is an entry.  When there is none, or a refresh fails, the goroutine closes the channel `lost`
and runs `abortLock`, which removes the entry.  `Unlock` runs `abortLock` too, and it is by the
missing entry that the goroutine is to learn of it.

But it looks only every few seconds, and what it looks for is an entry, not its own.  If the path is
locked again in the meantime, the goroutine of the earlier lock finds the entry of the new one, goes
on to refresh a lease that has been revoked, and removes the entry (`not_kept`).  The process then
owns the lock in etcd and `HasLock` denies it; and the goroutine of the new lock, which finds no
entry, ends as well and reports the lock as lost.

`kept_iff` says that nothing else goes wrong, and `kept_of_quiet` that a process which waits for the
goroutine of a lock before it locks the path again is safe.
-/

set_option autoImplicit false

namespace Gohan.Etcd.Lock

/-! ## etcd -/

/-- The number of a lease. -/
abbrev LeaseID := ℕ

/-- Whose value is stored under the path. -/
inductive Owner where
  /-- This process, with a lease. -/
  | self (lease : LeaseID)
  | other
  deriving DecidableEq

/-- What etcd knows: the leases of this process, and the owner of the path. -/
structure Server where
  /-- The leases that this process has been granted so far. -/
  granted : List LeaseID
  /-- Those that are neither revoked nor expired. -/
  alive : List LeaseID
  path : Option Owner

/-- A lease is gone, and what was put with it. -/
def Server.lapse (server : Server) (lease : LeaseID) : Server where
  granted := server.granted
  alive := server.alive.filter (· ≠ lease)
  path := if server.path = some (.self lease) then none else server.path

/-- Another process locks the path, or unlocks it. -/
def Server.foreign (server : Server) : Bool → Server
  | true => if server.path = none then { server with path := some .other } else server
  | false => if server.path = some .other then { server with path := none } else server

@[simp] theorem Server.granted_foreign (server : Server) (locks : Bool) :
    (server.foreign locks).granted = server.granted := by
  cases locks <;> simp only [Server.foreign] <;> split <;> rfl

/-! ## The process -/

/-- Where the goroutine of a lock is. -/
inductive Phase where
  /-- It is about to call `HasLock`. -/
  | checking
  | refreshing
  | sleeping
  /-- It has left the loop, and `lost` is to be closed. -/
  | closing
  /-- In `abortLock`, before the table is read. -/
  | getting
  /-- In `abortLock`, and there was an entry. -/
  | removing
  | ended
  deriving DecidableEq

/-- The goroutine is in its loop. -/
def Phase.running : Phase → Bool
  | .checking | .refreshing | .sleeping => true
  | .closing | .getting | .removing | .ended => false

/-- The goroutine that keeps a lease alive. -/
structure Goroutine where
  phase : Phase
  /-- The channel is closed. -/
  lost : Bool
  /-- For the record: a refresh has failed. -/
  refused : Bool

/-- Where the process is in a call of `Lock` or `Unlock`. -/
inductive Call where
  | none
  | granting
  | granted (lease : LeaseID)
  /-- The transaction has succeeded. -/
  | acquired (lease : LeaseID)
  /-- `Lock` will try again if it is to block. -/
  | failed
  /-- `Unlock`, in `abortLock` before the table is read. -/
  | getting
  /-- `Unlock`, in `abortLock`, and there was an entry. -/
  | removing (lease : LeaseID)
  | revoking (lease : LeaseID)
  | deleting

/-- The call is one of `Unlock`. -/
def Call.unlocking : Call → Bool
  | .getting | .removing _ | .revoking _ | .deleting => true
  | .none | .granting | .granted _ | .acquired _ | .failed => false

/-- The lease that is to be entered into the table. -/
def Call.lease : Call → Option LeaseID
  | .granted lease | .acquired lease => some lease
  | .none | .granting | .failed | .getting | .removing _ | .revoking _ | .deleting => Option.none

/-- etcd and this process, for one path. -/
structure State where
  server : Server
  /-- The entry of the path in the table `locks`. -/
  entry : Option LeaseID
  call : Call
  /-- The goroutine that keeps a lease alive. -/
  goroutine : LeaseID → Option Goroutine
  /-- For the record: the lease of the last `Lock` that has succeeded, until `Unlock` is called. -/
  last : Option LeaseID

/-- Nobody has locked the path yet. -/
def State.start : State where
  server := ⟨[], [], none⟩
  entry := none
  call := .none
  goroutine _ := none
  last := none

/-- What can happen at any point of a run. -/
inductive Act where
  | expire (lease : LeaseID)
  /-- Another process locks the path, or unlocks it. -/
  | foreign (locks : Bool)
  /-- `Lock` is called. -/
  | lock
  /-- The answer of `Grant`, if there is one. -/
  | grant (answer : Option LeaseID)
  /-- The transaction of `Lock`, which need not be executed nor its answer arrive. -/
  | txn (executed answered : Bool)
  /-- The lease is entered into the table, and the goroutine is started. -/
  | set
  /-- `Lock` tries again. -/
  | retry
  /-- `Lock` returns an error. -/
  | fail
  /-- `Unlock` is called. -/
  | unlock
  | get
  | remove
  | revoke (executed : Bool)
  | delete (executed : Bool)
  /-- `HasLock`, in the loop of a goroutine. -/
  | check (lease : LeaseID)
  /-- `KeepAliveOnce`. -/
  | refresh (lease : LeaseID) (answered : Bool)
  | wake (lease : LeaseID)
  /-- `close(lost)`. -/
  | close (lease : LeaseID)
  | abortGet (lease : LeaseID)
  | abortRemove (lease : LeaseID)

namespace State

/-- `HasLock`. -/
def hasLock (s : State) : Bool := s.entry.isSome

/-- The goroutine of a lease is replaced. -/
def setGoroutine (s : State) (lease : LeaseID) (g : Goroutine) : State :=
  { s with goroutine := Function.update s.goroutine lease (some g) }

end State

/-- A step of the goroutine of a lease, when it is in the phase. -/
def onPhase (s : State) (lease : LeaseID) (phase : Phase) (next : Goroutine → State) : State :=
  match s.goroutine lease with
  | some g => if g.phase = phase then next g else s
  | none => s

/-- One step. -/
def step (s : State) : Act → State
  | .expire lease => { s with server := s.server.lapse lease }
  | .foreign locks => { s with server := s.server.foreign locks }
  | .lock =>
    match s.call with
    | .none => { s with call := .granting }
    | _ => s
  | .grant answer =>
    match s.call, answer with
    | .granting, some lease =>
      if s.server.granted.contains lease = true ∨ lease = 0 then s
      else { s with
        call := .granted lease
        server := { s.server with
          granted := lease :: s.server.granted
          alive := lease :: s.server.alive } }
    | .granting, none => { s with call := .failed }
    | _, _ => s
  | .txn executed answered =>
    match s.call with
    | .granted lease =>
      if executed ∧ s.server.alive.contains lease ∧ s.server.path = none then
        { s with
          call := if answered then .acquired lease else .failed
          server := { s.server with path := some (.self lease) } }
      else { s with call := .failed }
    | _ => s
  | .set =>
    match s.call with
    | .acquired lease =>
      { s.setGoroutine lease ⟨.checking, false, false⟩ with
        call := .none
        entry := some lease
        last := some lease }
    | _ => s
  | .retry =>
    match s.call with
    | .failed => { s with call := .granting }
    | _ => s
  | .fail =>
    match s.call with
    | .failed => { s with call := .none }
    | _ => s
  | .unlock =>
    match s.call with
    | .none => { s with call := .getting, last := none }
    | _ => s
  | .get =>
    match s.call with
    | .getting =>
      match s.entry with
      | some lease => { s with call := .removing lease }
      | none => { s with call := .none }
    | _ => s
  | .remove =>
    match s.call with
    | .removing lease =>
      { s with entry := none, call := if 0 < lease then .revoking lease else .none }
    | _ => s
  | .revoke executed =>
    match s.call with
    | .revoking lease =>
      { s with
        call := .deleting
        server := if executed then s.server.lapse lease else s.server }
    | _ => s
  | .delete executed =>
    match s.call with
    | .deleting =>
      { s with
        call := .none
        server := { s.server with
          path := if executed ∧ s.server.path ≠ some .other then none else s.server.path } }
    | _ => s
  | .check lease => onPhase s lease .checking fun g ↦
      s.setGoroutine lease { g with phase := if s.hasLock then .refreshing else .closing }
  | .refresh lease answered => onPhase s lease .refreshing fun g ↦
      if answered ∧ s.server.alive.contains lease then
        s.setGoroutine lease { g with phase := .sleeping }
      else s.setGoroutine lease { g with phase := .closing, refused := true }
  | .wake lease => onPhase s lease .sleeping fun g ↦
      s.setGoroutine lease { g with phase := .checking }
  | .close lease => onPhase s lease .closing fun g ↦
      s.setGoroutine lease { g with phase := .getting, lost := true }
  | .abortGet lease => onPhase s lease .getting fun g ↦
      s.setGoroutine lease { g with phase := if s.hasLock then .removing else .ended }
  | .abortRemove lease => onPhase s lease .removing fun g ↦
      { s.setGoroutine lease { g with phase := .ended } with entry := none }

/-! ## What is to hold -/

/-- The lease is that of the last `Lock`, which has succeeded and has not been unlocked, and all its
refreshes have succeeded. -/
def State.Holds (s : State) (lease : LeaseID) : Prop :=
  s.last = some lease ∧ ∀ g, s.goroutine lease = some g → g.refused = false

/-- Then `HasLock` holds, by an entry with this lease, and the channel is not closed. -/
def State.Kept (s : State) : Prop :=
  ∀ lease, s.Holds lease → s.hasLock = true ∧ s.entry = some lease ∧
    ∀ g, s.goroutine lease = some g → g.lost = false

/-- A goroutine that is about to remove the entry is not beside a lock that is held with another
lease. -/
def Alone (s : State) (a : Act) : Prop :=
  ∀ lease g, a = .abortRemove lease → s.goroutine lease = some g → g.phase = .removing →
    ∀ other, s.Holds other → other = lease

/-! ## What every step preserves -/

/-- What holds in every run: the entry is that of the lock which is held, and its goroutine runs. -/
structure Inv (s : State) : Prop where
  entered : ∀ lease, s.Holds lease → s.entry = some lease
  /-- The goroutine of the last lock leaves its loop only when a refresh fails. -/
  running : ∀ lease, s.last = some lease → ∃ g, s.goroutine lease = some g ∧
    (g.refused = false → g.phase.running = true ∧ g.lost = false)
  unlocking : s.call.unlocking = true → s.last = none
  fresh : ∀ lease, s.call.lease = some lease → s.goroutine lease = none
  granted : ∀ lease, s.call.lease = some lease ∨ s.goroutine lease ≠ none →
    lease ∈ s.server.granted

theorem inv_start : Inv State.start where
  entered := nofun
  running := nofun
  unlocking := nofun
  fresh := nofun
  granted lease h := by simp [State.start, Call.lease] at h

variable {s : State}

theorem State.holds_iff {lease : LeaseID} {g : Goroutine} (hgor : s.goroutine lease = some g) :
    s.Holds lease ↔ s.last = some lease ∧ g.refused = false := by
  simp [State.Holds, hgor]

/-- The goroutine of the last lock, as long as no refresh of it has failed. -/
theorem Inv.running_of_holds (h : Inv s) {lease : LeaseID} {g : Goroutine}
    (hgor : s.goroutine lease = some g) (hholds : s.Holds lease) :
    g.phase.running = true ∧ g.lost = false := by
  obtain ⟨g', hg', hrun⟩ := h.running lease hholds.1
  obtain rfl : g = g' := Option.some.inj (hgor.symm.trans hg')
  exact hrun (hholds.2 g hgor)

theorem Inv.not_holds (h : Inv s) {lease : LeaseID} {g : Goroutine}
    (hgor : s.goroutine lease = some g) (hphase : g.phase.running = false) : ¬s.Holds lease :=
  fun hholds ↦ Bool.false_ne_true (hphase.symm.trans (h.running_of_holds hgor hholds).1)

theorem Inv.kept (h : Inv s) : s.Kept := by
  intro lease hholds
  have hentry := h.entered lease hholds
  refine ⟨?_, hentry, fun g hgor ↦ (h.running_of_holds hgor hholds).2⟩
  rw [State.hasLock, hentry, Option.isSome_some]

/-- A step of etcd, or of a call that does not touch the table. -/
theorem Inv.call (h : Inv s) {call : Call} {server : Server}
    (hunlocking : call.unlocking = false ∨ s.last = none)
    (hlease : ∀ lease, call.lease = some lease →
      s.goroutine lease = none ∧ lease ∈ server.granted)
    (hgranted : ∀ lease ∈ s.server.granted, lease ∈ server.granted) :
    Inv { s with call, server } where
  entered := h.entered
  running := h.running
  unlocking hu := hunlocking.resolve_left (Bool.not_eq_false _ ▸ hu)
  fresh lease hcall := (hlease lease hcall).1
  granted lease hor :=
    hor.elim (fun hcall ↦ (hlease lease hcall).2) fun hgor ↦
      hgranted lease (h.granted lease (Or.inr hgor))

/-- The same for a call that has no lease. -/
theorem Inv.callWithout (h : Inv s) {call : Call} (hlease : call.lease = none)
    (hunlocking : call.unlocking = false ∨ s.call.unlocking = true) {server : Server}
    (hgranted : server.granted = s.server.granted) : Inv { s with call, server } :=
  h.call (hunlocking.imp_right h.unlocking) (fun _ hcall ↦ by simp [hlease] at hcall)
    fun _ hmem ↦ hgranted ▸ hmem

theorem Inv.server (h : Inv s) {server : Server} (hgranted : server.granted = s.server.granted) :
    Inv { s with server } where
  entered := h.entered
  running := h.running
  unlocking := h.unlocking
  fresh := h.fresh
  granted lease hor := hgranted ▸ h.granted lease hor

/-- A step of a goroutine, which leaves the table as it is when a lock is held. -/
theorem Inv.setGoroutine (h : Inv s) {lease : LeaseID} {g g' : Goroutine}
    {entry : Option LeaseID} (hgor : s.goroutine lease = some g)
    (hrefused : g'.refused = false → g.refused = false)
    (hrun : s.Holds lease → g'.phase.running = true ∧ g'.lost = false ∨ g'.refused = true)
    (hentry : ∀ other, s.Holds other → entry = s.entry) :
    Inv { s.setGoroutine lease g' with entry } := by
  have hother {other : LeaseID} (hne : other ≠ lease) :
      { s.setGoroutine lease g' with entry }.goroutine other = s.goroutine other :=
    Function.update_of_ne hne _ _
  have hself : { s.setGoroutine lease g' with entry }.goroutine lease = some g' :=
    Function.update_self _ _ _
  refine ⟨fun other hnew ↦ ?_, fun other hlast ↦ ?_, h.unlocking, fun other hcall ↦ ?_,
    fun other hor ↦ h.granted other (hor.imp_right fun hne ↦ ?_)⟩
  · have hold : s.Holds other := by
      by_cases heq : other = lease
      · subst heq
        obtain ⟨hlast, hnone⟩ := (State.holds_iff hself).mp hnew
        exact (State.holds_iff hgor).mpr ⟨hlast, hrefused hnone⟩
      · exact ⟨hnew.1, fun g₀ hg₀ ↦ hnew.2 g₀ ((hother heq).trans hg₀)⟩
    exact (hentry other hold).trans (h.entered other hold)
  · by_cases heq : other = lease
    · subst heq
      refine ⟨g', hself, fun hnone ↦ ?_⟩
      have hold : s.Holds other := (State.holds_iff hgor).mpr ⟨hlast, hrefused hnone⟩
      exact (hrun hold).resolve_right (by simp [hnone])
    · rw [hother heq]
      exact h.running other hlast
  · have hne : other ≠ lease := by
      rintro rfl
      exact Option.some_ne_none g (hgor.symm.trans (h.fresh other hcall))
    exact (hother hne).trans (h.fresh other hcall)
  · by_cases heq : other = lease
    · subst heq
      simp [hgor]
    · rwa [hother heq] at hne

/-- A step of a goroutine in some phase, under what is known of it there. -/
theorem Inv.onPhase (h : Inv s) (lease : LeaseID) (phase : Phase) {next : Goroutine → State}
    (hnext : ∀ g, s.goroutine lease = some g → g.phase = phase → Inv (next g)) :
    Inv (onPhase s lease phase next) := by
  simp only [Lock.onPhase]
  split
  next g hgor =>
    split
    next hphase => exact hnext g hgor hphase
    next => exact h
  next => exact h

theorem Inv.set (h : Inv s) {lease : LeaseID} (hcall : s.call = .acquired lease) :
    Inv { s.setGoroutine lease ⟨.checking, false, false⟩ with
      call := .none, entry := some lease, last := some lease } where
  entered other hnew := hnew.1
  running other hlast := by
    cases hlast
    exact ⟨_, Function.update_self _ _ _, fun _ ↦ ⟨rfl, rfl⟩⟩
  unlocking := nofun
  fresh := nofun
  granted other hor := by
    by_cases heq : other = lease
    · exact h.granted other (Or.inl (by rw [hcall, heq]; rfl))
    · refine h.granted other (Or.inr fun hnone ↦ ?_)
      refine hor.elim nofun fun hne ↦ hne ?_
      exact (Function.update_of_ne heq _ _).trans hnone

theorem Inv.withoutEntry (h : Inv s) (hlast : s.last = none) : Inv { s with entry := none } where
  entered _ hholds := absurd (hlast.symm.trans hholds.1) nofun
  running := h.running
  unlocking := h.unlocking
  fresh := h.fresh
  granted := h.granted

theorem Inv.unlock (h : Inv s) : Inv { s with call := .getting, last := none } where
  entered := nofun
  running := nofun
  unlocking _ := rfl
  fresh := nofun
  granted lease hor := h.granted lease (Or.inr (hor.resolve_left nofun))

/-- **Every step, if no goroutine removes the entry of another lock that is held.** -/
theorem inv_step (s : State) (a : Act) (h : Inv s) (halone : Alone s a) : Inv (step s a) := by
  cases a with
  | expire lease => exact h.server rfl
  | «foreign» locks =>
    exact h.server (s.server.granted_foreign locks)
  | lock =>
    simp only [step]
    split
    · exact h.callWithout rfl (Or.inl rfl) rfl
    · exact h
  | grant answer =>
    simp only [step]
    split
    next lease _ =>
      split
      next => exact h
      next hnew =>
        rw [not_or, Bool.not_eq_true] at hnew
        refine h.call (Or.inl rfl) (fun other hother ↦ ?_)
          fun other hmem ↦ List.mem_cons_of_mem _ hmem
        obtain rfl : lease = other := Option.some.inj hother
        refine ⟨?_, List.mem_cons_self⟩
        by_contra hne
        have hmem := h.granted lease (Or.inr hne)
        simp [hmem] at hnew
    next => exact h.callWithout rfl (Or.inl rfl) rfl
    next => exact h
  | txn executed answered =>
    simp only [step]
    split
    next lease hcall =>
      split
      next =>
        have hfresh := h.fresh lease (by rw [hcall]; rfl)
        have hmem := h.granted lease (Or.inl (by rw [hcall]; rfl))
        cases answered with
        | false => exact h.callWithout rfl (Or.inl rfl) rfl
        | true =>
          refine h.call (Or.inl rfl) (fun other hother ↦ ?_) fun other hmem ↦ hmem
          obtain rfl : lease = other := Option.some.inj hother
          exact ⟨hfresh, hmem⟩
      next => exact h.callWithout rfl (Or.inl rfl) rfl
    next => exact h
  | set =>
    simp only [step]
    split
    next lease hcall => exact h.set hcall
    next => exact h
  | retry =>
    simp only [step]
    split
    · exact h.callWithout rfl (Or.inl rfl) rfl
    · exact h
  | fail =>
    simp only [step]
    split
    · exact h.callWithout rfl (Or.inl rfl) rfl
    · exact h
  | unlock =>
    simp only [step]
    split
    · exact h.unlock
    · exact h
  | get =>
    simp only [step]
    split
    next hcall =>
      have hunlocking : s.call.unlocking = true := by rw [hcall]; rfl
      split
      · exact h.callWithout rfl (Or.inr hunlocking) rfl
      · exact h.callWithout rfl (Or.inl rfl) rfl
    next => exact h
  | remove =>
    simp only [step]
    split
    next lease hcall =>
      have hlast : s.last = none := h.unlocking (by rw [hcall]; rfl)
      split
      · exact (h.withoutEntry hlast).callWithout rfl (Or.inr (by rw [hcall]; rfl)) rfl
      · exact (h.withoutEntry hlast).callWithout rfl (Or.inl rfl) rfl
    next => exact h
  | revoke executed =>
    simp only [step]
    split
    next lease hcall =>
      have hunlocking : s.call.unlocking = true := by rw [hcall]; rfl
      cases executed <;> exact h.callWithout rfl (Or.inr hunlocking) rfl
    next => exact h
  | delete executed =>
    simp only [step]
    split
    · exact h.callWithout rfl (Or.inl rfl) rfl
    · exact h
  | check lease =>
    refine h.onPhase lease .checking fun g hgor _ ↦
      h.setGoroutine hgor id (fun hholds ↦ Or.inl ?_) fun _ _ ↦ rfl
    have hhas : s.hasLock = true := (h.kept lease hholds).1
    exact ⟨by simp [hhas, Phase.running], (h.running_of_holds hgor hholds).2⟩
  | refresh lease answered =>
    refine h.onPhase lease .refreshing fun g hgor _ ↦ ?_
    split
    · exact h.setGoroutine hgor id
        (fun hholds ↦ Or.inl ⟨rfl, (h.running_of_holds hgor hholds).2⟩) fun _ _ ↦ rfl
    · exact h.setGoroutine hgor nofun (fun _ ↦ Or.inr rfl) fun _ _ ↦ rfl
  | wake lease =>
    exact h.onPhase lease .sleeping fun g hgor _ ↦ h.setGoroutine hgor id
      (fun hholds ↦ Or.inl ⟨rfl, (h.running_of_holds hgor hholds).2⟩) fun _ _ ↦ rfl
  | close lease =>
    exact h.onPhase lease .closing fun g hgor hphase ↦ h.setGoroutine hgor id
      (fun hholds ↦ absurd hholds (h.not_holds hgor (by rw [hphase]; rfl))) fun _ _ ↦ rfl
  | abortGet lease =>
    exact h.onPhase lease .getting fun g hgor hphase ↦ h.setGoroutine hgor id
      (fun hholds ↦ absurd hholds (h.not_holds hgor (by rw [hphase]; rfl))) fun _ _ ↦ rfl
  | abortRemove lease =>
    refine h.onPhase lease .removing fun g hgor hphase ↦ ?_
    have hnot : ¬s.Holds lease := h.not_holds hgor (by rw [hphase]; rfl)
    refine h.setGoroutine hgor id (fun hholds ↦ absurd hholds hnot) fun other hholds ↦ ?_
    exact absurd (halone lease g rfl hgor hphase other hholds ▸ hholds) hnot

/-- A goroutine that removes the entry of another lock that is held does harm. -/
theorem alone_of_kept (s : State) (a : Act) (_ : Inv s) (hkept : (step s a).Kept) :
    Alone s a := by
  rintro lease g rfl hgor hphase other hholds
  by_contra hne
  have hstep : step s (.abortRemove lease) =
      { s.setGoroutine lease { g with phase := .ended } with entry := none } := by
    simp [step, Lock.onPhase, hgor, hphase]
  rw [hstep] at hkept
  have hstill : { s.setGoroutine lease { g with phase := .ended } with
      entry := none }.Holds other :=
    ⟨hholds.1, fun g₀ hg₀ ↦ hholds.2 g₀ ((Function.update_of_ne hne _ _).symm.trans hg₀)⟩
  exact Option.some_ne_none other (hkept other hstill).2.1.symm

/-- **A lock that is held is given up only when the goroutine of another lock removes its
entry.** -/
theorem kept_iff (as : List Act) :
    (∀ t ∈ Machine.states step State.start as, t.Kept) ↔
      Machine.Along step Alone State.start as :=
  Machine.property_iff_along (fun _ ↦ Inv.kept) inv_step alone_of_kept inv_start

/-- The path is unlocked and locked again while the goroutine of the first lock sleeps. -/
theorem not_kept : ¬∀ as, ∀ t ∈ Machine.states step State.start as, t.Kept := by
  intro h
  have hkept := h [.lock, .grant (some 1), .txn true true, .set, .check 1, .refresh 1 true,
    .unlock, .get, .remove, .revoke true, .delete true,
    .lock, .grant (some 2), .txn true true, .set, .check 2, .refresh 2 true,
    .wake 1, .check 1, .refresh 1 true, .close 1, .abortGet 1, .abortRemove 1] _
    (Machine.final_mem_states _ _) 2 ⟨rfl, fun g hgor ↦ by cases hgor; rfl⟩
  exact absurd hkept.1 Bool.false_ne_true

/-! ## One goroutine at a time -/

/-- A lease is entered only when the goroutines of all earlier locks have ended. -/
def Quiet (s : State) (a : Act) : Prop :=
  a = .set → ∀ lease g, s.goroutine lease = some g → g.phase = .ended

/-- At most one goroutine has not ended, and it is that of the last lock. -/
def OneAtWork (s : State) : Prop :=
  ∃ latest, (∀ lease g, s.goroutine lease = some g → g.phase ≠ .ended → lease = latest) ∧
    ∀ lease, s.last = some lease → lease = latest

theorem OneAtWork.onPhase (h : OneAtWork s) (lease : LeaseID) (phase : Phase)
    (hphase : phase ≠ .ended) {next : Goroutine → State}
    (hnext : ∀ g, ∃ g', (next g).goroutine = Function.update s.goroutine lease (some g') ∧
      (next g).last = s.last) : OneAtWork (onPhase s lease phase next) := by
  obtain ⟨latest, hwork, hlast⟩ := h
  simp only [Lock.onPhase]
  split
  next g hgor =>
    split
    next hin =>
      obtain ⟨g', hupdate, hsame⟩ := hnext g
      have hlease : lease = latest := hwork lease g hgor (hin ▸ hphase)
      refine ⟨latest, fun other g₀ hg₀ hne ↦ ?_, hsame ▸ hlast⟩
      by_cases heq : other = lease
      · exact heq.trans hlease
      · rw [hupdate, Function.update_of_ne heq] at hg₀
        exact hwork other g₀ hg₀ hne
    next => exact ⟨latest, hwork, hlast⟩
  next => exact ⟨latest, hwork, hlast⟩

theorem oneAtWork_step (s : State) (a : Act) (h : OneAtWork s) (hquiet : Quiet s a) :
    OneAtWork (step s a) := by
  cases a with
  | expire lease => exact h
  | «foreign» locks => exact h
  | lock => simp only [step]; split <;> exact h
  | grant answer =>
    simp only [step]
    split
    · split <;> exact h
    · exact h
    · exact h
  | txn executed answered =>
    simp only [step]
    split
    · split <;> exact h
    · exact h
  | set =>
    simp only [step]
    split
    next lease _ =>
      refine ⟨lease, fun other g hgor hne ↦ ?_, fun other hlast ↦ (Option.some.inj hlast).symm⟩
      by_contra hother
      have hold : s.goroutine other = some g := (Function.update_of_ne hother _ _).symm.trans hgor
      exact hne (hquiet rfl other g hold)
    next => exact h
  | retry => simp only [step]; split <;> exact h
  | fail => simp only [step]; split <;> exact h
  | unlock =>
    simp only [step]
    split
    · obtain ⟨latest, hwork, -⟩ := h
      exact ⟨latest, hwork, nofun⟩
    · exact h
  | get =>
    simp only [step]
    split
    · split <;> exact h
    · exact h
  | remove => simp only [step]; split <;> exact h
  | revoke executed => simp only [step]; split <;> exact h
  | delete executed => simp only [step]; split <;> exact h
  | check lease => exact h.onPhase lease .checking nofun fun g ↦ ⟨_, rfl, rfl⟩
  | refresh lease answered =>
    refine h.onPhase lease .refreshing nofun fun g ↦ ?_
    split
    · exact ⟨_, rfl, rfl⟩
    · exact ⟨_, rfl, rfl⟩
  | wake lease => exact h.onPhase lease .sleeping nofun fun g ↦ ⟨_, rfl, rfl⟩
  | close lease => exact h.onPhase lease .closing nofun fun g ↦ ⟨_, rfl, rfl⟩
  | abortGet lease => exact h.onPhase lease .getting nofun fun g ↦ ⟨_, rfl, rfl⟩
  | abortRemove lease => exact h.onPhase lease .removing nofun fun g ↦ ⟨_, rfl, rfl⟩

/-- **It is enough to wait** for the goroutine of a lock before the path is locked again. -/
theorem kept_of_quiet {as : List Act} (h : Machine.Along step Quiet State.start as) :
    ∀ t ∈ Machine.states step State.start as, t.Kept := by
  have hstep (s : State) (a : Act) (hinv : Inv s ∧ OneAtWork s) (hquiet : Quiet s a) :
      Inv (step s a) ∧ OneAtWork (step s a) := by
    refine ⟨inv_step s a hinv.1 ?_, oneAtWork_step s a hinv.2 hquiet⟩
    obtain ⟨latest, hwork, hlast⟩ := hinv.2
    rintro lease g - hgor hphase other hholds
    exact (hlast other hholds.1).trans (hwork lease g hgor (by simp [hphase])).symm
  have hstart : OneAtWork State.start := ⟨0, nofun, nofun⟩
  exact fun t ht ↦ (Machine.invariant_of_along hstep ⟨inv_start, hstart⟩ h t ht).1.kept

end Gohan.Etcd.Lock
