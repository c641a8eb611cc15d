import Mathlib.Logic.Function.Basic
import Gohan.Logic.Machine

/-!
# The watchdog of a JavaScript event

`HandleEvent` of a JavaScript environment starts a goroutine that waits for three things: the client
disconnects, the time for the event is over, or the event has been handled.  In the first two cases
it puts a function that panics into a channel of the interpreter, which looks into this channel
before every statement, and it is gone.  In the third it is told so through a channel that has no
buffer.  The events of a request are handled one after the other by one interpreter.

Where no panic comes out of the Go functions that a script calls, an event only ever ends with what
its own watchdog has seen, and leaves neither an interrupt nor a transaction behind
(`outcomes_of_run`).  But a script that ends just after its watchdog has given up makes no statement
any more, and nobody is left to be told: the call hangs, with all transactions that the script has
left open.  `returns_iff_along` says of every run whether the event can still come to an end.
-/

set_option autoImplicit false

namespace Gohan.Otto

/-- What a watchdog gives up for. -/
inductive Reason where
  | timeout
  | disconnected
  deriving DecidableEq

/-- Where the goroutine is. -/
inductive Phase where
  | waiting
  /-- It is about to put its function into the channel. -/
  | givingUp (reason : Reason)
  | gone
  deriving DecidableEq

/-- What belongs to one call of `HandleEvent`. -/
structure Watchdog where
  phase : Phase
  /-- The timer is running. -/
  armed : Bool
  /-- The timer has expired. -/
  timedOut : Bool
  /-- The client has disconnected. -/
  disconnected : Bool

/-- Where `HandleEvent` is. -/
inductive Main where
  /-- No event is handled. -/
  | idle
  /-- The goroutine is started, and the context is converted by `ToValue`. -/
  | converting
  /-- In `gohan_handle_event`. -/
  | running
  /-- `successCh <- true`, after the script has ended with an exception or without. -/
  | sending (failed : Bool)
  deriving DecidableEq

/-- How an event can end. -/
inductive Outcome where
  /-- The error is that of the script, or there is none. -/
  | returned (failed : Bool)
  | gaveUp (reason : Reason)
  /-- The panic is none of this call, and it is raised again. -/
  | panicked
  deriving DecidableEq

/-- An environment. -/
structure State where
  /-- The number of the last call. -/
  call : ℕ
  main : Main
  watchdog : ℕ → Watchdog
  /-- What is in the channel of the interpreter: whose function it is, and why. -/
  interrupt : Option (ℕ × Reason)
  /-- `gohan_closers`, from which nothing is removed. -/
  closers : List ℕ
  /-- The transactions that have been begun and not been closed. -/
  opened : List ℕ
  outcomes : List (ℕ × Outcome)

/-- No event has been handled. -/
def State.start : State where
  call := 0
  main := .idle
  watchdog _ := ⟨.gone, false, false, false⟩
  interrupt := none
  closers := []
  opened := []
  outcomes := []

/-- What a statement does to transactions. -/
inductive Effect where
  | none
  | begin (tx : ℕ)
  /-- The script itself commits or closes it. -/
  | close (tx : ℕ)

/-- What can happen at any point of a run. -/
inductive Act where
  | handleEvent
  /-- The result of `ToValue`. -/
  | convert (ok : Bool)
  | expire (n : ℕ)
  | disconnect (n : ℕ)
  /-- The watchdog receives from one of the channels. -/
  | giveUp (n : ℕ) (reason : Reason)
  /-- It puts its function into the channel. -/
  | push (n : ℕ)
  /-- A statement is due: the interpreter looks into the channel first. -/
  | statement (effect : Effect)
  /-- A panic comes out of a function that the script has called. -/
  | panic (isError : Bool)
  | finish (failed : Bool)
  /-- The watchdog is told. -/
  | done

/-- What the watchdog has seen. -/
def Watchdog.saw (w : Watchdog) : Reason → Bool
  | .timeout => w.timedOut
  | .disconnected => w.disconnected

namespace State

/-- A watchdog is replaced. -/
def setWatchdog (s : State) (n : ℕ) (w : Watchdog) : State :=
  { s with watchdog := Function.update s.watchdog n w }

/-- A watchdog comes to another phase. -/
def setPhase (s : State) (n : ℕ) (phase : Phase) : State :=
  s.setWatchdog n { s.watchdog n with phase := phase }

/-- The call is over. -/
def leave (s : State) (outcome : Outcome) : State :=
  { s with main := .idle, outcomes := s.outcomes ++ [(s.call, outcome)] }

/-- The deferred function closes all that is in the list. -/
def close (s : State) : State := { s with opened := s.opened.filter (· ∉ s.closers) }

/-- What a script does to the transactions. -/
def apply (s : State) : Effect → State
  | .none => s
  | .begin tx => { s with closers := s.closers ++ [tx], opened := tx :: s.opened }
  | .close tx => { s with opened := s.opened.filter (· ≠ tx) }

/-- The watchdog of the current call. -/
def current (s : State) : Watchdog := s.watchdog s.call

end State

/-- One step. -/
def step (s : State) : Act → State
  | .handleEvent =>
    match s.main with
    | .idle =>
      { s.setWatchdog (s.call + 1)
          { s.watchdog (s.call + 1) with phase := .waiting, armed := true } with
        call := s.call + 1
        main := .converting }
    | _ => s
  | .convert ok =>
    match s.main with
    -- the closers are not deferred yet, and the watchdog is not told
    | .converting => if ok then { s with main := .running } else s.leave (.returned true)
    | _ => s
  | .expire n =>
    if (s.watchdog n).armed then
      s.setWatchdog n { s.watchdog n with armed := false, timedOut := true }
    else s
  | .disconnect n => s.setWatchdog n { s.watchdog n with disconnected := true }
  | .giveUp n reason =>
    if (s.watchdog n).phase = .waiting ∧ (s.watchdog n).saw reason = true then
      s.setPhase n (.givingUp reason)
    else s
  | .push n =>
    match (s.watchdog n).phase, s.interrupt with
    | .givingUp reason, none => { s.setPhase n .gone with interrupt := some (n, reason) }
    | _, _ => s
  | .statement effect =>
    match s.main, s.interrupt with
    | .running, some (n, reason) =>
      { s with interrupt := none }.close.leave
        (if n = s.call then .gaveUp reason else .panicked)
    | .running, none => s.apply effect
    | _, _ => s
  | .panic isError =>
    match s.main with
    -- what is recovered and is not an error is forgotten
    | .running => s.close.leave (if isError then .panicked else .returned false)
    | _ => s
  | .finish failed =>
    match s.main with
    | .running =>
      { s.setWatchdog s.call { s.current with armed := false } with main := .sending failed }
    | _ => s
  | .done =>
    match s.main with
    | .sending failed =>
      if s.current.phase = .waiting then
        (s.setPhase s.call .gone).close.leave (.returned failed)
      else s
    | _ => s

variable {s : State} {a : Act} {acts : List Act}

namespace State

theorem watchdog_setWatchdog (s : State) (n : ℕ) (w : Watchdog) (m : ℕ) :
    (s.setWatchdog n w).watchdog m = if m = n then w else s.watchdog m :=
  Function.update_apply s.watchdog n w m

theorem current_setWatchdog (s : State) (n : ℕ) (w : Watchdog) :
    (s.setWatchdog n w).current = if s.call = n then w else s.current :=
  s.watchdog_setWatchdog n w s.call

end State

/-! ## What an event ends with -/

/-- `ToValue` does not fail, and no panic comes out of a function that the script has called. -/
def Tame (_ : State) : Act → Prop
  | .convert ok => ok = true
  | .panic _ => False
  | _ => True

/-- What holds of the watchdogs, and of what has been done. -/
structure Sound (s : State) : Prop where
  others : ∀ n, n ≠ s.call → (s.watchdog n).phase = .gone
  givingUp : ∀ n reason, (s.watchdog n).phase = .givingUp reason →
    (s.watchdog n).saw reason = true
  closable : ∀ tx ∈ s.opened, tx ∈ s.closers
  honest : ∀ n outcome, (n, outcome) ∈ s.outcomes → outcome ≠ .panicked ∧
    ∀ reason, outcome = .gaveUp reason → (s.watchdog n).saw reason = true

/-- **The invariant** of a run where all of this is so: an interrupt is that of the current call,
and its watchdog is gone as soon as it is there, but not before it is there. -/
structure Inv (s : State) : Prop extends Sound s where
  idle : s.main = .idle → s.current.phase = .gone ∧ s.interrupt = none ∧ s.opened = []
  pending : ∀ n reason, s.interrupt = some (n, reason) →
    n = s.call ∧ s.current.phase = .gone ∧ s.current.saw reason = true
  pushed : s.main ≠ .idle → s.current.phase = .gone → s.interrupt ≠ none

theorem Inv.start : Inv .start where
  others _ _ := rfl
  givingUp _ _ h := by cases h
  closable _ h := by cases h
  honest _ _ h := by cases h
  idle _ := ⟨rfl, rfl, rfl⟩
  pending _ _ h := by cases h
  pushed h := absurd rfl h

/-- A watchdog is changed, which has seen no less than before. -/
theorem Sound.setWatchdog (h : Sound s) {n : ℕ} {w : Watchdog}
    (hothers : n ≠ s.call → w.phase = .gone)
    (hgivingUp : ∀ reason, w.phase = .givingUp reason → w.saw reason = true)
    (hsaw : ∀ reason, (s.watchdog n).saw reason = true → w.saw reason = true) :
    Sound (s.setWatchdog n w) where
  others m hm := by
    rw [State.watchdog_setWatchdog]
    split
    · next heq => exact hothers (heq ▸ hm)
    · exact h.others m hm
  givingUp m reason hm := by
    rw [State.watchdog_setWatchdog] at hm ⊢
    split at hm
    · next heq => rw [if_pos heq]; exact hgivingUp reason hm
    · next hne => rw [if_neg hne]; exact h.givingUp m reason hm
  closable := h.closable
  honest m outcome hmem := by
    obtain ⟨hpanicked, hgaveUp⟩ := h.honest m outcome hmem
    refine ⟨hpanicked, fun reason heq ↦ ?_⟩
    rw [State.watchdog_setWatchdog]
    split
    · next hm => exact hsaw reason (hm ▸ hgaveUp reason heq)
    · exact hgaveUp reason heq

theorem Sound.setPhase (h : Sound s) {phase : Phase}
    (hgivingUp : ∀ reason, phase = .givingUp reason → s.current.saw reason = true) :
    Sound (s.setPhase s.call phase) :=
  h.setWatchdog (fun hne ↦ absurd rfl hne) hgivingUp fun _ hsaw ↦ hsaw

/-- A call that is over, when its watchdog is gone. -/
theorem Sound.leave (h : Sound s) (hgone : s.current.phase = .gone) (hnone : s.interrupt = none)
    {outcome : Outcome} (hpanicked : outcome ≠ .panicked)
    (hgaveUp : ∀ reason, outcome = .gaveUp reason → s.current.saw reason = true) :
    Inv (s.close.leave outcome) where
  others := h.others
  givingUp := h.givingUp
  closable tx htx := h.closable tx (List.mem_of_mem_filter htx)
  honest n outcome' hmem := by
    rcases List.mem_append.mp hmem with hold | hnew
    · exact h.honest n outcome' hold
    · obtain ⟨rfl, rfl⟩ := Prod.mk.inj (List.mem_singleton.mp hnew)
      exact ⟨hpanicked, hgaveUp⟩
  idle _ := by
    refine ⟨hgone, hnone, ?_⟩
    show s.opened.filter (· ∉ s.closers) = []
    exact List.filter_eq_nil_iff.mpr fun tx htx ↦ by simpa using h.closable tx htx
  pending n reason hpending := by
    have hnot : s.interrupt ≠ none := Option.ne_none_iff_exists'.mpr ⟨_, hpending⟩
    exact absurd hnone hnot
  pushed hmain := absurd rfl hmain

/-! ### One step -/

/-- A watchdog that is where it was, and has seen no less. -/
theorem Inv.setWatchdog (h : Inv s) {n : ℕ} {w : Watchdog} (hphase : w.phase = (s.watchdog n).phase)
    (hsaw : ∀ reason, (s.watchdog n).saw reason = true → w.saw reason = true) :
    Inv (s.setWatchdog n w) := by
  have hcurrent : (s.setWatchdog n w).current.phase = s.current.phase := by
    show ((s.setWatchdog n w).watchdog s.call).phase = _
    rw [State.watchdog_setWatchdog]
    split
    · next heq => rw [hphase, ← heq]; rfl
    · rfl
  refine ⟨h.toSound.setWatchdog (fun hne ↦ hphase.trans (h.others n hne))
    (fun reason hgiving ↦ hsaw reason (h.givingUp n reason (hphase ▸ hgiving))) hsaw, ?_, ?_, ?_⟩
  · exact fun hmain ↦ hcurrent ▸ h.idle hmain
  · intro m reason hpending
    obtain ⟨rfl, hgone, hm⟩ := h.pending m reason hpending
    refine ⟨rfl, hcurrent.trans hgone, ?_⟩
    show ((s.setWatchdog n w).watchdog s.call).saw reason = true
    rw [State.watchdog_setWatchdog]
    split
    · next heq => exact hsaw reason (heq ▸ hm)
    · exact hm
  · exact fun hmain hgone ↦ h.pushed hmain (hcurrent ▸ hgone)

theorem Inv.handleEvent (h : Inv s) (hidle : s.main = .idle) : Inv (step s .handleEvent) := by
  obtain ⟨hgone, hinterrupt, -⟩ := h.idle hidle
  have hall : ∀ n, (s.watchdog n).phase = .gone := by
    intro n
    by_cases hn : n = s.call
    · exact hn ▸ hgone
    · exact h.others n hn
  let w : Watchdog := { s.watchdog (s.call + 1) with phase := .waiting, armed := true }
  have hsaw : ∀ reason, w.saw reason = (s.watchdog (s.call + 1)).saw reason := by
    intro reason
    cases reason <;> rfl
  have hstep : step s .handleEvent =
      { s.setWatchdog (s.call + 1) w with call := s.call + 1, main := .converting } := by
    rw [step, hidle]
  have hwatchdog : ∀ n, (step s .handleEvent).watchdog n =
      if n = s.call + 1 then w else s.watchdog n := by
    rw [hstep]
    exact s.watchdog_setWatchdog (s.call + 1) w
  have hwaiting : (step s .handleEvent).current.phase = .waiting := by
    have hcall : (step s .handleEvent).call = s.call + 1 := by rw [hstep]
    rw [State.current, hcall, hwatchdog, if_pos rfl]
  refine ⟨⟨fun n hn ↦ ?_, fun n reason hgiving ↦ ?_, ?_, fun n outcome hmem ↦ ?_⟩, ?_, ?_, ?_⟩
  · rw [hstep] at hn
    rw [hwatchdog, if_neg hn]
    exact hall n
  · rw [hwatchdog] at hgiving
    split at hgiving
    · cases hgiving
    · rw [hall n] at hgiving
      cases hgiving
  · rw [hstep]
    exact h.closable
  · rw [hstep] at hmem
    obtain ⟨hpanicked, hgaveUp⟩ := h.honest n outcome hmem
    refine ⟨hpanicked, fun reason heq ↦ ?_⟩
    rw [hwatchdog]
    split
    · next hn => rw [hsaw, ← hn]; exact hgaveUp reason heq
    · exact hgaveUp reason heq
  · intro hmain
    rw [hstep] at hmain
    cases hmain
  · intro n reason hpending
    rw [hstep] at hpending
    cases hinterrupt.symm.trans hpending
  · intro _ hnot
    rw [hwaiting] at hnot
    cases hnot

/-- The watchdog that is not gone is that of the current call. -/
theorem Sound.eq_call (h : Sound s) (n : ℕ) (hn : (s.watchdog n).phase ≠ .gone) : n = s.call := by
  by_contra hne
  exact hn (h.others n hne)

theorem Inv.giveUp (h : Inv s) {n : ℕ} {reason : Reason}
    (hwaiting : (s.watchdog n).phase = .waiting) (hsaw : (s.watchdog n).saw reason = true) :
    Inv (s.setPhase n (.givingUp reason)) := by
  obtain rfl := h.eq_call n (by simp [hwaiting])
  have hcurrent : (s.setPhase s.call (.givingUp reason)).current.phase = .givingUp reason := by
    show ((s.setPhase s.call (.givingUp reason)).watchdog s.call).phase = _
    rw [State.setPhase, State.watchdog_setWatchdog, if_pos rfl]
  have hnot : s.current.phase ≠ .gone := by simp [State.current, hwaiting]
  refine ⟨h.toSound.setPhase fun reason' heq ↦ ?_, ?_, ?_, ?_⟩
  · cases heq
    exact hsaw
  · exact fun hmain ↦ absurd (h.idle hmain).1 hnot
  · exact fun n reason' hpending ↦ absurd (h.pending n reason' hpending).2.1 hnot
  · intro _ hgone
    rw [hcurrent] at hgone
    cases hgone

theorem Inv.push (h : Inv s) {n : ℕ} {reason : Reason}
    (hgiving : (s.watchdog n).phase = .givingUp reason) :
    Inv { s.setPhase n .gone with interrupt := some (n, reason) } := by
  obtain rfl := h.eq_call n (by simp [hgiving])
  have hnot : s.current.phase ≠ .gone := by simp [State.current, hgiving]
  have hsound : Sound (s.setPhase s.call .gone) := h.toSound.setPhase fun _ heq ↦ by cases heq
  have hcurrent : (s.setPhase s.call .gone).watchdog s.call =
      { s.watchdog s.call with phase := .gone } := by
    rw [State.setPhase, State.watchdog_setWatchdog, if_pos rfl]
  refine ⟨⟨hsound.others, hsound.givingUp, hsound.closable, hsound.honest⟩, ?_, ?_, ?_⟩
  · exact fun hmain ↦ absurd (h.idle hmain).1 hnot
  · intro m reason' hpending
    obtain ⟨rfl, rfl⟩ := Prod.mk.inj (Option.some.inj hpending)
    refine ⟨rfl, ?_, ?_⟩
    · show ((s.setPhase s.call .gone).watchdog s.call).phase = .gone
      rw [hcurrent]
    · show ((s.setPhase s.call .gone).watchdog s.call).saw reason = true
      rw [hcurrent]
      exact h.givingUp s.call reason hgiving
  · exact fun _ _ hnone ↦ by cases hnone

theorem Inv.apply (h : Inv s) (hmain : s.main = .running) (effect : Effect) :
    Inv (s.apply effect) := by
  have hnot : s.main ≠ .idle := by simp [hmain]
  cases effect with
  | none => exact h
  | begin tx =>
    refine ⟨⟨h.others, h.givingUp, fun tx' htx ↦ ?_, h.honest⟩, ?_, h.pending, h.pushed⟩
    · rcases List.mem_cons.mp htx with rfl | htx
      · exact List.mem_append_right _ List.mem_cons_self
      · exact List.mem_append_left _ (h.closable tx' htx)
    · exact fun hidle ↦ absurd hidle hnot
  | close tx =>
    refine ⟨⟨h.others, h.givingUp, fun tx' htx ↦ ?_, h.honest⟩, ?_, h.pending, h.pushed⟩
    · exact h.closable tx' (List.mem_of_mem_filter htx)
    · exact fun hidle ↦ absurd hidle hnot

theorem Inv.done (h : Inv s) (hwaiting : s.current.phase = .waiting) (failed : Bool) :
    Inv ((s.setPhase s.call .gone).close.leave (.returned failed)) := by
  have hnone : s.interrupt = none := by
    by_contra hnot
    obtain ⟨⟨n, reason⟩, hpending⟩ := Option.ne_none_iff_exists'.mp hnot
    rw [(h.pending n reason hpending).2.1] at hwaiting
    cases hwaiting
  refine (h.toSound.setPhase fun _ heq ↦ by cases heq).leave ?_ hnone (by simp)
    fun _ heq ↦ by cases heq
  show ((s.setPhase s.call .gone).watchdog s.call).phase = .gone
  rw [State.setPhase, State.watchdog_setWatchdog, if_pos rfl]

/-- **One step.** -/
theorem Inv.step (h : Inv s) (htame : Tame s a) : Inv (step s a) := by
  cases a with
  | handleEvent =>
    by_cases hmain : s.main = .idle
    · exact h.handleEvent hmain
    · have hstep : Otto.step s .handleEvent = s := by
        cases hcase : s.main with
        | idle => exact absurd hcase hmain
        | _ => simp only [Otto.step, hcase]
      rwa [hstep]
  | convert ok =>
    obtain rfl : ok = true := htame
    rw [Otto.step]
    split
    · next hmain =>
      rw [if_pos rfl]
      exact ⟨⟨h.others, h.givingUp, h.closable, h.honest⟩, fun hidle ↦ (by cases hidle), h.pending,
        fun _ ↦ h.pushed (by simp [hmain])⟩
    · exact h
  | expire n =>
    rw [Otto.step]
    split
    · refine h.setWatchdog rfl fun reason hsaw ↦ ?_
      cases reason with
      | timeout => rfl
      | disconnected => exact hsaw
    · exact h
  | disconnect n =>
    refine h.setWatchdog rfl fun reason hsaw ↦ ?_
    cases reason with
    | timeout => exact hsaw
    | disconnected => rfl
  | giveUp n reason =>
    rw [Otto.step]
    split
    · next hboth => exact h.giveUp hboth.1 hboth.2
    · exact h
  | push n =>
    rw [Otto.step]
    split
    · next hgiving _ => exact h.push hgiving
    · exact h
  | statement effect =>
    rw [Otto.step]
    split
    · next n reason hmain hpending =>
      obtain ⟨rfl, hgone, hsaw⟩ := h.pending n reason hpending
      rw [if_pos rfl]
      have hsound : Sound { s with interrupt := none } :=
        ⟨h.others, h.givingUp, h.closable, h.honest⟩
      refine hsound.leave hgone rfl (by simp) fun reason' heq ↦ ?_
      cases heq
      exact hsaw
    · next hmain _ => exact h.apply hmain effect
    · exact h
  | panic isError => exact htame.elim
  | finish failed =>
    rw [Otto.step]
    split
    · next hmain =>
      have hset := h.setWatchdog (n := s.call) (w := { s.current with armed := false }) rfl
        fun reason hsaw ↦ by cases reason <;> exact hsaw
      have hbusy : s.main ≠ .idle := by simp [hmain]
      exact ⟨⟨hset.others, hset.givingUp, hset.closable, hset.honest⟩,
        fun hidle ↦ (by cases hidle), hset.pending, fun _ ↦ hset.pushed hbusy⟩
    · exact h
  | done =>
    rw [Otto.step]
    split
    · next failed hmain =>
      split
      · next hwaiting => exact h.done hwaiting failed
      · exact h
    · exact h

/-- What an environment is after some steps. -/
def run (acts : List Act) : State := Machine.final step .start acts

theorem inv_run (htame : Machine.Along step Tame .start acts) : Inv (run acts) :=
  Machine.invariant_of_along (fun _ _ h ↦ h.step) .start htame _ (Machine.final_mem_states _ _)

/-- **An event ends with what its own watchdog has seen**, or with what its script says, whatever
the others do; and when none is handled, there is no interrupt in the channel, no watchdog and no
open transaction. -/
theorem outcomes_of_run (htame : Machine.Along step Tame .start acts) :
    (∀ n outcome, (n, outcome) ∈ (run acts).outcomes → outcome ≠ .panicked ∧
      ∀ reason, outcome = .gaveUp reason → ((run acts).watchdog n).saw reason = true) ∧
    ((run acts).main = .idle → (run acts).interrupt = none ∧ (run acts).opened = [] ∧
      ∀ n, ((run acts).watchdog n).phase = .gone) := by
  have hinv := inv_run htame
  refine ⟨hinv.honest, fun hmain ↦ ?_⟩
  obtain ⟨hgone, hinterrupt, hopened⟩ := hinv.idle hmain
  refine ⟨hinterrupt, hopened, fun n ↦ ?_⟩
  by_cases hn : n = (run acts).call
  · exact hn ▸ hgone
  · exact hinv.others n hn

/-- The time is over, and the script is interrupted before its next statement. -/
def interrupted : List Act :=
  [.handleEvent, .convert true, .statement (.begin 7), .expire 1, .giveUp 1 .timeout, .push 1,
    .statement .none]

theorem outcomes_of_run_interrupted :
    (run interrupted).outcomes = [(1, .gaveUp .timeout)] ∧
    (∀ n outcome, (n, outcome) ∈ (run interrupted).outcomes → outcome ≠ .panicked ∧
      ∀ reason, outcome = .gaveUp reason → ((run interrupted).watchdog n).saw reason = true) ∧
    ((run interrupted).main = .idle → (run interrupted).interrupt = none ∧
      (run interrupted).opened = [] ∧ ∀ n, ((run interrupted).watchdog n).phase = .gone) := by
  refine ⟨by decide, outcomes_of_run ?_⟩
  exact ⟨trivial, rfl, trivial, trivial, trivial, trivial, trivial, trivial⟩

/-! ## When an event does not end -/

/-- The script has ended, and nobody waits to be told. -/
def State.Stuck (s : State) : Prop :=
  (∃ failed, s.main = .sending failed) ∧ s.current.phase ≠ .waiting

/-- The script ends while its watchdog waits, and when it has ended the watchdog does not give
up. -/
def Punctual (s : State) : Act → Prop
  | .finish _ => s.main = .running → s.current.phase = .waiting
  | .giveUp n reason => n = s.call → s.current.phase = .waiting → s.current.saw reason = true →
    ∀ failed, s.main ≠ .sending failed
  | _ => True

theorem State.Stuck.setWatchdog (h : s.Stuck) {n : ℕ} {w : Watchdog}
    (hw : n = s.call → w.phase ≠ .waiting) : (s.setWatchdog n w).Stuck := by
  refine ⟨h.1, ?_⟩
  rw [State.current_setWatchdog]
  split
  · next heq => exact hw heq.symm
  · exact h.2

/-- **Nothing helps**, and nothing is closed. -/
theorem State.Stuck.step (h : s.Stuck) (a : Act) : (step s a).Stuck ∧
    (step s a).opened = s.opened ∧ (step s a).outcomes = s.outcomes := by
  obtain ⟨failed, hmain⟩ := h.1
  have hsame : Otto.step s a = s → (Otto.step s a).Stuck ∧ (Otto.step s a).opened = s.opened ∧
      (Otto.step s a).outcomes = s.outcomes := fun heq ↦ heq.symm ▸ ⟨h, rfl, rfl⟩
  cases a with
  | handleEvent => exact hsame (by simp only [Otto.step, hmain])
  | convert ok => exact hsame (by simp only [Otto.step, hmain])
  | statement effect => exact hsame (by simp only [Otto.step, hmain])
  | panic isError => exact hsame (by simp only [Otto.step, hmain])
  | finish failed => exact hsame (by simp only [Otto.step, hmain])
  | done => exact hsame (by simp only [Otto.step, hmain, if_neg h.2])
  | expire n =>
    rw [Otto.step]
    split
    · refine ⟨h.setWatchdog fun heq ↦ ?_, rfl, rfl⟩
      exact heq ▸ h.2
    · exact ⟨h, rfl, rfl⟩
  | disconnect n =>
    refine ⟨h.setWatchdog fun heq ↦ ?_, rfl, rfl⟩
    exact heq ▸ h.2
  | giveUp n reason =>
    rw [Otto.step]
    split
    · exact ⟨h.setWatchdog fun _ heq ↦ (by cases heq), rfl, rfl⟩
    · exact ⟨h, rfl, rfl⟩
  | push n =>
    rw [Otto.step]
    split
    · have hgone : (s.setPhase n .gone).Stuck := h.setWatchdog fun _ heq ↦ by cases heq
      exact ⟨⟨hgone.1, hgone.2⟩, rfl, rfl⟩
    · exact ⟨h, rfl, rfl⟩

theorem State.Stuck.final (h : s.Stuck) (more : List Act) :
    (Machine.final Otto.step s more).Stuck ∧
      (Machine.final Otto.step s more).opened = s.opened ∧
      (Machine.final Otto.step s more).outcomes = s.outcomes := by
  induction more generalizing s with
  | nil => exact ⟨h, rfl, rfl⟩
  | cons a more ih =>
    obtain ⟨hstuck, hopened, houtcomes⟩ := h.step a
    obtain ⟨hfinal, hopened', houtcomes'⟩ := ih hstuck
    exact ⟨hfinal, hopened'.trans hopened, houtcomes'.trans houtcomes⟩

theorem State.not_stuck (h : ∀ failed, s.main ≠ .sending failed) : ¬ s.Stuck := by
  rintro ⟨⟨failed, hmain⟩, -⟩
  exact h failed hmain

theorem State.stuck_setWatchdog_iff {n : ℕ} {w : Watchdog}
    (hphase : w.phase = (s.watchdog n).phase) : (s.setWatchdog n w).Stuck ↔ s.Stuck := by
  have hcurrent : (s.setWatchdog n w).current.phase = s.current.phase := by
    rw [State.current_setWatchdog]
    split
    · next heq => rw [hphase, ← heq]; rfl
    · rfl
  rw [State.Stuck, hcurrent]
  rfl

theorem step_finish (hmain : s.main = .running) (failed : Bool) :
    (step s (.finish failed)).main = .sending failed ∧
      (step s (.finish failed)).current.phase = s.current.phase := by
  have hstep : step s (.finish failed) =
      { s.setWatchdog s.call { s.current with armed := false } with main := .sending failed } := by
    rw [step, hmain]
  rw [hstep]
  refine ⟨rfl, ?_⟩
  show ((s.setWatchdog s.call { s.current with armed := false }).current).phase = _
  rw [State.current_setWatchdog, if_pos rfl]

theorem stuck_finish_iff (h : ¬ s.Stuck) (failed : Bool) :
    (step s (.finish failed)).Stuck ↔ ¬ Punctual s (.finish failed) := by
  by_cases hmain : s.main = .running
  · obtain ⟨hsending, hphase⟩ := step_finish hmain failed
    rw [State.Stuck, hphase, and_iff_right ⟨failed, hsending⟩, Punctual, Classical.not_imp,
      and_iff_right hmain]
  · have hstep : step s (.finish failed) = s := by
      cases hcase : s.main with
      | running => exact absurd hcase hmain
      | _ => simp only [step, hcase]
    rw [hstep]
    exact iff_of_false h fun hnot ↦ hnot fun hrunning ↦ absurd hrunning hmain

theorem stuck_giveUp_iff (h : ¬ s.Stuck) (n : ℕ) (reason : Reason) :
    (step s (.giveUp n reason)).Stuck ↔ ¬ Punctual s (.giveUp n reason) := by
  rw [Punctual, step]
  by_cases hgives : (s.watchdog n).phase = .waiting ∧ (s.watchdog n).saw reason = true
  · rw [if_pos hgives]
    by_cases hn : n = s.call
    · subst hn
      have hcurrent : (s.setPhase s.call (.givingUp reason)).current.phase ≠ .waiting := by
        rw [State.setPhase, State.current_setWatchdog, if_pos rfl]
        exact fun heq ↦ by cases heq
      rw [State.Stuck, and_iff_left hcurrent]
      constructor
      · rintro ⟨failed, hmain⟩ hpunctual
        exact hpunctual rfl hgives.1 hgives.2 failed hmain
      · intro hnot
        by_contra hnone
        exact hnot fun _ _ _ failed hmain ↦ hnone ⟨failed, hmain⟩
    · have hcurrent : (s.setPhase n (.givingUp reason)).current = s.current := by
        rw [State.setPhase, State.current_setWatchdog, if_neg (Ne.symm hn)]
      refine iff_of_false (fun hstuck ↦ h ⟨hstuck.1, ?_⟩) fun hnot ↦ hnot fun heq ↦ absurd heq hn
      rw [← hcurrent]
      exact hstuck.2
  · rw [if_neg hgives]
    refine iff_of_false h fun hnot ↦ hnot fun heq hwaiting hsaw ↦ ?_
    subst heq
    exact absurd ⟨hwaiting, hsaw⟩ hgives

/-- A step leads to where nothing helps exactly when it is not punctual. -/
theorem stuck_step_iff (h : ¬ s.Stuck) : (step s a).Stuck ↔ ¬ Punctual s a := by
  cases a with
  | finish failed => exact stuck_finish_iff h failed
  | giveUp n reason => exact stuck_giveUp_iff h n reason
  | handleEvent =>
    refine iff_of_false ?_ fun hnot ↦ hnot trivial
    rw [step]
    split
    · exact State.not_stuck fun _ heq ↦ by cases heq
    · exact h
  | convert ok =>
    refine iff_of_false ?_ fun hnot ↦ hnot trivial
    rw [step]
    split
    · cases ok with
      | true => exact State.not_stuck fun _ heq ↦ by cases heq
      | false => exact State.not_stuck fun _ heq ↦ by cases heq
    · exact h
  | expire n =>
    refine iff_of_false ?_ fun hnot ↦ hnot trivial
    rw [step]
    split
    · refine mt (State.stuck_setWatchdog_iff ?_).mp h
      rfl
    · exact h
  | disconnect n =>
    refine iff_of_false (mt (State.stuck_setWatchdog_iff ?_).mp h) fun hnot ↦ hnot trivial
    rfl
  | push n =>
    refine iff_of_false ?_ fun hnot ↦ hnot trivial
    rw [step]
    split
    · next reason hgiving _ =>
      rintro ⟨hmain, hphase⟩
      refine h ⟨hmain, fun hwaiting ↦ hphase ?_⟩
      have hne : s.call ≠ n := by
        rintro rfl
        rw [State.current, hgiving] at hwaiting
        cases hwaiting
      show ((s.setPhase n .gone).current).phase = .waiting
      rw [State.setPhase, State.current_setWatchdog, if_neg hne]
      exact hwaiting
    · exact h
  | statement effect =>
    refine iff_of_false ?_ fun hnot ↦ hnot trivial
    rw [step]
    split
    · exact State.not_stuck fun _ heq ↦ by cases heq
    · next hmain _ =>
      refine State.not_stuck fun failed heq ↦ ?_
      have hsame : (s.apply effect).main = s.main := by cases effect <;> rfl
      rw [hsame, hmain] at heq
      cases heq
    · exact h
  | panic isError =>
    refine iff_of_false ?_ fun hnot ↦ hnot trivial
    rw [step]
    split
    · exact State.not_stuck fun _ heq ↦ by cases heq
    · exact h
  | done =>
    refine iff_of_false ?_ fun hnot ↦ hnot trivial
    rw [step]
    split
    · split
      · exact State.not_stuck fun _ heq ↦ by cases heq
      · exact h
    · exact h

theorem step_done {failed : Bool} (hmain : s.main = .sending failed)
    (hwaiting : s.current.phase = .waiting) : (step s .done).main = .idle := by
  rw [step, hmain]
  simp only [hwaiting, if_true]
  rfl

theorem step_statement {n : ℕ} {reason : Reason} (hmain : s.main = .running)
    (hpending : s.interrupt = some (n, reason)) : (step s (.statement .none)).main = .idle := by
  rw [step, hmain, hpending]
  rfl

theorem exists_returns_of_running (h : Inv s) (hmain : s.main = .running) :
    ∃ more, (Machine.final step s more).main = .idle := by
  cases hinterrupt : s.interrupt with
  | some pending => exact ⟨[.statement .none], step_statement hmain hinterrupt⟩
  | none =>
    cases hphase : s.current.phase with
    | gone => exact absurd hinterrupt (h.pushed (by simp [hmain]) hphase)
    | waiting =>
      obtain ⟨hsending, hcurrent⟩ := step_finish hmain false
      exact ⟨[.finish false, .done], step_done hsending (hcurrent.trans hphase)⟩
    | givingUp reason =>
      have hpush : step s (.push s.call) =
          { s.setPhase s.call .gone with interrupt := some (s.call, reason) } := by
        rw [step, hinterrupt]
        rw [State.current] at hphase
        rw [hphase]
      refine ⟨[.push s.call, .statement .none], ?_⟩
      rw [Machine.final, List.foldl_cons, List.foldl_cons, List.foldl_nil, hpush]
      exact step_statement hmain rfl

/-- Everywhere else the event can still be ended. -/
theorem exists_returns (h : Inv s) (hnot : ¬ s.Stuck) :
    ∃ more, (Machine.final step s more).main = .idle := by
  cases hmain : s.main with
  | idle => exact ⟨[], hmain⟩
  | converting =>
    have hstep : step s (.convert true) = { s with main := .running } := by
      rw [step, hmain]
      rfl
    have hinv : Inv (step s (.convert true)) := h.step rfl
    obtain ⟨more, hmore⟩ := exists_returns_of_running hinv (by rw [hstep])
    exact ⟨.convert true :: more, hmore⟩
  | running => exact exists_returns_of_running h hmain
  | sending failed =>
    have hwaiting : s.current.phase = .waiting := by
      by_contra hne
      exact hnot ⟨⟨failed, hmain⟩, hne⟩
    exact ⟨[.done], step_done hmain hwaiting⟩

/-- **When an event can still come to an end**: exactly if every script that has ended has done so
while its watchdog waited, and no watchdog has given up after that.  If not, whatever happens then,
no transaction is closed and no event ends. -/
theorem returns_iff_along (htame : Machine.Along step Tame .start acts) :
    ((∃ more, (run (acts ++ more)).main = .idle) ↔ Machine.Along step Punctual .start acts) ∧
    (¬ Machine.Along step Punctual .start acts → ∀ more,
      (run (acts ++ more)).opened = (run acts).opened ∧
        (run (acts ++ more)).outcomes = (run acts).outcomes) := by
  have hstuck : ¬ (run acts).Stuck ↔ Machine.Along step Punctual .start acts := by
    refine Machine.final_iff_along (P := fun s : State ↦ ¬ s.Stuck) (fun s a hs hok ↦ ?_)
      (fun s a as hs hfinal ↦ ?_) fun hstart ↦ ?_
    · exact fun hstep ↦ (stuck_step_iff hs).mp hstep hok
    · by_contra hnot
      exact hfinal (State.Stuck.final ((stuck_step_iff hs).mpr hnot) as).1
    · obtain ⟨⟨failed, hmain⟩, -⟩ := hstart
      cases hmain
  rw [← hstuck]
  simp only [run, Machine.final_append]
  refine ⟨⟨?_, exists_returns (inv_run htame)⟩, fun hnot more ↦ ?_⟩
  · rintro ⟨more, hmain⟩ hs
    obtain ⟨failed, hsending⟩ := (hs.final more).1.1
    rw [hmain] at hsending
    cases hsending
  · exact ((not_not.mp hnot).final more).2

/-- The time is over while the script makes its last statement, and the watchdog takes notice when
the script has ended. -/
def late : List Act :=
  [.handleEvent, .convert true, .statement (.begin 7), .expire 1, .finish false, .giveUp 1 .timeout]

theorem late_never_returns : (¬ ∃ more, (run (late ++ more)).main = .idle) ∧
    ∀ more, (run (late ++ more)).opened = [7] := by
  have hlate : ¬ Machine.Along step Punctual .start late := by
    rintro ⟨-, -, -, -, -, hgiveUp, -⟩
    exact hgiveUp rfl rfl rfl false rfl
  obtain ⟨hreturns, hnothing⟩ := returns_iff_along
    (show Machine.Along step Tame .start late from
      ⟨trivial, rfl, trivial, trivial, trivial, trivial, trivial⟩)
  exact ⟨hreturns.not.mpr hlate, fun more ↦ (hnothing hlate more).1⟩

end Gohan.Otto
