import Mathlib.Logic.Function.Basic
import Mathlib.Data.Int.Order.Basic
import Mathlib.Data.List.Basic
import Gohan.Logic.Machine

/-!
# Path watchers

A path watcher hands every put under its path to an extension, and keeps the revision of the last
put it has dealt with in etcd, so that the next watcher goes on from there.  A watcher that starts
takes the lock of the path, fetches the stored revision and watches from the one after it.  For each
event it calls the handler, and then it stores the revision of the event, by a compare-and-swap
against the revision that it stored or fetched before.

The watchers of a path are meant to take turns.  But one that loses the lock finishes the event it
is about, and the lock can be lost without the watcher noticing for a while; so any number of them
may be at work, each between any two of its steps.  A watcher that finds no stored revision, or
fails to fetch it, remembers `RevisionCurrent`.

* The number it watches from is then `RevisionCurrent + 1`, which is 0, and for etcd that means from
  now on.
* Having nothing to compare with, it stores its revision whatever is stored.  So the stored revision
  can go down (`decreases`).  It never does so otherwise (`neverDecreases_iff`).
-/

set_option autoImplicit false

namespace Gohan.PathWatcher

/-! ## etcd -/

/-- A put under the watched path. -/
structure Put where
  key : String
  revision : ℤ
  deriving DecidableEq

/-- The store: its revision, and the puts under the path, the oldest first. -/
structure Store where
  revision : ℤ
  history : List Put
  nonneg : 0 ≤ revision
  sorted : history.Pairwise (·.revision ≤ ·.revision)
  bounded : ∀ e ∈ history, e.revision ≤ revision

namespace Store

/-- A put elsewhere. -/
def touch (s : Store) : Store where
  revision := s.revision + 1
  history := s.history
  nonneg := by have := s.nonneg; omega
  sorted := s.sorted
  bounded e he := by have := s.bounded e he; omega

/-- One transaction that puts these keys. -/
def put (s : Store) (keys : List String) : Store where
  revision := s.revision + 1
  history := s.history ++ keys.map (⟨·, s.revision + 1⟩)
  nonneg := by have := s.nonneg; omega
  sorted := by
    refine List.pairwise_append.mpr ⟨s.sorted, ?_, fun e he e' he' ↦ ?_⟩
    · exact List.pairwise_map.mpr (List.pairwise_of_forall fun _ _ ↦ Int.le_refl _)
    · obtain ⟨key, -, rfl⟩ := List.mem_map.mp he'
      have := s.bounded e he
      simp only
      omega
  bounded e he := by
    rcases List.mem_append.mp he with he | he
    · have := s.bounded e he
      omega
    · obtain ⟨key, -, rfl⟩ := List.mem_map.mp he
      exact Int.le_refl _

/-- The puts that a watch from a revision delivers. -/
def eventsFrom (s : Store) (start : ℤ) : List Put :=
  s.history.filter fun e ↦ decide (start ≤ e.revision)

end Store

/-! ## The watchers -/

/-- `goext.RevisionCurrent`. -/
def revisionCurrent : ℤ := -1

/-- A watch of the path. -/
structure Watch where
  start : ℤ
  /-- How many events have been delivered. -/
  taken : ℕ
  /-- The revision from which the watch goes on. -/
  next : ℤ

/-- Where a watcher is in `run`. -/
inductive Phase where
  /-- It has the lock. -/
  | locked
  /-- It has fetched the stored revision. -/
  | fetched
  | watching (watch : Watch)
  /-- The handler has been called, and the revision of the event is to be stored. -/
  | storing (watch : Watch) (event : Put)
  /-- The compare-and-swap has been refused. -/
  | inconsistent (event : Put)
  /-- The watch has ended with `ErrCompacted`. -/
  | compacted (compactRevision : ℤ)

/-- A path watcher: what it has processed, and what it is doing. -/
structure Watcher where
  previousProcessedRevision : ℤ
  phase : Phase

/-- etcd and the watchers.  For the record, `handled` has the events that have been handed to the
handler of a watcher. -/
structure State where
  store : Store
  compactRevision : ℤ
  /-- What is under the key of the stored revision. -/
  stored : Option ℤ
  /-- Who has the lock of the path. -/
  holder : Option ℕ
  watcher : ℕ → Option Watcher
  handled : List Put

/-- The first watcher is about to start. -/
def State.start (store : Store) (stored : Option ℤ) : State where
  store
  compactRevision := 0
  stored
  holder := none
  watcher _ := none
  handled := []

/-- What can happen at any point of a run. -/
inductive Act where
  | put (keys : List String)
  | putElsewhere
  | compact (revision : ℤ)
  /-- The lease of the lock runs out, or the lock is given back. -/
  | unlock
  | lock (w : ℕ)
  /-- `fetchStoredRevision`, which may fail. -/
  | fetch (w : ℕ) (ok : Bool)
  | watch (w : ℕ)
  /-- The next event is handed to the handler. -/
  | handle (w : ℕ)
  /-- `storeRevision`, after an event. -/
  | store (w : ℕ)
  /-- `tryRecoverInconsistentCluster`, which may put the key of the event again. -/
  | recover (w : ℕ) (touched : Bool)
  /-- The watch needs a revision that has been compacted. -/
  | errCompacted (w : ℕ)
  /-- `tryRecoverCompaction`. -/
  | recoverCompaction (w : ℕ)
  /-- The watcher returns from `run`, or its process crashes. -/
  | stop (w : ℕ)

namespace State

/-- A watcher is put in its place. -/
def set (s : State) (w : ℕ) (watcher : Option Watcher) : State :=
  { s with watcher := Function.update s.watcher w watcher }

/-- Does `storeRevision` swap?  A watcher that remembers no revision has no condition. -/
def swaps (s : State) (watcher : Watcher) : Bool :=
  watcher.previousProcessedRevision == revisionCurrent ||
    s.stored == some watcher.previousProcessedRevision

/-- The new revision is put under its key, which is not under the path. -/
def storeRevision (s : State) (revision : ℤ) : State :=
  { s with stored := some revision, store := s.store.touch }

end State

/-- `Watch` from a revision: from 0 means from now on. -/
def Watch.open (revision : ℤ) (store : Store) : Watch :=
  let start := if revision = 0 then store.revision + 1 else revision
  { start, taken := 0, next := start }

/-- One step. -/
def step (s : State) : Act → State
  | .put keys => { s with store := s.store.put keys }
  | .putElsewhere => { s with store := s.store.touch }
  | .compact revision =>
    if s.compactRevision ≤ revision ∧ revision ≤ s.store.revision then
      { s with compactRevision := revision }
    else s
  | .unlock => { s with holder := none }
  | .lock w =>
    match s.holder, s.watcher w with
    | none, none => { s.set w (some ⟨revisionCurrent, .locked⟩) with holder := some w }
    | _, _ => s
  | .fetch w ok =>
    match s.watcher w with
    | some ⟨_, .locked⟩ =>
      s.set w (some ⟨if ok then s.stored.getD revisionCurrent else revisionCurrent, .fetched⟩)
    | _ => s
  | .watch w =>
    match s.watcher w with
    | some ⟨previous, .fetched⟩ =>
      s.set w (some ⟨previous, .watching (.open (previous + 1) s.store)⟩)
    | _ => s
  | .handle w =>
    match s.watcher w with
    | some ⟨previous, .watching watch⟩ =>
      match (s.store.eventsFrom watch.start)[watch.taken]? with
      | some event =>
        { s.set w (some ⟨previous, .storing
            { watch with taken := watch.taken + 1, next := event.revision + 1 } event⟩) with
          handled := s.handled ++ [event] }
      | none => s
    | _ => s
  | .store w =>
    match s.watcher w with
    | some ⟨previous, .storing watch event⟩ =>
      if s.swaps ⟨previous, .storing watch event⟩ then
        (s.storeRevision event.revision).set w (some ⟨event.revision, .watching watch⟩)
      else s.set w (some ⟨previous, .inconsistent event⟩)
    | _ => s
  | .recover w touched =>
    match s.watcher w with
    | some ⟨_, .inconsistent event⟩ =>
      let s := s.set w none
      if touched then { s with store := s.store.put [event.key] } else s
    | _ => s
  | .errCompacted w =>
    match s.watcher w with
    | some ⟨previous, .watching watch⟩ =>
      if watch.next < s.compactRevision then
        s.set w (some ⟨previous, .compacted s.compactRevision⟩)
      else s
    | _ => s
  | .recoverCompaction w =>
    match s.watcher w with
    | some ⟨previous, .compacted compactRevision⟩ =>
      if s.swaps ⟨previous, .compacted compactRevision⟩ then
        (s.storeRevision (compactRevision - 1)).set w none
      else s.set w none
    | _ => s
  | .stop w => s.set w none

/-- What an action can do to the state. -/
inductive Moves (s : State) : Act → State → Prop
  | put {keys : List String} : Moves s (.put keys) { s with store := s.store.put keys }
  | putElsewhere : Moves s .putElsewhere { s with store := s.store.touch }
  | compact {revision : ℤ} : s.compactRevision ≤ revision → revision ≤ s.store.revision →
      Moves s (.compact revision) { s with compactRevision := revision }
  | unlock : Moves s .unlock { s with holder := none }
  | lock {w : ℕ} : s.holder = none → s.watcher w = none →
      Moves s (.lock w) { s.set w (some ⟨revisionCurrent, .locked⟩) with holder := some w }
  | fetch {w : ℕ} {ok : Bool} {previous : ℤ} : s.watcher w = some ⟨previous, .locked⟩ →
      Moves s (.fetch w ok) (s.set w
        (some ⟨if ok then s.stored.getD revisionCurrent else revisionCurrent, .fetched⟩))
  | watch {w : ℕ} {previous : ℤ} : s.watcher w = some ⟨previous, .fetched⟩ →
      Moves s (.watch w) (s.set w (some ⟨previous, .watching (.open (previous + 1) s.store)⟩))
  | handle {w : ℕ} {previous : ℤ} {watch : Watch} {event : Put} :
      s.watcher w = some ⟨previous, .watching watch⟩ →
      (s.store.eventsFrom watch.start)[watch.taken]? = some event →
        Moves s (.handle w)
          { s.set w (some ⟨previous, .storing
              { watch with taken := watch.taken + 1, next := event.revision + 1 } event⟩) with
            handled := s.handled ++ [event] }
  | store {w : ℕ} {previous : ℤ} {watch : Watch} {event : Put} :
      s.watcher w = some ⟨previous, .storing watch event⟩ →
      s.swaps ⟨previous, .storing watch event⟩ = true →
        Moves s (.store w)
          ((s.storeRevision event.revision).set w (some ⟨event.revision, .watching watch⟩))
  | inconsistent {w : ℕ} {previous : ℤ} {watch : Watch} {event : Put} :
      s.watcher w = some ⟨previous, .storing watch event⟩ →
      s.swaps ⟨previous, .storing watch event⟩ = false →
        Moves s (.store w) (s.set w (some ⟨previous, .inconsistent event⟩))
  | recover {w : ℕ} {previous : ℤ} {event : Put} :
      s.watcher w = some ⟨previous, .inconsistent event⟩ →
        Moves s (.recover w false) (s.set w none)
  | recoverTouched {w : ℕ} {previous : ℤ} {event : Put} :
      s.watcher w = some ⟨previous, .inconsistent event⟩ →
        Moves s (.recover w true) { s.set w none with store := s.store.put [event.key] }
  | errCompacted {w : ℕ} {previous : ℤ} {watch : Watch} :
      s.watcher w = some ⟨previous, .watching watch⟩ → watch.next < s.compactRevision →
        Moves s (.errCompacted w) (s.set w (some ⟨previous, .compacted s.compactRevision⟩))
  | recoverCompaction {w : ℕ} {previous compactRevision : ℤ} :
      s.watcher w = some ⟨previous, .compacted compactRevision⟩ →
      s.swaps ⟨previous, .compacted compactRevision⟩ = true →
        Moves s (.recoverCompaction w) ((s.storeRevision (compactRevision - 1)).set w none)
  | missCompaction {w : ℕ} {previous compactRevision : ℤ} :
      s.watcher w = some ⟨previous, .compacted compactRevision⟩ →
      s.swaps ⟨previous, .compacted compactRevision⟩ = false →
        Moves s (.recoverCompaction w) (s.set w none)
  | stop {w : ℕ} : Moves s (.stop w) (s.set w none)

/-- **What one step can do**: one of these, or nothing. -/
theorem step_cases (s : State) (a : Act) : step s a = s ∨ Moves s a (step s a) := by
  cases a with
  | put | putElsewhere | unlock | stop => exact .inr (by constructor)
  | compact revision =>
    rw [step]
    split
    · next h => exact .inr (.compact h.1 h.2)
    · exact .inl rfl
  | lock w =>
    rw [step]
    split
    · next hholder hw => exact .inr (.lock hholder hw)
    · exact .inl rfl
  | fetch w ok =>
    rw [step]
    split
    · next hw => exact .inr (.fetch hw)
    · exact .inl rfl
  | watch w =>
    rw [step]
    split
    · next hw => exact .inr (.watch hw)
    · exact .inl rfl
  | handle w =>
    rw [step]
    split
    · next hw =>
      split
      · next hevent => exact .inr (.handle hw hevent)
      · exact .inl rfl
    · exact .inl rfl
  | store w =>
    rw [step]
    split
    · next hw =>
      split
      · next hswaps => exact .inr (.store hw hswaps)
      · next hswaps => exact .inr (.inconsistent hw (Bool.eq_false_iff.mpr hswaps))
    · exact .inl rfl
  | recover w touched =>
    rw [step]
    split
    · next hw =>
      cases touched with
      | false => exact .inr (.recover hw)
      | true => exact .inr (.recoverTouched hw)
    · exact .inl rfl
  | errCompacted w =>
    rw [step]
    split
    · next hw =>
      split
      · next hlt => exact .inr (.errCompacted hw hlt)
      · exact .inl rfl
    · exact .inl rfl
  | recoverCompaction w =>
    rw [step]
    split
    · next hw =>
      split
      · next hswaps => exact .inr (.recoverCompaction hw hswaps)
      · next hswaps => exact .inr (.missCompaction hw (Bool.eq_false_iff.mpr hswaps))
    · exact .inl rfl

/-! ## How etcd grows -/

namespace Store

/-- The later store has the same puts, and newer ones. -/
structure Extends (later earlier : Store) : Prop where
  revision : earlier.revision ≤ later.revision
  history : ∃ more, later.history = earlier.history ++ more ∧
    ∀ e ∈ more, earlier.revision < e.revision

variable {s s' : Store} {start : ℤ} {e : Put}

theorem Extends.refl (s : Store) : s.Extends s :=
  ⟨Int.le_refl _, [], (List.append_nil _).symm, fun _ h ↦ absurd h List.not_mem_nil⟩

theorem extends_touch (s : Store) : s.touch.Extends s :=
  ⟨Int.le_add_one (Int.le_refl _), [], (List.append_nil _).symm,
    fun _ h ↦ absurd h List.not_mem_nil⟩

theorem extends_put (s : Store) (keys : List String) : (s.put keys).Extends s := by
  refine ⟨Int.le_add_one (Int.le_refl _), _, rfl, fun e he ↦ ?_⟩
  obtain ⟨key, -, rfl⟩ := List.mem_map.mp he
  exact Int.lt_succ _

theorem mem_eventsFrom : e ∈ s.eventsFrom start ↔ e ∈ s.history ∧ start ≤ e.revision := by
  rw [eventsFrom, List.mem_filter, decide_eq_true_iff]

theorem eventsFrom_sorted (s : Store) (start : ℤ) :
    (s.eventsFrom start).Pairwise (·.revision ≤ ·.revision) := s.sorted.filter _

/-- A watch sees what it has seen, and newer puts behind it. -/
theorem Extends.eventsFrom (h : s'.Extends s) (start : ℤ) :
    ∃ more, s'.eventsFrom start = s.eventsFrom start ++ more ∧
      ∀ e ∈ more, s.revision < e.revision ∧ start ≤ e.revision := by
  obtain ⟨more, hhistory, hnew⟩ := h.history
  refine ⟨more.filter fun e ↦ decide (start ≤ e.revision), ?_, fun e he ↦ ?_⟩
  · rw [Store.eventsFrom, hhistory, List.filter_append]
    rfl
  · obtain ⟨hmem, hstart⟩ := List.mem_filter.mp he
    exact ⟨hnew e hmem, of_decide_eq_true hstart⟩

end Store

/-! ## What a watcher remembers -/

/-- Nothing below the revision is still to come. -/
structure Ahead (store : Store) (watch : Watch) (revision : ℤ) : Prop where
  next : revision < watch.next
  old : revision < watch.start ∨ revision ≤ store.revision
  rest : ∀ e ∈ (store.eventsFrom watch.start).drop watch.taken, revision ≤ e.revision

/-- The watcher remembers a revision that is not above any it is going to store. -/
def Watcher.Sound (store : Store) (watcher : Watcher) : Prop :=
  match watcher.phase with
  | .locked | .fetched | .inconsistent _ => True
  | .watching watch => Ahead store watch watcher.previousProcessedRevision
  | .storing watch event =>
    watcher.previousProcessedRevision ≤ event.revision ∧ Ahead store watch event.revision
  | .compacted compactRevision => watcher.previousProcessedRevision ≤ compactRevision - 1

/-- Every watcher is sound. -/
def Sound (s : State) : Prop := ∀ w watcher, s.watcher w = some watcher → watcher.Sound s.store

variable {store store' : Store} {watch : Watch} {revision : ℤ}

theorem Ahead.extend (h : Ahead store watch revision) (hext : store'.Extends store) :
    Ahead store' watch revision := by
  refine ⟨h.next, h.old.imp_right fun hold ↦ Int.le_trans hold hext.revision, fun e he ↦ ?_⟩
  obtain ⟨more, hmore, hnew⟩ := hext.eventsFrom watch.start
  rw [hmore, List.drop_append] at he
  rcases List.mem_append.mp he with he | he
  · exact h.rest e he
  · obtain ⟨hrevision, hstart⟩ := hnew e (List.mem_of_mem_drop he)
    rcases h.old with hold | hold <;> omega

theorem Watcher.Sound.extend {watcher : Watcher} (h : watcher.Sound store)
    (hext : store'.Extends store) : watcher.Sound store' := by
  obtain ⟨previous, phase⟩ := watcher
  cases phase with
  | watching watch => exact Ahead.extend h hext
  | storing watch event => exact ⟨h.1, Ahead.extend h.2 hext⟩
  | _ => exact h

/-- A watch that has just begun. -/
theorem ahead_open (store : Store) (previous : ℤ) :
    Ahead store (.open (previous + 1) store) previous := by
  have hstart : previous < (Watch.open (previous + 1) store).start := by
    simp only [Watch.open]
    have := store.nonneg
    split <;> omega
  refine ⟨hstart, .inl hstart, fun e he ↦ ?_⟩
  have := (Store.mem_eventsFrom.mp (List.mem_of_mem_drop he)).2
  omega

/-- The next event of a watch is not below what is remembered, and those behind it are not below
it. -/
theorem Ahead.handle {event : Put} (h : Ahead store watch revision)
    (hevent : (store.eventsFrom watch.start)[watch.taken]? = some event) :
    revision ≤ event.revision ∧ Ahead store
      { watch with taken := watch.taken + 1, next := event.revision + 1 } event.revision := by
  obtain ⟨hlt, hget⟩ := List.getElem?_eq_some_iff.mp hevent
  have hdrop : (store.eventsFrom watch.start).drop watch.taken =
      event :: (store.eventsFrom watch.start).drop (watch.taken + 1) := by
    rw [List.drop_eq_getElem_cons hlt, hget]
  have hmem : event ∈ store.eventsFrom watch.start := List.mem_of_getElem? hevent
  refine ⟨h.rest event (hdrop ▸ List.mem_cons_self), Int.lt_succ _,
    .inr (store.bounded event (Store.mem_eventsFrom.mp hmem).1), fun e he ↦ ?_⟩
  have hsorted : (event :: (store.eventsFrom watch.start).drop (watch.taken + 1)).Pairwise
      (·.revision ≤ ·.revision) := hdrop ▸ (store.eventsFrom_sorted watch.start).drop
  exact List.rel_of_pairwise_cons hsorted he

/-! ## The step -/

variable {s s' : State}

theorem sound_of_store (h : Sound s) (hstore : s'.store.Extends s.store)
    (hwatcher : s'.watcher = s.watcher) : Sound s' :=
  fun w watcher hw ↦ (h w watcher (hwatcher ▸ hw)).extend hstore

theorem sound_of_set {w : ℕ} {watcher : Option Watcher} (h : Sound s)
    (hstore : s'.store.Extends s.store) (hset : s'.watcher = Function.update s.watcher w watcher)
    (hwatcher : ∀ x, watcher = some x → x.Sound s'.store) : Sound s' := by
  intro v x hx
  rw [hset] at hx
  by_cases hv : v = w
  · subst hv
    rw [Function.update_self] at hx
    exact hwatcher x hx
  · rw [Function.update_of_ne hv] at hx
    exact (h v x hx).extend hstore

theorem sound_step (s : State) (a : Act) (h : Sound s) : Sound (step s a) := by
  have hrefl := Store.Extends.refl s.store
  obtain heq | hmoves := step_cases s a
  · rw [heq]
    exact h
  generalize step s a = s' at hmoves ⊢
  cases hmoves with
  | put => exact sound_of_store h (Store.extends_put _ _) rfl
  | putElsewhere => exact sound_of_store h (Store.extends_touch _) rfl
  | compact | unlock => exact sound_of_store h hrefl rfl
  | lock | fetch | inconsistent =>
    refine sound_of_set h hrefl rfl fun x hx ↦ ?_
    cases hx
    trivial
  | watch =>
    refine sound_of_set h hrefl rfl fun x hx ↦ ?_
    cases hx
    exact ahead_open _ _
  | handle hw hevent =>
    refine sound_of_set h hrefl rfl fun x hx ↦ ?_
    cases hx
    exact Ahead.handle (h _ _ hw) hevent
  | store hw =>
    refine sound_of_set h (Store.extends_touch _) rfl fun x hx ↦ ?_
    cases hx
    exact Ahead.extend (h _ _ hw).2 (Store.extends_touch _)
  | recoverTouched => exact sound_of_set h (Store.extends_put _ _) rfl nofun
  | @errCompacted w previous watch hw hlt =>
    refine sound_of_set h hrefl rfl fun x hx ↦ ?_
    cases hx
    have hnext : previous < watch.next := Ahead.next (h w _ hw)
    show previous ≤ s.compactRevision - 1
    omega
  | recoverCompaction => exact sound_of_set h (Store.extends_touch _) rfl nofun
  | recover | missCompaction | stop => exact sound_of_set h hrefl rfl nofun

/-! ## When the stored revision goes down -/

/-- The stored revision is still there, and not below what it was. -/
def NotBelow (s s' : State) : Prop :=
  ∀ r, s.stored = some r → ∃ r', s'.stored = some r' ∧ r ≤ r'

/-- A watcher that remembers no revision stores none below the one that is stored. -/
def Guarded (s : State) : Act → Prop
  | .store w => ∀ watch event, s.watcher w = some ⟨revisionCurrent, .storing watch event⟩ →
      ∀ r, s.stored = some r → r ≤ event.revision
  | .recoverCompaction w => ∀ compactRevision,
      s.watcher w = some ⟨revisionCurrent, .compacted compactRevision⟩ →
        ∀ r, s.stored = some r → r ≤ compactRevision - 1
  | _ => True

theorem NotBelow.of_eq (h : s'.stored = s.stored) : NotBelow s s' :=
  fun r hr ↦ ⟨r, h.trans hr, Int.le_refl r⟩

theorem NotBelow.trans {s'' : State} (h : NotBelow s s') (h' : NotBelow s' s'') :
    NotBelow s s'' := by
  intro r hr
  obtain ⟨r', hr', hle⟩ := h r hr
  obtain ⟨r'', hr'', hle'⟩ := h' r' hr'
  exact ⟨r'', hr'', Int.le_trans hle hle'⟩

theorem notBelow_store {revision : ℤ} (h : s'.stored = some revision) :
    NotBelow s s' ↔ ∀ r, s.stored = some r → r ≤ revision := by
  refine forall₂_congr fun r _ ↦ ?_
  rw [h]
  simp

/-- A watcher that remembers a revision swaps only where it is the stored one. -/
theorem stored_of_swaps {previous : ℤ} {phase : Phase} (h : s.swaps ⟨previous, phase⟩ = true)
    (hprevious : previous ≠ revisionCurrent) : s.stored = some previous := by
  simpa [State.swaps, hprevious] using h

/-- `storeRevision` of a revision that is not below the one that is remembered. -/
theorem notBelow_of_swaps {previous revision : ℤ} {phase : Phase}
    (hle : previous ≤ revision) (hswaps : s.swaps ⟨previous, phase⟩ = true)
    (hstored : s'.stored = some revision) : NotBelow s s' ↔
      (previous = revisionCurrent → ∀ r, s.stored = some r → r ≤ revision) := by
  rw [notBelow_store hstored]
  constructor
  · exact fun h _ ↦ h
  · intro h r hr
    by_cases hprevious : previous = revisionCurrent
    · exact h hprevious r hr
    · rw [stored_of_swaps hswaps hprevious] at hr
      cases hr
      exact hle

/-- Without a revision to compare with, the swap is made. -/
theorem not_revisionCurrent_of_not_swaps {previous : ℤ} {phase : Phase}
    (h : ¬ s.swaps ⟨previous, phase⟩ = true) : previous ≠ revisionCurrent := by
  rintro rfl
  exact h (by simp [State.swaps])

/-- **A step** lets the stored revision go down exactly if it is not guarded. -/
theorem notBelow_iff (s : State) (a : Act) (h : Sound s) :
    NotBelow s (step s a) ↔ Guarded s a := by
  cases a with
  | store w =>
    simp only [step, Guarded]
    split
    · next previous watch event hw =>
      rw [hw]
      split
      · next hswaps =>
        refine (notBelow_of_swaps (h w _ hw).1 hswaps rfl).trans ?_
        constructor
        · rintro hr watch' event' hw'
          cases hw'
          exact hr rfl
        · rintro hr rfl
          exact hr watch event rfl
      · next hswaps =>
        refine iff_of_true (.of_eq rfl) fun watch' event' hw' ↦ ?_
        cases hw'
        exact absurd rfl (not_revisionCurrent_of_not_swaps hswaps)
    · next hne => exact iff_of_true (.of_eq rfl) fun watch event hw ↦ absurd hw (hne _ _ _)
  | recoverCompaction w =>
    simp only [step, Guarded]
    split
    · next previous compactRevision hw =>
      rw [hw]
      split
      · next hswaps =>
        refine (notBelow_of_swaps (h w _ hw) hswaps rfl).trans ?_
        constructor
        · rintro hr compactRevision' hw'
          cases hw'
          exact hr rfl
        · rintro hr rfl
          exact hr compactRevision rfl
      · next hswaps =>
        refine iff_of_true (.of_eq rfl) fun compactRevision' hw' ↦ ?_
        cases hw'
        exact absurd rfl (not_revisionCurrent_of_not_swaps hswaps)
    · next hne => exact iff_of_true (.of_eq rfl) fun compactRevision hw ↦ absurd hw (hne _ _)
  | handle w | recover w _ | errCompacted w =>
    simp only [step]
    split
    · split <;> exact iff_of_true (.of_eq rfl) trivial
    · exact iff_of_true (.of_eq rfl) trivial
  | lock w | fetch w _ | watch w | compact _ =>
    simp only [step]
    split <;> exact iff_of_true (.of_eq rfl) trivial
  | _ => exact iff_of_true (.of_eq rfl) trivial

/-- The stored revision never goes down in the run. -/
def NeverDecreases (s : State) (acts : List Act) : Prop :=
  ∀ done more todo, acts = done ++ more ++ todo →
    NotBelow (Machine.final step s done) (Machine.final step s (done ++ more))

/-- **The stored revision of a path**, for any interleaving of any number of watchers: it never goes
down exactly if no watcher that remembers no revision stores one below the stored one. -/
theorem neverDecreases_iff (store : Store) (stored : Option ℤ) (acts : List Act) :
    NeverDecreases (.start store stored) acts ↔
      Machine.Along step Guarded (.start store stored) acts := by
  rw [NeverDecreases, ← Machine.along_iff_ordered (fun s ↦ .of_eq rfl) fun _ _ _ ↦ .trans]
  exact Machine.along_congr sound_step notBelow_iff nofun

/-! ## Two watchers that remember no revision -/

/-- An empty store. -/
def emptyStore : Store :=
  ⟨0, [], Int.le_refl 0, .nil, fun _ h ↦ absurd h List.not_mem_nil⟩

/-- The first watcher has handled a put and loses the lock; the second handles the next put and
stores its revision, and then the first one stores its own. -/
def overtaking : List Act :=
  [.lock 0, .fetch 0 true, .watch 0, .put ["/watched/a"], .handle 0, .unlock,
    .lock 1, .fetch 1 true, .watch 1, .put ["/watched/b"], .handle 1, .store 1, .store 0]

theorem decreases : ¬ NeverDecreases (.start emptyStore none) overtaking := by
  intro h
  obtain ⟨r, hr, hle⟩ := h (overtaking.take 12) [.store 0] [] rfl 2 rfl
  cases hr
  exact absurd hle (by decide)

end Gohan.PathWatcher
