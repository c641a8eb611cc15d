import Gohan.Server.PathWatcher

/-!
# Does every put reach a handler?

The stored revision is where the next watcher goes on, so a put should have been handed to a handler
when the stored revision reaches it.  What is due (`Due`) is settled when the first watcher starts:
every put above the stored revision, or, if none is stored, every key there is and every later put.

Two kinds of puts are lost.  A watcher that knows no stored revision watches from now on, and all
that is there already is passed over.  And of several keys put in one transaction, which have one
revision, the stored revision reaches the second when the first has been handled; a watcher that
starts there never sees it (`not_lossless`).

Nothing else goes wrong (`lossless_of_run`).  `Clear` is the invariant: everything due up to some
revision has been handed over.  It holds of the stored revision, of every revision that a watcher
has fetched, and of the one before that from which it watches.
-/

set_option autoImplicit false

namespace Gohan.PathWatcher

/-- The puts that no later one has replaced. -/
def Store.existing (s : Store) : List Put :=
  s.history.filter fun e ↦
    s.history.all fun e' ↦ e'.key != e.key || decide (e'.revision ≤ e.revision)

/-- Has the put to be handed over, if this is the state in which the first watcher starts? -/
def Due (store : Store) (stored : Option ℤ) (e : Put) : Prop :=
  match stored with
  | some r => r < e.revision
  | none => e ∈ store.existing ∨ store.revision < e.revision

/-- What is due has been handed to a handler when the stored revision reaches it. -/
def Lossless (store : Store) (stored : Option ℤ) (s : State) : Prop :=
  ∀ e ∈ s.store.history, Due store stored e → ∀ r, s.stored = some r → e.revision ≤ r →
    e ∈ s.handled

/-- There is no compaction.  A watcher that has no revision to start from starts when all that is
due has been handed over, and none stores the revision of an event while another put of the same
revision is still to be delivered. -/
def Attentive (store : Store) (stored : Option ℤ) (s : State) : Act → Prop
  | .watch w => s.watcher w = some ⟨revisionCurrent, .fetched⟩ →
      ∀ e ∈ s.store.history, Due store stored e → e ∈ s.handled
  | .store w => ∀ previous watch event, s.watcher w = some ⟨previous, .storing watch event⟩ →
      ∀ e ∈ (s.store.eventsFrom watch.start).drop watch.taken, e.revision ≠ event.revision
  | .compact _ | .errCompacted _ | .recoverCompaction _ => False
  | _ => True

/-! ## The invariant -/

section Run

variable {store : Store} {stored : Option ℤ} {s s' : State} {x : ℤ}

/-- All that is due up to the revision has been handed over, and what is put from now on is above
it. -/
structure Clear (store : Store) (stored : Option ℤ) (s : State) (x : ℤ) : Prop where
  bounded : x ≤ s.store.revision ∨ ∃ r, stored = some r ∧ x ≤ r
  handled : ∀ e ∈ s.store.history, Due store stored e → e.revision ≤ x → e ∈ s.handled

/-- A watch has delivered what it has taken, and what lies before it is clear. -/
structure Delivered (store : Store) (stored : Option ℤ) (s : State) (watch : Watch) : Prop where
  before : Clear store stored s (watch.start - 1)
  taken : watch.taken ≤ (s.store.eventsFrom watch.start).length
  handled : ∀ e ∈ (s.store.eventsFrom watch.start).take watch.taken, e ∈ s.handled

/-- Nothing that is to be processed has been missed by a watcher. -/
def Watcher.Caught (store : Store) (stored : Option ℤ) (s : State) (watcher : Watcher) : Prop :=
  match watcher.phase with
  | .fetched => watcher.previousProcessedRevision = revisionCurrent ∨
      Clear store stored s watcher.previousProcessedRevision
  | .watching watch => Delivered store stored s watch
  | .storing watch event => Delivered store stored s watch ∧ event ∈ s.store.history
  | _ => True

/-- Nothing that is to be processed has been missed. -/
structure Caught (store : Store) (stored : Option ℤ) (s : State) : Prop where
  sound : Sound s
  known : ∀ r, s.stored = some r → Clear store stored s r
  watcher : ∀ w watcher, s.watcher w = some watcher → watcher.Caught store stored s

/-- The later state has more puts, and more of them handed over. -/
structure State.Extends (later earlier : State) : Prop where
  store : later.store.Extends earlier.store
  handled : ∀ e ∈ earlier.handled, e ∈ later.handled

/-- A put that is due is not below a revision that is clear when it comes. -/
theorem Clear.lt_of_new (h : Clear store stored s x) {e : Put} (hdue : Due store stored e)
    (hnew : s.store.revision < e.revision) : x < e.revision := by
  rcases h.bounded with hx | ⟨r, rfl, hx⟩
  · exact Int.lt_of_le_of_lt hx hnew
  · exact Int.lt_of_le_of_lt hx hdue

theorem Clear.extend (h : Clear store stored s x) (hext : s'.Extends s) :
    Clear store stored s' x := by
  refine ⟨h.bounded.imp_left fun hx ↦ Int.le_trans hx hext.store.revision, fun e he hdue hle ↦ ?_⟩
  obtain ⟨more, hmore, hnew⟩ := hext.store.history
  rw [hmore] at he
  rcases List.mem_append.mp he with he | he
  · exact hext.handled e (h.handled e he hdue hle)
  · have := h.lt_of_new hdue (hnew e he)
    omega

theorem Delivered.extend {watch : Watch} (h : Delivered store stored s watch)
    (hext : s'.Extends s) : Delivered store stored s' watch := by
  obtain ⟨more, hmore, -⟩ := hext.store.eventsFrom watch.start
  refine ⟨h.before.extend hext, ?_, fun e he ↦ ?_⟩
  · rw [hmore, List.length_append]
    exact Nat.le_add_right_of_le h.taken
  · rw [hmore, List.take_append_of_le_length h.taken] at he
    exact hext.handled e (h.handled e he)

theorem mem_history_of_extends {e : Put} (hext : s'.Extends s) (he : e ∈ s.store.history) :
    e ∈ s'.store.history := by
  obtain ⟨more, hmore, -⟩ := hext.store.history
  rw [hmore]
  exact List.mem_append_left _ he

theorem Watcher.Caught.extend {watcher : Watcher} (h : watcher.Caught store stored s)
    (hext : s'.Extends s) : watcher.Caught store stored s' := by
  obtain ⟨previous, phase⟩ := watcher
  cases phase with
  | fetched => exact Or.imp_right (Clear.extend · hext) h
  | watching watch => exact Delivered.extend h hext
  | storing watch event => exact ⟨Delivered.extend h.1 hext, mem_history_of_extends hext h.2⟩
  | _ => trivial

/-! ## The step -/

theorem extends_of_store (hstore : s'.store.Extends s.store) (hhandled : s'.handled = s.handled) :
    s'.Extends s := ⟨hstore, fun _ h ↦ hhandled ▸ h⟩

/-- A step that sets one watcher, and may store a revision. -/
theorem caught_of_set {w : ℕ} {watcher : Option Watcher} (h : Caught store stored s)
    (hsound : Sound s') (hext : s'.Extends s)
    (hknown : ∀ r, s'.stored = some r → s.stored = some r ∨ Clear store stored s' r)
    (hset : s'.watcher = Function.update s.watcher w watcher)
    (hwatcher : ∀ x, watcher = some x → x.Caught store stored s') : Caught store stored s' := by
  refine ⟨hsound, fun r hr ↦ ?_, fun v x hx ↦ ?_⟩
  · exact (hknown r hr).elim (fun hr ↦ (h.known r hr).extend hext) id
  · rw [hset] at hx
    by_cases hv : v = w
    · subst hv
      rw [Function.update_self] at hx
      exact hwatcher x hx
    · rw [Function.update_of_ne hv] at hx
      exact (h.watcher v x hx).extend hext

/-- A step that sets no watcher. -/
theorem caught_of_extends (h : Caught store stored s) (hsound : Sound s') (hext : s'.Extends s)
    (hstored : s'.stored = s.stored) (hwatcher : s'.watcher = s.watcher) :
    Caught store stored s' :=
  ⟨hsound, fun r hr ↦ (h.known r (hstored ▸ hr)).extend hext,
    fun w x hx ↦ (h.watcher w x (hwatcher ▸ hx)).extend hext⟩

/-- A watch from a revision up to which all is clear, or from now on if all is. -/
theorem delivered_open {previous : ℤ}
    (h : previous = revisionCurrent ∨ Clear store stored s previous)
    (hnow : previous = revisionCurrent → ∀ e ∈ s.store.history, Due store stored e →
      e ∈ s.handled) :
    Delivered store stored s (.open (previous + 1) s.store) := by
  have hbefore : Clear store stored s ((Watch.open (previous + 1) s.store).start - 1) := by
    simp only [Watch.open]
    split
    · next hzero =>
      have hcurrent : previous = revisionCurrent := by
        rw [revisionCurrent]
        omega
      rw [Int.add_sub_cancel]
      exact ⟨.inl (Int.le_refl _), fun e he hdue _ ↦ hnow hcurrent e he hdue⟩
    · next hne =>
      rw [Int.add_sub_cancel]
      refine h.resolve_left fun hcurrent ↦ hne ?_
      rw [hcurrent]
      rfl
  exact ⟨hbefore, Nat.zero_le _, fun e he ↦ absurd he List.not_mem_nil⟩

/-- The next event is handed over. -/
theorem Delivered.handle {watch : Watch} {event : Put} (h : Delivered store stored s watch)
    (hext : s'.Extends s) (hstore : s'.store = s.store) (hhandled : event ∈ s'.handled)
    (hevent : (s.store.eventsFrom watch.start)[watch.taken]? = some event) (next : ℤ) :
    Delivered store stored s' { watch with taken := watch.taken + 1, next } := by
  have hafter := h.extend hext
  obtain ⟨hlt, hget⟩ := List.getElem?_eq_some_iff.mp hevent
  refine ⟨hafter.before, hstore ▸ hlt, fun e he ↦ ?_⟩
  simp only [hstore, List.take_add_one, hevent] at he
  rcases List.mem_append.mp he with he | he
  · exact hafter.handled e (hstore ▸ he)
  · cases List.mem_singleton.mp he
    exact hhandled

/-- When the revision of an event is stored, all that is due up to it has been handed over. -/
theorem Delivered.clear {watch : Watch} {event : Put} (h : Delivered store stored s watch)
    (hevent : event ∈ s.store.history) (hahead : Ahead s.store watch event.revision)
    (hlast : ∀ e ∈ (s.store.eventsFrom watch.start).drop watch.taken,
      e.revision ≠ event.revision) : Clear store stored s event.revision := by
  refine ⟨.inl (s.store.bounded event hevent), fun e he hdue hle ↦ ?_⟩
  by_cases hbefore : e.revision ≤ watch.start - 1
  · exact h.before.handled e he hdue hbefore
  · have hfrom : e ∈ s.store.eventsFrom watch.start := Store.mem_eventsFrom.mpr ⟨he, by omega⟩
    rw [← List.take_append_drop watch.taken (s.store.eventsFrom watch.start)] at hfrom
    rcases List.mem_append.mp hfrom with hmem | hmem
    · exact h.handled e hmem
    · exact absurd (Int.le_antisymm hle (hahead.rest e hmem)) (hlast e hmem)

theorem caught_step (s : State) (a : Act) (h : Caught store stored s)
    (hok : Attentive store stored s a) : Caught store stored (step s a) := by
  have hsound := sound_step s a h.sound
  have hrefl := Store.Extends.refl s.store
  obtain heq | hmoves := step_cases s a
  · rw [heq]
    exact h
  generalize step s a = s' at hmoves hsound ⊢
  cases hmoves with
  | put => exact caught_of_extends h hsound (extends_of_store (Store.extends_put _ _) rfl) rfl rfl
  | putElsewhere =>
    exact caught_of_extends h hsound (extends_of_store (Store.extends_touch _) rfl) rfl rfl
  | unlock => exact caught_of_extends h hsound (extends_of_store hrefl rfl) rfl rfl
  | compact | errCompacted | recoverCompaction | missCompaction => exact hok.elim
  | lock | inconsistent =>
    refine caught_of_set h hsound (extends_of_store hrefl rfl) (fun r hr ↦ .inl hr) rfl ?_
    intro x hx
    cases hx
    trivial
  | @fetch w ok =>
    refine caught_of_set h hsound (extends_of_store hrefl rfl) (fun r hr ↦ .inl hr) rfl ?_
    intro x hx
    cases hx
    cases ok with
    | false => exact .inl rfl
    | true =>
      cases hstored : s.stored with
      | none => exact .inl rfl
      | some r => exact .inr ((h.known r hstored).extend (extends_of_store hrefl rfl))
  | @watch w previous hw =>
    refine caught_of_set h hsound (extends_of_store hrefl rfl) (fun r hr ↦ .inl hr) rfl ?_
    intro x hx
    cases hx
    refine (delivered_open (h.watcher w _ hw) fun hcurrent ↦ ?_).extend
      (extends_of_store hrefl rfl)
    subst hcurrent
    exact hok hw
  | @handle w previous watch event hw hevent =>
    have hext : State.Extends { s.set w (some ⟨previous, .storing
        { watch with taken := watch.taken + 1, next := event.revision + 1 } event⟩) with
      handled := s.handled ++ [event] } s := ⟨hrefl, fun e he ↦ List.mem_append_left _ he⟩
    refine caught_of_set h hsound hext (fun r hr ↦ .inl hr) rfl fun x hx ↦ ?_
    cases hx
    have hmem : event ∈ s.store.eventsFrom watch.start := List.mem_of_getElem? hevent
    have hhandled : event ∈ s.handled ++ [event] :=
      List.mem_append_right _ (List.mem_singleton_self _)
    exact ⟨Delivered.handle (h.watcher w _ hw) hext rfl hhandled hevent _,
      (Store.mem_eventsFrom.mp hmem).1⟩
  | @store w previous watch event hw =>
    obtain ⟨hdelivered, hevent⟩ := h.watcher w _ hw
    have hclear := hdelivered.clear hevent (h.sound w _ hw).2 (hok previous watch event hw)
    have hext : State.Extends ((s.storeRevision event.revision).set w
        (some ⟨event.revision, .watching watch⟩)) s :=
      extends_of_store (Store.extends_touch _) rfl
    refine caught_of_set h hsound hext (fun r hr ↦ .inr ?_) rfl ?_
    · cases hr
      exact hclear.extend hext
    · intro x hx
      cases hx
      exact hdelivered.extend hext
  | recoverTouched =>
    exact caught_of_set h hsound (extends_of_store (Store.extends_put _ _) rfl)
      (fun r hr ↦ .inl hr) rfl fun _ hx ↦ by cases hx
  | recover | stop =>
    exact caught_of_set h hsound (extends_of_store hrefl rfl) (fun r hr ↦ .inl hr) rfl
      fun _ hx ↦ by cases hx

theorem caught_start (store : Store) (stored : Option ℤ) :
    Caught store stored (.start store stored) := by
  refine ⟨nofun, fun r hr ↦ ⟨.inr ⟨r, hr, Int.le_refl r⟩, fun e _ hdue hle ↦ ?_⟩, nofun⟩
  have hr : stored = some r := hr
  subst hr
  have hlt : r < e.revision := hdue
  omega

/-- **No event is lost** in a run whose steps are all attentive. -/
theorem lossless_of_run {acts : List Act}
    (hok : Machine.Along step (Attentive store stored) (.start store stored) acts) :
    ∀ s ∈ Machine.states step (.start store stored) acts, Lossless store stored s :=
  fun s hs e he hdue r hr hle ↦
    have hcaught := Machine.invariant_of_along caught_step (caught_start store stored) hok s hs
    (hcaught.known r hr).handled e he hdue hle

end Run

/-! ## Runs in which an event is lost, and one in which none is -/

/-- One key, put in the first revision. -/
def storeWithKey : Store := emptyStore.put ["/watched/a"]

/-- A watcher starts, and stores the revision of the first event it sees. -/
def firstEvent (keys : List String) : List Act :=
  [.lock 0, .fetch 0 true, .watch 0, .put keys, .handle 0, .store 0]

/-- The first revision has been dealt with. -/
theorem lossless_stored : Lossless storeWithKey (some 1)
    (Machine.final step (.start storeWithKey (some 1)) (firstEvent ["/watched/b"])) := by
  have hok : Machine.Along step (Attentive storeWithKey (some 1)) (.start storeWithKey (some 1))
      (firstEvent ["/watched/b"]) := by
    refine ⟨trivial, trivial, fun h ↦ ?_, trivial, trivial, ?_, trivial⟩
    · exact absurd (congrArg (Option.map Watcher.previousProcessedRevision) h) (by decide)
    · rintro previous watch event h e he
      cases h
      cases he
  exact lossless_of_run hok _ (Machine.final_mem_states _ _)

/-- No revision is stored, and the key that is there is passed over.  Two keys are put at once, and
the stored revision reaches both when the first has been handled. -/
theorem not_lossless :
    ¬ Lossless storeWithKey none
      (Machine.final step (.start storeWithKey none) (firstEvent ["/watched/b"])) ∧
    ¬ Lossless storeWithKey (some 1)
      (Machine.final step (.start storeWithKey (some 1))
        (firstEvent ["/watched/b", "/watched/c"])) := by
  refine ⟨fun h ↦ ?_, fun h ↦ ?_⟩
  · have hlost := h ⟨"/watched/a", 1⟩ (by decide) (.inl (by decide)) 2 rfl (by decide)
    exact absurd hlost (by decide)
  · have hlost := h ⟨"/watched/c", 2⟩ (by decide) (by decide : (1 : ℤ) < 2) 2 rfl (by decide)
    exact absurd hlost (by decide)

end Gohan.PathWatcher
