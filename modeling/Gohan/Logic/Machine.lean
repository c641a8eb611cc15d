import Mathlib.Data.List.Basic

/-!
# Runs of a state machine

A machine is a function `step : σ → α → σ`: a state and an action give the next state.  A run from
`s` on a list of actions visits the states `states step s as`, the first of which is `s` itself.

Two ways of reasoning about runs are packaged here, so that a proof about a particular machine
only has to look at one step.

* **Invariants** (`invariant_of_along`, `invariant_iff_along`).  `Along ok s as` says that each
  action of the run meets the condition `ok` in the state it is taken in.  An invariant which
  every `ok` step preserves holds in every state of every run that is `ok` all along; and when a
  step from a good state is good *exactly* when it is `ok`, the invariant holds throughout the run
  exactly when the run is `ok` all along.
* **Laws of a step** (`law_of_step`, `ordered_of_step`).  A relation that every step satisfies
  holds between any two consecutive states of a run, and if it is reflexive and transitive it
  holds between any two states of which one is visited before the other.  `along_iff_ordered` is
  the same for a run of which not every step need satisfy it.
* **Answers** (`outputs_eq_iff_along`), when the steps of the machine are those of another one.
-/

set_option autoImplicit false

namespace Machine

universe u v

variable {σ : Type u} {α : Type v} (step : σ → α → σ)

/-- The states a run visits, the initial one first. -/
def states (s : σ) : List α → List σ
  | [] => [s]
  | a :: as => s :: states (step s a) as

/-- Where a run ends. -/
def final (s : σ) (as : List α) : σ := as.foldl step s

/-- Every action of the run meets `ok` in the state it is taken in. -/
def Along (ok : σ → α → Prop) (s : σ) : List α → Prop
  | [] => True
  | a :: as => ok s a ∧ Along ok (step s a) as

theorem final_append (s : σ) (as bs : List α) :
    final step s (as ++ bs) = final step (final step s as) bs := by
  simp [final]

/-! ## Invariants -/

variable {step} {Inv : σ → Prop} {ok : σ → α → Prop}

/-- **An invariant of the `ok` steps holds in every state of an `ok` run.** -/
theorem invariant_of_along (hstep : ∀ s a, Inv s → ok s a → Inv (step s a)) {s : σ} {as : List α}
    (hs : Inv s) (hok : Along step ok s as) : ∀ t ∈ states step s as, Inv t := by
  induction as generalizing s with
  | nil => simpa [states] using hs
  | cons a as ih =>
    intro t ht
    rcases List.mem_cons.mp ht with rfl | ht
    · exact hs
    · exact ih (hstep s a hs hok.1) hok.2 t ht

/-- What the `ok` steps do, where they keep an invariant, holds along every `ok` run. -/
theorem along_mono {ok' : σ → α → Prop}
    (hstep : ∀ s a, Inv s → ok s a → Inv (step s a) ∧ ok' s a) {s : σ} {as : List α} (hs : Inv s)
    (hok : Along step ok s as) : Along step ok' s as := by
  induction as generalizing s with
  | nil => trivial
  | cons a as ih =>
    obtain ⟨hnext, hfirst⟩ := hstep s a hs hok.1
    exact ⟨hfirst, ih hnext hok.2⟩

/-- A condition that every action meets in every state. -/
theorem along_of_forall {s : σ} {as : List α} (h : ∀ s, ∀ a ∈ as, ok s a) :
    Along step ok s as := by
  induction as generalizing s with
  | nil => trivial
  | cons a as ih =>
    exact ⟨h s a List.mem_cons_self, ih fun t b hb ↦ h t b (List.mem_cons_of_mem _ hb)⟩

theorem start_mem_states (s : σ) (as : List α) : s ∈ states step s as := by
  cases as <;> simp [states]

theorem final_mem_states (s : σ) (as : List α) : final step s as ∈ states step s as := by
  induction as generalizing s with
  | nil => simp [states, final]
  | cons a as ih => exact List.mem_cons_of_mem _ (ih (step s a))

/-- When `ok` is not only enough for a step to keep the invariant but also needed, the invariant
holds throughout a run exactly when the run is `ok` all along. -/
theorem invariant_iff_along (hstep : ∀ s a, Inv s → (Inv (step s a) ↔ ok s a)) {s : σ}
    {as : List α} (hs : Inv s) : (∀ t ∈ states step s as, Inv t) ↔ Along step ok s as := by
  refine ⟨fun h ↦ ?_, invariant_of_along (fun s a hi ho ↦ (hstep s a hi).mpr ho) hs⟩
  induction as generalizing s with
  | nil => trivial
  | cons a as ih =>
    have hnext : Inv (step s a) := h _ (List.mem_cons_of_mem _ (start_mem_states _ as))
    exact ⟨(hstep s a hs).mp hnext, ih hnext fun t ht ↦ h t (List.mem_cons_of_mem _ ht)⟩

/-- The same for a property, where it takes a stronger invariant to see that `ok` is enough. -/
theorem property_iff_along {P : σ → Prop} (hinv : ∀ s, Inv s → P s)
    (hgood : ∀ s a, Inv s → ok s a → Inv (step s a))
    (hbad : ∀ s a, Inv s → P (step s a) → ok s a) {s : σ} {as : List α} (hs : Inv s) :
    (∀ t ∈ states step s as, P t) ↔ Along step ok s as := by
  refine ⟨fun h ↦ ?_, fun h t ht ↦ hinv t (invariant_of_along hgood hs h t ht)⟩
  induction as generalizing s with
  | nil => trivial
  | cons a as ih =>
    have hok : ok s a := hbad s a hs (h _ (List.mem_cons_of_mem _ (start_mem_states _ as)))
    exact ⟨hok, ih (hgood s a hs hok) fun t ht ↦ h t (List.mem_cons_of_mem _ ht)⟩

/-- Where what a bad step does is never made good again, the property holds in the end exactly when
the run is `ok` all along. -/
theorem final_iff_along {P : σ → Prop} (hgood : ∀ s a, P s → ok s a → P (step s a))
    (hbad : ∀ s a as, P s → P (final step (step s a) as) → ok s a) {s : σ} {as : List α}
    (hs : P s) : P (final step s as) ↔ Along step ok s as := by
  induction as generalizing s with
  | nil => exact iff_of_true hs trivial
  | cons a as ih =>
    constructor
    · intro hfinal
      have hok := hbad s a as hs hfinal
      exact ⟨hok, (ih (hgood s a hs hok)).mp hfinal⟩
    · rintro ⟨hok, hrest⟩
      exact (ih (hgood s a hs hok)).mpr hrest

/-- A condition that the actions of the run meet in the states of an invariant of theirs. -/
theorem along_of_invariant {s : σ} {as : List α} (hstep : ∀ s, ∀ a ∈ as, Inv s → Inv (step s a))
    (h : ∀ s, ∀ a ∈ as, Inv s → ok s a) (hs : Inv s) : Along step ok s as := by
  induction as generalizing s with
  | nil => trivial
  | cons a as ih =>
    exact ⟨h s a List.mem_cons_self hs, ih (fun t b hb ↦ hstep t b (List.mem_cons_of_mem _ hb))
      (fun t b hb ↦ h t b (List.mem_cons_of_mem _ hb)) (hstep s a List.mem_cons_self hs)⟩

/-- Two conditions that come to the same in every state which meets an invariant of all steps. -/
theorem along_congr {ok' : σ → α → Prop} (hstep : ∀ s a, Inv s → Inv (step s a))
    (h : ∀ s a, Inv s → (ok s a ↔ ok' s a)) {s : σ} {as : List α} (hs : Inv s) :
    Along step ok s as ↔ Along step ok' s as := by
  induction as generalizing s with
  | nil => exact Iff.rfl
  | cons a as ih => exact and_congr (h s a hs) (ih (hstep s a hs))

/-! ## Laws of a step -/

variable {R : σ → σ → Prop}

/-- **A preorder every step respects orders a whole run.** -/
theorem ordered_of_step (hrefl : ∀ s, R s s) (htrans : ∀ s t u, R s t → R t u → R s u)
    (hstep : ∀ s a, R s (step s a)) (s : σ) (as bs : List α) :
    R (final step s as) (final step s (as ++ bs)) := by
  rw [final_append]
  generalize final step s as = t
  induction bs generalizing t with
  | nil => exact hrefl t
  | cons b bs ih => exact htrans _ _ _ (hstep t b) (ih (step t b))

/-- If it is a preorder that some steps respect, a run made of such steps is ordered throughout, and
no other is. -/
theorem along_iff_ordered (hrefl : ∀ s, R s s) (htrans : ∀ s t u, R s t → R t u → R s u) {s : σ}
    {as : List α} : Along step (fun s a ↦ R s (step s a)) s as ↔
      ∀ done more todo, as = done ++ more ++ todo →
        R (final step s done) (final step s (done ++ more)) := by
  induction as generalizing s with
  | nil =>
    refine iff_of_true trivial fun done more todo h ↦ ?_
    obtain ⟨hmore, -⟩ := List.append_eq_nil_iff.mp h.symm
    obtain ⟨rfl, rfl⟩ := List.append_eq_nil_iff.mp hmore
    exact hrefl s
  | cons a as ih =>
    constructor
    · rintro ⟨hfirst, hrest⟩ done more todo h
      have hrest := ih.mp hrest
      cases done with
      | nil =>
        cases more with
        | nil => exact hrefl s
        | cons b more =>
          obtain ⟨rfl, htail⟩ := List.cons.inj h
          exact htrans _ _ _ hfirst (hrest [] more todo htail)
      | cons b done =>
        obtain ⟨rfl, htail⟩ := List.cons.inj h
        exact hrest done more todo htail
    · intro h
      exact ⟨h [] [a] as rfl, ih.mpr fun done more todo htail ↦ h (a :: done) more todo (by
        rw [htail]; rfl)⟩

/-! ## Answers -/

universe w x

variable {τ : Type w} {β : Type x}

/-- What a machine answers to the actions of a run. -/
def outputs (step : σ → α → σ) (out : σ → α → β) (s : σ) : List α → List β
  | [] => []
  | a :: as => out s a :: outputs step out (step s a) as

/-- **A machine that goes through the same states as another, with something added, gives the same
answers exactly when it does so at every step.** -/
theorem outputs_eq_iff_along {step' : τ → α → τ} {out : σ → α → β} {out' : τ → α → β} {f : σ → τ}
    (hstep : ∀ s a, f (step s a) = step' (f s) a) {s : σ} {as : List α} :
    outputs step out s as = outputs step' out' (f s) as ↔
      Along step (fun s a ↦ out s a = out' (f s) a) s as := by
  induction as generalizing s with
  | nil => simp [outputs, Along]
  | cons a as ih => rw [outputs, outputs, List.cons.injEq, Along, ← ih, hstep]

end Machine
