import Gohan.Logic.Machine

/-!
# Programs that act on a machine

A program reads the state of a machine, takes actions one after the other, and ends in a result or
in a failure.  It is a function from the state it starts in to its result and the list of its
actions, so a failure does not undo the actions before it, and every state that a program passes
through is one of the run on its actions.

`bind_eq_ok`, `forEach_eq_ok` and `forEach_mem` take a program that succeeds apart into the runs of
its parts.  `Emits` is about single actions, and its rules hold for programs that fail too.
-/

set_option autoImplicit false

namespace Machine

variable {σ α ε β γ : Type}

theorem along_append {step : σ → α → σ} {ok : σ → α → Prop} {s : σ} {as bs : List α} :
    Along step ok s (as ++ bs) ↔ Along step ok s as ∧ Along step ok (final step s as) bs := by
  induction as generalizing s with
  | nil => simp [Along, final]
  | cons a as ih =>
    rw [List.cons_append, Along, Along, ih, and_assoc]
    rfl

/-- A program for the machine with the given step. -/
def Prog (_ : σ → α → σ) (ε β : Type) : Type := σ → Except ε β × List α

variable {step : σ → α → σ}

namespace Prog

/-- One program after the other, if the first one does not fail. -/
protected def bind (x : Prog step ε β) (f : β → Prog step ε γ) : Prog step ε γ := fun s ↦
  match x s with
  | (.error e, as) => (.error e, as)
  | (.ok b, as) =>
    match f b (final step s as) with
    | (result, bs) => (result, as ++ bs)

instance : Monad (Prog step ε) where
  pure b := fun _ ↦ (.ok b, [])
  bind := Prog.bind

/-- The state. -/
def get : Prog step ε σ := fun s ↦ (.ok s, [])

/-- A computation that takes no action. -/
def lift (x : Except ε β) : Prog step ε β := fun _ ↦ (x, [])

instance : MonadLift (Except ε) (Prog step ε) := ⟨lift⟩

/-- Take an action, with an answer that depends on the state it is taken in. -/
def act (a : α) (answer : σ → Except ε β) : Prog step ε β := fun s ↦ (answer s, [a])

/-- A program that hands on its failure as its result. -/
def attempt (x : Prog step ε β) : Prog step ε (Except ε β) := fun s ↦ (.ok (x s).1, (x s).2)

/-- A loop, which ends at the first failure. -/
def forEach (f : β → Prog step ε Unit) : List β → Prog step ε Unit
  | [] => pure ()
  | b :: bs => do
    f b
    forEach f bs

/-- A loop that collects the results. -/
def mapEach (f : β → Prog step ε γ) : List β → Prog step ε (List γ)
  | [] => pure []
  | b :: bs => do
    let c ← f b
    let cs ← mapEach f bs
    pure (c :: cs)

/-! ## Programs that succeed -/

variable {x : Prog step ε β} {f : β → Prog step ε γ} {s : σ} {as : List α}

@[simp] theorem pure_apply (b : β) (s : σ) : (pure b : Prog step ε β) s = (.ok b, []) := rfl

@[simp] theorem get_apply (s : σ) : (get : Prog step ε σ) s = (.ok s, []) := rfl

@[simp] theorem lift_apply (y : Except ε β) (s : σ) : (lift y : Prog step ε β) s = (y, []) := rfl

@[simp] theorem liftM_eq_lift (y : Except ε β) : (liftM y : Prog step ε β) = lift y := rfl

@[simp] theorem act_apply (a : α) (answer : σ → Except ε β) (s : σ) :
    (act a answer : Prog step ε β) s = (answer s, [a]) := rfl

theorem bind_eq_ok {c : γ} : (x >>= f) s = (.ok c, as) ↔ ∃ b as₁ as₂, x s = (.ok b, as₁) ∧
    f b (final step s as₁) = (.ok c, as₂) ∧ as = as₁ ++ as₂ := by
  have hbind : (x >>= f) s = Prog.bind x f s := rfl
  rw [hbind, Prog.bind]
  constructor
  · intro h
    split at h
    · exact absurd (Prod.ext_iff.mp h).1 (by simp)
    · next b bs hx =>
      split at h
      next result cs hf =>
        obtain ⟨rfl, rfl⟩ := Prod.mk.inj h
        exact ⟨b, bs, cs, hx, hf, rfl⟩
  · rintro ⟨b, as₁, as₂, hx, hf, rfl⟩
    simp only [hx, hf]

theorem bind_eq_error {e : ε} : (x >>= f) s = (.error e, as) ↔ x s = (.error e, as) ∨
    ∃ b as₁ as₂, x s = (.ok b, as₁) ∧ f b (final step s as₁) = (.error e, as₂) ∧
      as = as₁ ++ as₂ := by
  have hbind : (x >>= f) s = Prog.bind x f s := rfl
  rw [hbind, Prog.bind]
  split
  · next e' bs hx =>
    rw [hx, Prod.mk.injEq, Except.error.injEq]
    simp
  · next b bs hx =>
    rw [hx]
    simp [Prod.ext_iff, eq_comm]

/-- A program whose result has been computed. -/
theorem eq_ok_of_fst {b : β} (h : (x s).1 = .ok b) : x s = (.ok b, (x s).2) := Prod.ext h rfl

theorem pure_eq_ok {b c : β} :
    (pure b : Prog step ε β) s = (.ok c, as) ↔ b = c ∧ as = [] := by
  rw [pure_apply, Prod.mk.injEq, Except.ok.injEq]
  exact and_congr_right fun _ ↦ eq_comm

theorem act_eq_ok {a : α} {answer : σ → Except ε β} {b : β} :
    (act a answer : Prog step ε β) s = (.ok b, as) ↔ answer s = .ok b ∧ as = [a] := by
  rw [act_apply, Prod.mk.injEq]
  exact and_congr_right fun _ ↦ eq_comm

theorem attempt_eq_ok {result : Except ε β} :
    attempt x s = (.ok result, as) ↔ x s = (result, as) := by
  rw [attempt, Prod.mk.injEq, Except.ok.injEq, Prod.ext_iff]

theorem lift_bind_eq_ok {y : Except ε β} {c : γ} :
    (lift y >>= f) s = (.ok c, as) ↔ ∃ b, y = .ok b ∧ f b s = (.ok c, as) := by
  rw [bind_eq_ok]
  constructor
  · rintro ⟨b, as₁, as₂, hy, hf, rfl⟩
    obtain ⟨hb, rfl⟩ := Prod.ext_iff.mp hy
    exact ⟨b, hb, hf⟩
  · rintro ⟨b, rfl, hf⟩
    exact ⟨b, [], as, rfl, hf, rfl⟩

theorem get_bind_eq_ok {g : σ → Prog step ε γ} {c : γ} :
    (get >>= g) s = (.ok c, as) ↔ g s s = (.ok c, as) := by
  rw [bind_eq_ok]
  constructor
  · rintro ⟨b, as₁, as₂, hget, hg, rfl⟩
    obtain ⟨hb, rfl⟩ := Prod.ext_iff.mp hget
    obtain rfl := Except.ok.inj hb
    exact hg
  · exact fun h ↦ ⟨s, [], as, rfl, h, rfl⟩

theorem forEach_cons_eq_ok {g : β → Prog step ε Unit} {b : β} {bs : List β} :
    forEach g (b :: bs) s = (.ok (), as) ↔ ∃ as₁ as₂, g b s = (.ok (), as₁) ∧
      forEach g bs (final step s as₁) = (.ok (), as₂) ∧ as = as₁ ++ as₂ := by
  rw [forEach, bind_eq_ok]
  exact ⟨fun ⟨_, as₁, as₂, h⟩ ↦ ⟨as₁, as₂, h⟩, fun ⟨as₁, as₂, h⟩ ↦ ⟨(), as₁, as₂, h⟩⟩

/-- In a loop that succeeds, the body has succeeded for each element, at some point of the run. -/
theorem forEach_mem {g : β → Prog step ε Unit} {bs : List β}
    (h : forEach g bs s = (.ok (), as)) {b : β} (hb : b ∈ bs) : ∃ before during after,
      g b (final step s before) = (.ok (), during) ∧ as = before ++ during ++ after := by
  induction bs generalizing s as with
  | nil => cases hb
  | cons c bs ih =>
    obtain ⟨as₁, as₂, hc, hrest, rfl⟩ := forEach_cons_eq_ok.mp h
    rcases List.mem_cons.mp hb with rfl | hb
    · exact ⟨[], as₁, as₂, hc, rfl⟩
    · obtain ⟨before, during, after, hg, rfl⟩ := ih hrest hb
      exact ⟨as₁ ++ before, during, after, by rwa [final_append], by simp⟩

/-- Each result of a loop that succeeds comes from the body, at some point of the run. -/
theorem mapEach_mem {bs : List β} {cs : List γ} (h : mapEach f bs s = (.ok cs, as)) {c : γ}
    (hc : c ∈ cs) : ∃ b ∈ bs, ∃ before during after,
      f b (final step s before) = (.ok c, during) ∧ as = before ++ during ++ after := by
  induction bs generalizing s as cs with
  | nil =>
    obtain ⟨rfl, -⟩ := pure_eq_ok.mp h
    cases hc
  | cons b bs ih =>
    obtain ⟨d, as₁, as₂, hd, hloop, rfl⟩ := bind_eq_ok.mp h
    obtain ⟨ds, as₃, as₄, hrest, hpure, rfl⟩ := bind_eq_ok.mp hloop
    obtain ⟨rfl, rfl⟩ := pure_eq_ok.mp hpure
    rcases List.mem_cons.mp hc with rfl | hc
    · exact ⟨b, List.mem_cons_self, [], as₁, as₃, hd, by simp⟩
    · obtain ⟨b', hb', before, during, after, hf, rfl⟩ := ih hrest hc
      exact ⟨b', List.mem_cons_of_mem _ hb', as₁ ++ before, during, after,
        by rwa [final_append], by simp⟩

/-! ## The actions of a program -/

/-- Every action the program takes is one of a kind, whether it succeeds or not. -/
def Emits (Q : α → Prop) (x : Prog step ε β) : Prop := ∀ s, ∀ a ∈ (x s).2, Q a

variable {Q : α → Prop}

theorem Emits.pure (b : β) : Emits Q (pure b : Prog step ε β) := fun _ _ h ↦ by cases h

theorem Emits.get : Emits Q (get : Prog step ε σ) := fun _ _ h ↦ by cases h

theorem Emits.lift (y : Except ε β) : Emits Q (lift y : Prog step ε β) := fun _ _ h ↦ by cases h

theorem Emits.act {a : α} (h : Q a) (answer : σ → Except ε β) :
    Emits Q (act a answer : Prog step ε β) := fun _ _ hb ↦ by rwa [List.mem_singleton.mp hb]

theorem Emits.attempt (h : Emits Q x) : Emits Q x.attempt := h

theorem Emits.bind_of_ok (hx : Emits Q x)
    (hf : ∀ b s as, x s = (.ok b, as) → Emits Q (f b)) : Emits Q (x >>= f) := by
  intro s a ha
  have hbind : (x >>= f) s = Prog.bind x f s := rfl
  rw [hbind, Prog.bind] at ha
  split at ha
  · next e as hfail =>
    exact hx s a (by rwa [hfail])
  · next b as hok =>
    have hfirst : ∀ a ∈ as, Q a := by simpa only [hok] using hx s
    rcases List.mem_append.mp ha with ha | ha
    · exact hfirst a ha
    · exact hf b s as hok _ a ha

theorem Emits.bind (hx : Emits Q x) (hf : ∀ b, Emits Q (f b)) : Emits Q (x >>= f) :=
  hx.bind_of_ok fun b _ _ _ ↦ hf b

theorem Emits.lift_bind {y : Except ε β} (hf : ∀ b, y = .ok b → Emits Q (f b)) :
    Emits Q (Prog.lift y >>= f) := by
  cases y with
  | ok b => exact fun s a ha ↦ hf b rfl s a ha
  | error e => exact fun s a ha ↦ by cases ha

theorem Emits.forEach {g : β → Prog step ε Unit} {bs : List β} (h : ∀ b ∈ bs, Emits Q (g b)) :
    Emits Q (forEach g bs) := by
  induction bs with
  | nil => exact Emits.pure ()
  | cons b bs ih =>
    exact (h b List.mem_cons_self).bind fun _ ↦ ih fun c hc ↦ h c (List.mem_cons_of_mem _ hc)

theorem Emits.mapEach {bs : List β} (h : ∀ b ∈ bs, Emits Q (f b)) :
    Emits Q (mapEach f bs) := by
  induction bs with
  | nil => exact Emits.pure []
  | cons b bs ih =>
    exact (h b List.mem_cons_self).bind fun _ ↦
      (ih fun c hc ↦ h c (List.mem_cons_of_mem _ hc)).bind fun _ ↦ Emits.pure _

/-! ## The failures of a program -/

/-- The program does not end in the given failure. -/
def Avoids (e : ε) (x : Prog step ε β) : Prop := ∀ s, (x s).1 ≠ .error e

variable {e : ε}

theorem Avoids.pure (b : β) : Avoids e (pure b : Prog step ε β) := fun _ h ↦ by cases h

theorem Avoids.get : Avoids e (get : Prog step ε σ) := fun _ h ↦ by cases h

theorem Avoids.lift {y : Except ε β} (h : y ≠ .error e) : Avoids e (lift y : Prog step ε β) :=
  fun _ ↦ h

theorem Avoids.act {a : α} {answer : σ → Except ε β} (h : ∀ s, answer s ≠ .error e) :
    Avoids e (act a answer : Prog step ε β) := h

theorem Avoids.attempt (x : Prog step ε β) : Avoids e x.attempt := fun _ h ↦ by cases h

theorem Avoids.bind (hx : Avoids e x) (hf : ∀ b, Avoids e (f b)) : Avoids e (x >>= f) := by
  intro s h
  have hbind : (x >>= f) s = Prog.bind x f s := rfl
  rw [hbind, Prog.bind] at h
  split at h
  · next e' as hfail =>
    obtain rfl : e' = e := Except.error.inj h
    exact hx s (by rw [hfail])
  · next b as hok => exact hf b _ h

theorem Avoids.lift_bind {y : Except ε β} (hy : y ≠ .error e)
    (hf : ∀ b, y = .ok b → Avoids e (f b)) : Avoids e (Prog.lift y >>= f) := by
  cases y with
  | ok b => exact fun s h ↦ hf b rfl s h
  | error e' => exact fun s h ↦ hy (by rw [Except.error.inj h])

/-- A sequence fails in this way in its first part, if the rest of it does not. -/
theorem eq_error_of_bind {x : Prog step ε β} {f : β → Prog step ε γ} {s : σ} {as : List α}
    (h : (x >>= f) s = (.error e, as)) (hf : ∀ b, Avoids e (f b)) : x s = (.error e, as) := by
  rcases bind_eq_error.mp h with hx | ⟨b, as₁, as₂, -, hrest, -⟩
  · exact hx
  · exact absurd (congrArg Prod.fst hrest) (hf b _)

/-- It fails in this way in the rest of it, if the first part does not. -/
theorem exists_error_of_bind {x : Prog step ε β} {f : β → Prog step ε γ} {s : σ} {as : List α}
    (h : (x >>= f) s = (.error e, as)) (hx : Avoids e x) : ∃ b as₁ as₂, x s = (.ok b, as₁) ∧
      f b (final step s as₁) = (.error e, as₂) ∧ as = as₁ ++ as₂ := by
  rcases bind_eq_error.mp h with hfail | hrest
  · exact absurd (congrArg Prod.fst hfail) (hx s)
  · exact hrest

theorem Avoids.forEach {g : β → Prog step ε Unit} {bs : List β} (h : ∀ b ∈ bs, Avoids e (g b)) :
    Avoids e (forEach g bs) := by
  induction bs with
  | nil => exact Avoids.pure ()
  | cons b bs ih =>
    exact (h b List.mem_cons_self).bind fun _ ↦ ih fun c hc ↦ h c (List.mem_cons_of_mem _ hc)

theorem Avoids.mapEach {bs : List β} (h : ∀ b ∈ bs, Avoids e (f b)) :
    Avoids e (mapEach f bs) := by
  induction bs with
  | nil => exact Avoids.pure []
  | cons b bs ih =>
    exact (h b List.mem_cons_self).bind fun _ ↦
      (ih fun c hc ↦ h c (List.mem_cons_of_mem _ hc)).bind fun _ ↦ Avoids.pure _

end Prog

end Machine
