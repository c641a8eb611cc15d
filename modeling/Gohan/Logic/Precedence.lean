import Mathlib.Data.List.Basic

/-!
# Lists in which everything refers to what comes before

Things that refer to each other can be made one after the other if each refers only to earlier ones;
and for the same reason they can be taken away one after the other in the opposite order.

`Grounded` is such a list.  Where it is cut, what a thing refers to is before the cut
(`Grounded.mem_before`), and what refers to it is after it (`Grounded.mem_after`).  `foldl_before`
and `foldlM_before` are the rules for loops over a list: the invariant speaks of the part that the
loop is through with.
-/

set_option autoImplicit false

namespace Precedence

universe u v w

variable {α : Type u}

/-- Nothing refers to a later one, or to itself. -/
structure Grounded (refers : α → α → Prop) (l : List α) : Prop where
  after : l.Pairwise fun a b ↦ ¬ refers a b
  itself : ∀ a ∈ l, ¬ refers a a

section Grounded

variable {refers : α → α → Prop} {l l' before later : List α} {a b : α}

theorem grounded_iff : Grounded refers l ↔
    (l.Pairwise fun a b ↦ ¬ refers a b) ∧ ∀ a ∈ l, ¬ refers a a :=
  ⟨fun h ↦ ⟨h.after, h.itself⟩, fun h ↦ ⟨h.1, h.2⟩⟩

instance [DecidableRel refers] : Decidable (Grounded refers l) :=
  decidable_of_iff _ grounded_iff.symm

theorem grounded_append_iff : Grounded refers (l ++ l') ↔
    Grounded refers l ∧ Grounded refers l' ∧ ∀ a ∈ l, ∀ b ∈ l', ¬ refers a b := by
  rw [grounded_iff, grounded_iff, grounded_iff, List.pairwise_append, List.forall_mem_append]
  constructor
  · rintro ⟨⟨hl, hl', hacross⟩, hitself, hitself'⟩
    exact ⟨⟨hl, hitself⟩, ⟨hl', hitself'⟩, hacross⟩
  · rintro ⟨⟨hl, hitself⟩, ⟨hl', hitself'⟩, hacross⟩
    exact ⟨⟨hl, hl', hacross⟩, hitself, hitself'⟩

/-- What a thing refers to comes before it. -/
theorem Grounded.mem_before (h : Grounded refers (before ++ a :: later))
    (hb : b ∈ before ++ a :: later) (hab : refers a b) : b ∈ before := by
  obtain ⟨-, hlater, -⟩ := grounded_append_iff.mp h
  rcases List.mem_append.mp hb with hb | hb
  · exact hb
  rcases List.mem_cons.mp hb with rfl | hb
  · exact absurd hab (hlater.itself b List.mem_cons_self)
  · exact absurd hab ((List.pairwise_cons.mp hlater.after).1 b hb)

/-- What refers to a thing comes after it. -/
theorem Grounded.mem_after (h : Grounded refers (before ++ a :: later))
    (hb : b ∈ before ++ a :: later) (hba : refers b a) : b ∈ later := by
  obtain ⟨-, hlater, hacross⟩ := grounded_append_iff.mp h
  rcases List.mem_append.mp hb with hb | hb
  · exact absurd hba (hacross b hb a List.mem_cons_self)
  rcases List.mem_cons.mp hb with rfl | hb
  · exact absurd hba (hlater.itself b List.mem_cons_self)
  · exact hb

end Grounded

/-! ## Loops -/

section Loops

variable {σ : Type v} {P : List α → σ → Prop} {s : σ} {l : List α}

/-- A loop over a list.  `P done s` says what holds when the loop is through with `done`. -/
theorem foldl_before {step : σ → α → σ} (hstart : P [] s)
    (hstep : ∀ done a later s, done ++ a :: later = l → P done s → P (done ++ [a]) (step s a)) :
    P l (l.foldl step s) := by
  suffices hloop : ∀ later done s, done ++ later = l → P done s → P l (later.foldl step s) from
    hloop l [] s rfl hstart
  intro later
  induction later with
  | nil =>
    rintro done s rfl hdone
    rwa [List.append_nil]
  | cons a later ih =>
    intro done s hl hdone
    exact ih (done ++ [a]) (step s a) (by rw [← hl, List.append_assoc]; rfl)
      (hstep done a later s hl hdone)

/-- A loop that may fail. -/
theorem foldlM_before {ε : Type w} {step : σ → α → Except ε σ} (hstart : P [] s)
    (hstep : ∀ done a later s, done ++ a :: later = l → P done s →
      ∃ t, step s a = .ok t ∧ P (done ++ [a]) t) :
    ∃ t, l.foldlM step s = .ok t ∧ P l t := by
  suffices hloop : ∀ later done s, done ++ later = l → P done s →
      ∃ t, later.foldlM step s = .ok t ∧ P l t from hloop l [] s rfl hstart
  intro later
  induction later with
  | nil =>
    rintro done s rfl hdone
    exact ⟨s, rfl, by rwa [List.append_nil]⟩
  | cons a later ih =>
    intro done s hl hdone
    obtain ⟨t, ht, hP⟩ := hstep done a later s hl hdone
    rw [List.foldlM_cons, ht]
    exact ih (done ++ [a]) t (by rw [← hl, List.append_assoc]; rfl) hP

end Loops

end Precedence
