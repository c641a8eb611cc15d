import Mathlib.Data.List.Count
import Mathlib.Logic.Relation

/-!
# What can be reached within a list

`closure rel elems seed` marks the members of `elems` from which a member marked by `seed` can be
reached, in any number of steps of `rel` that stay within `elems`.  It is computed in rounds, each
of which marks the members one step away from a marked one.  As long as something is to be marked, a
round marks at least one member more; so there need not be more rounds than members, and
`closure_iff` says that the marks are then complete.
-/

set_option autoImplicit false

namespace Reach

universe u

variable {α : Type u} (rel : α → α → Bool) (elems : List α) (seed : α → Bool)

/-- The marks after a number of rounds. -/
def rounds : ℕ → α → Bool
  | 0 => seed
  | n + 1 => fun a ↦ rounds n a || elems.any fun b ↦ rounds n b && rel a b

/-- The marks after as many rounds as there are members. -/
def closure : α → Bool := rounds rel elems seed elems.length

/-- The next round marks nothing new. -/
def Closed (n : ℕ) : Prop :=
  ∀ a ∈ elems, rounds rel elems seed (n + 1) a = true → rounds rel elems seed n a = true

variable {rel elems seed}

theorem rounds_succ_iff {n : ℕ} {a : α} : rounds rel elems seed (n + 1) a = true ↔
    rounds rel elems seed n a = true ∨
      ∃ b ∈ elems, rounds rel elems seed n b = true ∧ rel a b = true := by
  simp [rounds]

theorem Closed.succ {n : ℕ} (h : Closed rel elems seed n) : Closed rel elems seed (n + 1) := by
  intro a ha hmark
  rcases rounds_succ_iff.mp hmark with hmark | ⟨b, hb, hmark, hrel⟩
  · exact hmark
  · exact rounds_succ_iff.mpr (.inr ⟨b, hb, h b hb hmark, hrel⟩)

/-- A predicate that holds of more members, and of one in particular. -/
theorem countP_lt_countP {p q : α → Bool} {l : List α} (hsub : ∀ a, p a = true → q a = true)
    (hmore : ∃ a ∈ l, q a = true ∧ p a = false) : l.countP p < l.countP q := by
  induction l with
  | nil => simp at hmore
  | cons c l ih =>
    obtain ⟨a, ha, hq, hp⟩ := hmore
    have hle : l.countP p ≤ l.countP q := List.countP_mono_left fun b _ ↦ hsub b
    rw [List.countP_cons, List.countP_cons]
    rcases List.mem_cons.mp ha with rfl | ha
    · simp only [hq, hp, if_true, Bool.false_eq_true, if_false]
      omega
    · have hlt := ih ⟨a, ha, hq, hp⟩
      by_cases hc : p c = true
      · simp only [hc, hsub c hc, if_true]
        omega
      · simp only [hc, Bool.false_eq_true, if_false]
        omega

/-- After `n` rounds nothing new is to be marked, or there are `n` marked members. -/
theorem closed_or_le (n : ℕ) :
    Closed rel elems seed n ∨ n ≤ elems.countP (rounds rel elems seed n) := by
  induction n with
  | zero => exact .inr (Nat.zero_le _)
  | succ n ih =>
    by_cases hclosed : Closed rel elems seed n
    · exact .inl hclosed.succ
    · have hle := ih.resolve_left hclosed
      have hlt : elems.countP (rounds rel elems seed n) <
          elems.countP (rounds rel elems seed (n + 1)) := by
        refine countP_lt_countP (fun a ha ↦ rounds_succ_iff.mpr (.inl ha)) ?_
        simp only [Closed, not_forall] at hclosed
        obtain ⟨a, ha, hmark, hnot⟩ := hclosed
        exact ⟨a, ha, hmark, by simpa using hnot⟩
      exact .inr (by omega)

theorem closed_length : Closed rel elems seed elems.length := by
  have hcases : Closed rel elems seed elems.length ∨ _ := closed_or_le elems.length
  rcases hcases with h | h
  · exact h
  · intro a ha _
    have hall := List.countP_eq_length.mp (Nat.le_antisymm List.countP_le_length h)
    exact hall a ha

/-- **The marks are right and complete.** -/
theorem closure_iff {a : α} (ha : a ∈ elems) : closure rel elems seed a = true ↔
    ∃ b, seed b = true ∧ Relation.ReflTransGen (fun x y ↦ rel x y = true ∧ y ∈ elems) a b := by
  constructor
  · have hsound : ∀ n a, rounds rel elems seed n a = true → ∃ b, seed b = true ∧
        Relation.ReflTransGen (fun x y ↦ rel x y = true ∧ y ∈ elems) a b := by
      intro n
      induction n with
      | zero => exact fun a h ↦ ⟨a, h, .refl⟩
      | succ n ih =>
        intro a h
        rcases rounds_succ_iff.mp h with h | ⟨c, hc, h, hrel⟩
        · exact ih a h
        · obtain ⟨b, hb, hpath⟩ := ih c h
          exact ⟨b, hb, .head ⟨hrel, hc⟩ hpath⟩
    exact hsound _ a
  · rintro ⟨b, hb, hpath⟩
    have hseed : ∀ n, rounds rel elems seed n b = true := by
      intro n
      induction n with
      | zero => exact hb
      | succ n ih => exact rounds_succ_iff.mpr (.inl ih)
    induction hpath using Relation.ReflTransGen.head_induction_on with
    | refl => exact hseed _
    | @head a c hstep _ ih =>
      exact closed_length a ha (rounds_succ_iff.mpr (.inr ⟨c, hstep.2, ih hstep.2, hstep.1⟩))

/-! ## Marking in two goes -/

section Twice

variable {seed' : α → Bool} {a b : α}

theorem mem_of_reflTransGen (ha : a ∈ elems)
    (h : Relation.ReflTransGen (fun x y ↦ rel x y = true ∧ y ∈ elems) a b) : b ∈ elems := by
  cases h with
  | refl => exact ha
  | tail _ hstep => exact hstep.2

/-- Only the members matter that are marked in the beginning. -/
theorem closure_congr (h : ∀ b ∈ elems, seed b = seed' b) (ha : a ∈ elems) :
    closure rel elems seed a = closure rel elems seed' a := by
  rw [Bool.eq_iff_iff, closure_iff ha, closure_iff ha]
  refine exists_congr fun b ↦ and_congr_left fun hpath ↦ ?_
  rw [h b (mem_of_reflTransGen ha hpath)]

theorem closure_or_iff (ha : a ∈ elems) : closure rel elems (fun b ↦ seed b || seed' b) a = true ↔
    closure rel elems seed a = true ∨ closure rel elems seed' a = true := by
  simp only [closure_iff ha, Bool.or_eq_true, or_and_right, exists_or]

/-- **What is marked in the first go can be left out of the second.** -/
theorem closure_filter_iff (ha : a ∈ elems) (hnot : closure rel elems seed a = false) :
    closure rel (elems.filter fun b ↦ !closure rel elems seed b) seed' a = true ↔
      closure rel elems (fun b ↦ seed b || seed' b) a = true := by
  have hleft {x : α} (hx : x ∈ elems) (hmark : closure rel elems seed x = false) :
      x ∈ elems.filter fun b ↦ !closure rel elems seed b :=
    List.mem_filter.mpr ⟨hx, by rw [hmark]; rfl⟩
  rw [closure_iff (hleft ha hnot), closure_iff ha]
  constructor
  · rintro ⟨b, hb, hpath⟩
    refine ⟨b, by rw [hb, Bool.or_true], Relation.ReflTransGen.mono (fun x y hstep ↦ ?_) _ _ hpath⟩
    exact ⟨hstep.1, (List.mem_filter.mp hstep.2).1⟩
  · rintro ⟨b, hb, hpath⟩
    -- from where nothing is marked, every step leads to where nothing is
    induction hpath using Relation.ReflTransGen.head_induction_on with
    | refl =>
      refine ⟨b, (Bool.or_eq_true_iff.mp hb).resolve_left fun hseed ↦ ?_, .refl⟩
      rw [(closure_iff ha).mpr ⟨b, hseed, .refl⟩] at hnot
      cases hnot
    | @head x c hstep _ ih =>
      have hc : closure rel elems seed c = false := by
        by_contra hmark
        obtain ⟨d, hd, hpath⟩ := (closure_iff hstep.2).mp (by simpa using hmark)
        rw [(closure_iff ha).mpr ⟨d, hd, .head hstep hpath⟩] at hnot
        cases hnot
      obtain ⟨d, hd, hpath⟩ := ih hstep.2 hc
      exact ⟨d, hd, .head ⟨hstep.1, hleft hstep.2 hc⟩ hpath⟩

end Twice

end Reach
