import Mathlib.Data.List.Sort
import Mathlib.Data.List.Forall2

/-!
# Selecting, ordering and cutting a list

The result of a query is made from a list in three steps: some elements are kept, what is kept is
put in order, and a piece is cut out.  This file is about two such queries side by side.

* `filter_insertionSort`: keeping and ordering commute, when the order is total and transitive, so
  it does not matter for the order of the elements kept which others there were.
* `Forall₂.insertionSort` and `Forall₂.cut`: lists related element by element stay so under ordering
  and cutting, when related elements have the same place in the order.
-/

set_option autoImplicit false

namespace Selection

open List

variable {α β : Type*} {r : α → α → Prop} [DecidableRel r]

/-! ## Keeping and ordering -/

theorem orderedInsert_of_forall_rel {a : α} {l : List α} (h : ∀ b ∈ l, r a b) :
    l.orderedInsert r a = a :: l := by
  cases l with
  | nil => rfl
  | cons b l => exact orderedInsert_cons_of_le r l (h b mem_cons_self)

/-- Inserting among the elements of an ordered list that are kept. -/
theorem filter_orderedInsert [IsTrans α r] (p : α → Bool) (a : α) {l : List α}
    (hl : l.Pairwise r) : (l.orderedInsert r a).filter p =
      if p a then (l.filter p).orderedInsert r a else l.filter p := by
  induction l with
  | nil => cases h : p a <;> simp [h]
  | cons b l ih =>
    rw [pairwise_cons] at hl
    by_cases hab : r a b
    · -- everything from `b` on comes after `a`, so `a` is first among what is kept of it
      have hfirst : ∀ c ∈ (b :: l).filter p, r a c := by
        intro c hc
        rcases mem_cons.mp (mem_of_mem_filter hc) with rfl | hmem
        · exact hab
        · exact IsTrans.trans a b c hab (hl.1 c hmem)
      rw [orderedInsert_cons_of_le r l hab, filter_cons]
      split
      · exact (orderedInsert_of_forall_rel hfirst).symm
      · rfl
    · rw [orderedInsert_of_not_le r l hab, filter_cons, ih hl.2, filter_cons]
      cases p a <;> cases p b <;> simp [hab]

/-- **Keeping and ordering commute.** -/
theorem filter_insertionSort [Std.Total r] [IsTrans α r] (p : α → Bool) (l : List α) :
    (l.insertionSort r).filter p = (l.filter p).insertionSort r := by
  induction l with
  | nil => rfl
  | cons a l ih =>
    rw [insertionSort_cons, filter_orderedInsert p a (pairwise_insertionSort r l), ih, filter_cons]
    split
    · rw [insertionSort_cons]
    · rfl

/-! ## Related lists -/

variable {s : β → β → Prop} [DecidableRel s] {R : α → β → Prop}

/-- Related elements have the same place in the order. -/
def SamePlace (r : α → α → Prop) (s : β → β → Prop) (R : α → β → Prop) : Prop :=
  ∀ a b a' b', R a a' → R b b' → (r a b ↔ s a' b')

theorem forall₂_orderedInsert (hR : SamePlace r s R) {a : α} {b : β} (hab : R a b) {l : List α}
    {l' : List β} (h : Forall₂ R l l') :
    Forall₂ R (l.orderedInsert r a) (l'.orderedInsert s b) := by
  induction h with
  | nil => exact .cons hab .nil
  | @cons c d l l' hcd hrest ih =>
    rw [orderedInsert_cons, orderedInsert_cons]
    by_cases hac : r a c
    · rw [if_pos hac, if_pos ((hR a c b d hab hcd).mp hac)]
      exact .cons hab (.cons hcd hrest)
    · rw [if_neg hac, if_neg fun hbd ↦ hac ((hR a c b d hab hcd).mpr hbd)]
      exact .cons hcd ih

theorem forall₂_insertionSort (hR : SamePlace r s R) {l : List α} {l' : List β}
    (h : Forall₂ R l l') : Forall₂ R (l.insertionSort r) (l'.insertionSort s) := by
  induction h with
  | nil => exact .nil
  | cons hab _ ih =>
    rw [insertionSort_cons, insertionSort_cons]
    exact forall₂_orderedInsert hR hab ih

/-- Cut `offset` elements off, and then take `limit` of them when there is a limit. -/
def cut (offset : ℕ) (limit : Option ℕ) (l : List α) : List α :=
  match limit with
  | none => l.drop offset
  | some n => (l.drop offset).take n

theorem forall₂_cut (offset : ℕ) (limit : Option ℕ) {l : List α} {l' : List β}
    (h : Forall₂ R l l') : Forall₂ R (cut offset limit l) (cut offset limit l') := by
  cases limit with
  | none => exact forall₂_drop offset h
  | some n => exact forall₂_take n (forall₂_drop offset h)

end Selection
