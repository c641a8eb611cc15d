import Mathlib.Data.List.Nodup
import Mathlib.Order.Lattice

/-!
# Sorting a list by a comparison that need not be an order

A sort is given a comparison of two elements, and promises something of its result only if the
comparison is an order.  `StrictTotalOn` says that it is one for the elements of a given list, whose
keys are distinct.

* `StrictTotalOn.eq_of_sortedBy` — then there is one way only to sort the list, whatever order its
  elements came in.
* `apart` is the comparison of different elements, for a sort that holds no element against itself:
  a sorted list is sorted by it, and the other way round (`sortedBy_apart`).
* `insertionSort` is a sort that is run here with comparisons of both kinds.
-/

set_option autoImplicit false

namespace Sorting

universe u v w

variable {α : Type u} {κ : Type w} {less : α → α → Bool} {as bs : List α}

/-- A comparison is a strict total order of the elements of a list, in which no key occurs
twice. -/
structure StrictTotalOn (key : α → κ) (less : α → α → Bool) (as : List α) : Prop where
  irrefl : ∀ a ∈ as, less a a = false
  asymm : ∀ a ∈ as, ∀ b ∈ as, less a b = true → less b a = false
  trans : ∀ a ∈ as, ∀ b ∈ as, ∀ c ∈ as, less a b = true → less b c = true → less a c = true
  total : ∀ a ∈ as, ∀ b ∈ as, key a ≠ key b → less a b = true ∨ less b a = true

variable {key : α → κ}

theorem StrictTotalOn.of_subset (h : StrictTotalOn key less as) (hsub : bs ⊆ as) :
    StrictTotalOn key less bs where
  irrefl a ha := h.irrefl a (hsub ha)
  asymm a ha b hb := h.asymm a (hsub ha) b (hsub hb)
  trans a ha b hb c hc := h.trans a (hsub ha) b (hsub hb) c (hsub hc)
  total a ha b hb := h.total a (hsub ha) b (hsub hb)

/-- A comparison of ranks, where elements with different keys have different ranks. -/
theorem StrictTotalOn.of_rank {β : Type v} [LinearOrder β] (rank : α → β)
    (hless : ∀ a ∈ as, ∀ b ∈ as, less a b = true ↔ rank a < rank b)
    (hrank : ∀ a ∈ as, ∀ b ∈ as, rank a = rank b → key a = key b) :
    StrictTotalOn key less as where
  irrefl a ha := Bool.eq_false_iff.mpr fun h ↦ lt_irrefl _ ((hless a ha a ha).mp h)
  asymm a ha b hb hab := Bool.eq_false_iff.mpr fun hba ↦
    lt_asymm ((hless a ha b hb).mp hab) ((hless b hb a ha).mp hba)
  trans a ha b hb c hc hab hbc := (hless a ha c hc).mpr
    (lt_trans ((hless a ha b hb).mp hab) ((hless b hb c hc).mp hbc))
  total a ha b hb hne := by
    rw [hless a ha b hb, hless b hb a ha]
    exact lt_or_gt_of_ne fun heq ↦ hne (hrank a ha b hb heq)

/-- What a sort promises of its result: nothing is smaller than what comes before it. -/
def SortedBy (less : α → α → Bool) (as : List α) : Prop :=
  as.Pairwise fun a b ↦ less b a = false

/-- **There is only one way to sort a list by a strict total order.** -/
theorem StrictTotalOn.eq_of_sortedBy (h : StrictTotalOn key less as) (hperm : bs.Perm as)
    (hnodup : (as.map key).Nodup) (has : SortedBy less as) (hbs : SortedBy less bs) : bs = as := by
  refine hperm.eq_of_pairwise (fun a b ha hb hab hba ↦ ?_) hbs has
  have ha := hperm.subset ha
  by_contra hne
  have hkeys : key a ≠ key b := fun heq ↦ hne (List.inj_on_of_nodup_map hnodup ha hb heq)
  rcases h.total a ha b hb hkeys with hless | hless
  · rw [hless] at hba
    cases hba
  · rw [hless] at hab
    cases hab

/-! ## Different elements -/

section Apart

variable [DecidableEq κ]

/-- The comparison, with no element smaller than one that has its key. -/
def apart (key : α → κ) (less : α → α → Bool) (a b : α) : Bool :=
  decide (key a ≠ key b) && less a b

theorem apart_of_ne {a b : α} (h : key a ≠ key b) : apart key less a b = less a b := by
  simp [apart, h]

theorem apart_of_eq {a b : α} (h : key a = key b) : apart key less a b = false := by
  simp [apart, h]

/-- A strict total order is one of different elements. -/
theorem StrictTotalOn.apart (h : StrictTotalOn key less as) (hnodup : (as.map key).Nodup) :
    StrictTotalOn key (apart key less) as where
  irrefl a _ := apart_of_eq rfl
  asymm a ha b hb hab := by
    simp only [Sorting.apart, Bool.and_eq_true, decide_eq_true_eq] at hab
    rw [apart_of_ne (Ne.symm hab.1), h.asymm a ha b hb hab.2]
  trans a ha b hb c hc hab hbc := by
    simp only [Sorting.apart, Bool.and_eq_true, decide_eq_true_eq] at hab hbc ⊢
    refine ⟨fun heq ↦ ?_, h.trans a ha b hb c hc hab.2 hbc.2⟩
    obtain rfl := List.inj_on_of_nodup_map hnodup ha hc heq
    rw [h.asymm a ha b hb hab.2] at hbc
    exact Bool.false_ne_true hbc.2
  total a ha b hb hne := by
    rw [apart_of_ne hne, apart_of_ne (Ne.symm hne)]
    exact h.total a ha b hb hne

end Apart

/-! ## Insertion sort -/

section Insertion

variable (less)

/-- An element moves to the front of a list as long as it is smaller than what is before it.  The
list is written backwards. -/
def insertBack (a : α) : List α → List α
  | [] => [a]
  | b :: bs => if less a b then b :: insertBack a bs else a :: b :: bs

/-- Insertion from the back, as short lists are sorted. -/
def insertionSort (as : List α) : List α := (as.reverse.foldr (insertBack less) []).reverse

end Insertion

theorem insertBack_perm (a : α) (bs : List α) : (insertBack less a bs).Perm (a :: bs) := by
  induction bs with
  | nil => exact List.Perm.refl _
  | cons b bs ih =>
    rw [insertBack]
    split
    · exact (ih.cons b).trans (List.Perm.swap a b bs)
    · exact List.Perm.refl _

theorem foldr_insertBack_perm (as : List α) : (as.foldr (insertBack less) []).Perm as := by
  induction as with
  | nil => exact List.Perm.refl _
  | cons a as ih => exact (insertBack_perm a _).trans (ih.cons a)

theorem insertionSort_perm (as : List α) : (insertionSort less as).Perm as :=
  (List.reverse_perm _).trans ((foldr_insertBack_perm _).trans (List.reverse_perm _))

/-- Inserting into a list that is sorted backwards. -/
theorem sortedBack_insertBack {a : α} (h : StrictTotalOn key less (a :: bs))
    (hnodup : ((a :: bs).map key).Nodup) (hbs : bs.Pairwise fun b c ↦ less b c = false) :
    (insertBack less a bs).Pairwise fun b c ↦ less b c = false := by
  induction bs with
  | nil => exact List.pairwise_singleton _ _
  | cons b bs ih =>
    have ha : a ∈ a :: b :: bs := List.mem_cons_self
    have hb : b ∈ a :: b :: bs := List.mem_cons_of_mem _ List.mem_cons_self
    obtain ⟨hfirst, hrest⟩ := List.pairwise_cons.mp hbs
    rw [insertBack]
    split
    · next hab =>
      have hsub : a :: bs ⊆ a :: b :: bs := List.cons_subset_cons a (List.subset_cons_self b bs)
      have hsublist : (a :: bs).Sublist (a :: b :: bs) := (List.sublist_cons_self b bs).cons_cons a
      refine List.pairwise_cons.mpr ⟨fun c hc ↦ ?_,
        ih (h.of_subset hsub) (hnodup.sublist (hsublist.map key)) hrest⟩
      rcases List.mem_cons.mp ((insertBack_perm a bs).mem_iff.mp hc) with rfl | hc
      · exact h.asymm _ ha b hb hab
      · exact hfirst c hc
    · next hab =>
      refine List.pairwise_cons.mpr ⟨fun c hc ↦ ?_, hbs⟩
      rcases List.mem_cons.mp hc with rfl | hmem
      · exact Bool.eq_false_iff.mpr hab
      · -- `b` is smaller than `a`, so what `a` is smaller than, `b` is smaller than
        have hne : key a ≠ key b := fun heq ↦
          (List.nodup_cons.mp hnodup).1 (heq ▸ List.mem_map_of_mem List.mem_cons_self)
        have hba : less b a = true := (h.total a ha b hb hne).resolve_left hab
        refine Bool.eq_false_iff.mpr fun hac ↦ ?_
        have hbc := h.trans b hb a ha c (List.mem_cons_of_mem _ hc) hba hac
        rw [hfirst c hmem] at hbc
        cases hbc

/-- **Insertion sort keeps the promise of a sort.** -/
theorem sortedBy_insertionSort (h : StrictTotalOn key less as) (hnodup : (as.map key).Nodup) :
    SortedBy less (insertionSort less as) := by
  have hback : ∀ bs : List α, bs ⊆ as → (bs.map key).Nodup →
      (bs.foldr (insertBack less) []).Pairwise fun b c ↦ less b c = false := by
    intro bs hsub hnodup
    induction bs with
    | nil => exact List.Pairwise.nil
    | cons b bs ih =>
      have hperm : (bs.foldr (insertBack less) []).Perm bs := foldr_insertBack_perm bs
      have hin : b :: bs.foldr (insertBack less) [] ⊆ as :=
        fun c hc ↦ hsub ((hperm.cons b).subset hc)
      refine sortedBack_insertBack (h.of_subset hin)
        (((hperm.cons b).map key).nodup_iff.mpr hnodup) ?_
      exact ih (fun c hc ↦ hsub (List.mem_cons_of_mem _ hc)) (List.nodup_cons.mp hnodup).2
  rw [SortedBy, insertionSort, List.pairwise_reverse]
  refine hback as.reverse (List.reverse_perm as).subset ?_
  rwa [((List.reverse_perm as).map key).nodup_iff]

end Sorting
