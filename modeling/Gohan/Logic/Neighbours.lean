import Mathlib.Data.List.Nodup
import Mathlib.Logic.Function.Basic

/-!
# Merging neighbours

A list is passed once, and an element with the key of the one right before takes over what that one
has.  When equal keys stand next to each other (`Grouped`), two elements have the same in the end if
and only if their keys are the same (`merged_merge`).  A sorted list is grouped, for a key that the
order determines (`grouped_of_pairwise`).
-/

set_option autoImplicit false

universe u v w

namespace Neighbours

variable {ν : Type u} {κ : Type v} {μ : Type w} [DecidableEq ν] (key : ν → κ)

/-- What everyone has after a list has been passed that comes after `prev`. -/
def merge [DecidableEq κ] (prev : ν) : List ν → (ν → μ) → ν → μ
  | [], has => has
  | x :: xs, has =>
    if key x = key prev then merge x xs (Function.update has x (has prev)) else merge x xs has

/-- Equal keys stand next to each other. -/
def Grouped (xs : List ν) : Prop :=
  ∀ x y z, [x, y, z].Sublist xs → key x = key z → key y = key x

/-- The elements of a list share what they have by their keys, and nobody else shares anything. -/
structure Merged (has : ν → μ) (xs : List ν) : Prop where
  same : ∀ x ∈ xs, ∀ y ∈ xs, has x = has y ↔ key x = key y
  apart : ∀ x ∈ xs, ∀ y ∉ xs, has x ≠ has y
  alone : ∀ x ∉ xs, ∀ y ∉ xs, has x = has y → x = y

variable {key} {has : ν → μ} {xs : List ν}

omit [DecidableEq ν] in
/-- A list that is sorted by its keys is grouped. -/
theorem grouped_of_pairwise {r : ν → ν → Prop} (h : xs.Pairwise r)
    (hkey : ∀ x y z, key x = key z → r y z → r y x)
    (hanti : ∀ x ∈ xs, ∀ y ∈ xs, r x y → r y x → key x = key y) : Grouped key xs := by
  intro x y z hsub heq
  have hpair := h.sublist hsub
  simp only [List.pairwise_cons, List.mem_cons, List.not_mem_nil, or_false] at hpair
  have hxy : r x y := hpair.1 y (.inl rfl)
  have hyz : r y z := hpair.2.1 z rfl
  have hx : x ∈ xs := hsub.subset List.mem_cons_self
  have hy : y ∈ xs := hsub.subset (List.mem_cons_of_mem _ List.mem_cons_self)
  exact (hanti x hx y hy hxy (hkey x y z heq hyz)).symm

omit [DecidableEq ν] in
/-- One element, when nobody shares anything. -/
theorem Merged.single (h : Function.Injective has) (x : ν) : Merged key has [x] where
  same y hy z hz := by
    rw [List.mem_singleton.mp hy, List.mem_singleton.mp hz]
    exact iff_of_true rfl rfl
  apart y hy z hz heq := hz (h heq ▸ hy)
  alone _ _ _ _ heq := h heq

/-- An element with the key of one in the list takes over what that one has. -/
theorem Merged.take (h : Merged key has xs) {prev x : ν} (hprev : prev ∈ xs) (hx : x ∉ xs)
    (hkey : key x = key prev) : Merged key (Function.update has x (has prev)) (xs ++ [x]) := by
  have hself : Function.update has x (has prev) x = has prev := Function.update_self ..
  have hother : ∀ y ≠ x, Function.update has x (has prev) y = has y :=
    fun y hy ↦ Function.update_of_ne hy ..
  have hne : ∀ y ∈ xs, y ≠ x := fun y hy heq ↦ hx (heq ▸ hy)
  have hout : ∀ y ∉ xs ++ [x], y ∉ xs ∧ y ≠ x := fun y hy ↦
    ⟨fun hmem ↦ hy (List.mem_append_left _ hmem), fun heq ↦ hy (by simp [heq])⟩
  constructor
  · intro y hy z hz
    rw [List.mem_append, List.mem_singleton] at hy hz
    rcases hy with hy | rfl <;> rcases hz with hz | rfl
    · rw [hother y (hne y hy), hother z (hne z hz)]
      exact h.same y hy z hz
    · rw [hself, hother y (hne y hy), hkey]
      exact h.same y hy prev hprev
    · rw [hself, hother z (hne z hz), hkey]
      exact h.same prev hprev z hz
    · exact iff_of_true rfl rfl
  · intro y hy z hz
    obtain ⟨hz, hzx⟩ := hout z hz
    rw [hother z hzx]
    rcases List.mem_append.mp hy with hy | hy
    · rw [hother y (hne y hy)]
      exact h.apart y hy z hz
    · rw [List.mem_singleton.mp hy, hself]
      exact h.apart prev hprev z hz
  · intro y hy z hz heq
    obtain ⟨hy, hyx⟩ := hout y hy
    obtain ⟨hz, hzx⟩ := hout z hz
    rw [hother y hyx, hother z hzx] at heq
    exact h.alone y hy z hz heq

omit [DecidableEq ν] in
/-- An element with a key that the list does not have keeps what it has. -/
theorem Merged.keep (h : Merged key has xs) {x : ν} (hx : x ∉ xs)
    (hkey : ∀ y ∈ xs, key y ≠ key x) : Merged key has (xs ++ [x]) := by
  have hout : ∀ y ∉ xs ++ [x], y ∉ xs := fun y hy hmem ↦ hy (List.mem_append_left _ hmem)
  constructor
  · intro y hy z hz
    rw [List.mem_append, List.mem_singleton] at hy hz
    rcases hy with hy | rfl <;> rcases hz with hz | rfl
    · exact h.same y hy z hz
    · exact iff_of_false (h.apart y hy z hx) (hkey y hy)
    · exact iff_of_false (h.apart z hz y hx).symm (hkey z hz).symm
    · exact iff_of_true rfl rfl
  · intro y hy z hz
    rcases List.mem_append.mp hy with hy | hy
    · exact h.apart y hy z (hout z hz)
    · rw [List.mem_singleton.mp hy]
      intro heq
      exact hz (by simp [h.alone x hx z (hout z hz) heq])
  · exact fun y hy z hz ↦ h.alone y (hout y hy) z (hout z hz)

/-- What is merged stays so while the rest of a grouped list is passed. -/
theorem Merged.merge [DecidableEq κ] {prev : ν} {rest : List ν} (h : Merged key has (xs ++ [prev]))
    (hgrouped : Grouped key (xs ++ prev :: rest)) (hnodup : (xs ++ prev :: rest).Nodup) :
    Merged key (merge key prev rest has) (xs ++ prev :: rest) := by
  induction rest generalizing xs prev has with
  | nil => exact h
  | cons x rest ih =>
    have hassoc : xs ++ prev :: x :: rest = (xs ++ [prev]) ++ x :: rest := by simp
    have hx : x ∉ xs ++ [prev] := by
      rw [hassoc] at hnodup
      exact fun hmem ↦ (List.nodup_append.mp hnodup).2.2 x hmem x List.mem_cons_self rfl
    rw [Neighbours.merge]
    rw [hassoc] at hgrouped hnodup ⊢
    split
    · next hkey => exact ih (h.take (by simp) hx hkey) hgrouped hnodup
    · next hkey =>
      refine ih (h.keep hx fun y hy heq ↦ hkey ?_) hgrouped hnodup
      -- an earlier element with the key of `x` has `prev` between itself and `x`
      rcases List.mem_append.mp hy with hy | hy
      · have hsub : [y, prev, x].Sublist ((xs ++ [prev]) ++ x :: rest) := by
          rw [← hassoc]
          exact (List.singleton_sublist.mpr hy).append
            (((List.nil_sublist rest).cons_cons x).cons_cons prev)
        rw [hgrouped y prev x hsub heq, heq]
      · rw [← heq, List.mem_singleton.mp hy]

/-- **Merging the neighbours in a grouped list merges by key.** -/
theorem merged_merge [DecidableEq κ] {first : ν} {rest : List ν} (h : Function.Injective has)
    (hgrouped : Grouped key (first :: rest)) (hnodup : (first :: rest).Nodup) :
    Merged key (merge key first rest has) (first :: rest) := by
  have hfirst : Merged key has ([] ++ [first]) := Merged.single h first
  exact hfirst.merge hgrouped hnodup

end Neighbours
