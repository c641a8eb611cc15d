import Mathlib.Data.List.Count
import Mathlib.Data.List.Infix

/-!
# Lists cut at a separator

`truncate sep n l` is the beginning of `l` that has `n` separators: what comes before the next one.
A list with no more separators is not cut at all (`truncate_eq_self_iff`), and of two cuts of one
list the shorter decides (`truncate_truncate`).  So lists that agree up to some separator agree up
to every earlier one (`truncate_congr`).
-/

set_option autoImplicit false

namespace List

universe u

variable {α : Type u} [DecidableEq α] (sep : α)

/-- The beginning of the list with `n` separators. -/
def truncate : ℕ → List α → List α
  | _, [] => []
  | 0, a :: l => if a = sep then [] else a :: truncate 0 l
  | n + 1, a :: l => if a = sep then a :: truncate n l else a :: truncate (n + 1) l

variable {sep} {n m : ℕ} {l k : List α}

@[simp] theorem truncate_nil (n : ℕ) : truncate sep n [] = [] := by cases n <;> rfl

@[simp] theorem truncate_zero_sep (l : List α) : truncate sep 0 (sep :: l) = [] := if_pos rfl

@[simp] theorem truncate_succ_sep (n : ℕ) (l : List α) :
    truncate sep (n + 1) (sep :: l) = sep :: truncate sep n l := if_pos rfl

theorem truncate_cons_of_ne {a : α} (h : a ≠ sep) (n : ℕ) (l : List α) :
    truncate sep n (a :: l) = a :: truncate sep n l := by
  cases n <;> exact if_neg h

/-- A list without a separator is not cut. -/
theorem truncate_of_notMem (h : sep ∉ l) (n : ℕ) : truncate sep n l = l := by
  induction l with
  | nil => exact truncate_nil n
  | cons a l ih =>
    have ha : a ≠ sep := fun ha ↦ h (ha ▸ mem_cons_self)
    rw [truncate_cons_of_ne ha, ih fun hl ↦ h (mem_cons_of_mem _ hl)]

theorem truncate_eq_self_iff : truncate sep n l = l ↔ l.count sep ≤ n := by
  induction l generalizing n with
  | nil => simp
  | cons a l ih =>
    by_cases ha : a = sep
    · subst ha
      cases n with
      | zero => simp
      | succ n => simp [ih]
    · rw [truncate_cons_of_ne ha, count_cons_of_ne ha, ← ih]
      simp

theorem truncate_truncate (h : n ≤ m) : truncate sep n (truncate sep m l) = truncate sep n l := by
  induction l generalizing n m with
  | nil => simp
  | cons a l ih =>
    by_cases ha : a = sep
    · subst ha
      cases m with
      | zero =>
        cases Nat.le_zero.mp h
        simp
      | succ m =>
        cases n with
        | zero => simp
        | succ n => simp [ih (Nat.le_of_succ_le_succ h)]
    · rw [truncate_cons_of_ne ha, truncate_cons_of_ne ha, truncate_cons_of_ne ha, ih h]

/-- Lists that agree up to a separator agree up to every earlier one. -/
theorem truncate_congr (h : n ≤ m) (heq : truncate sep m l = truncate sep m k) :
    truncate sep n l = truncate sep n k := by
  rw [← truncate_truncate h, heq, truncate_truncate h]

/-- The separators of a beginning that is not cut do not count for the rest. -/
theorem truncate_append (h : k.count sep ≤ n) (l : List α) :
    truncate sep n (k ++ l) = k ++ truncate sep (n - k.count sep) l := by
  induction k generalizing n with
  | nil => simp
  | cons a k ih =>
    by_cases ha : a = sep
    · subst ha
      rw [count_cons_self] at h ⊢
      obtain ⟨n, rfl⟩ := Nat.exists_eq_add_of_le' (Nat.le_of_add_left_le h)
      rw [cons_append, truncate_succ_sep, ih (Nat.le_of_add_le_add_right h),
        Nat.add_sub_add_right, cons_append]
    · rw [count_cons_of_ne ha] at h ⊢
      rw [cons_append, truncate_cons_of_ne ha, ih h, cons_append]

/-- A list is either not cut at all, or cut at a separator. -/
theorem truncate_eq_self_or_isPrefix (n : ℕ) (l : List α) :
    l = truncate sep n l ∨ truncate sep n l ++ [sep] <+: l := by
  induction l generalizing n with
  | nil => simp
  | cons a l ih =>
    by_cases ha : a = sep
    · subst ha
      cases n with
      | zero => simp
      | succ n => simpa using ih n
    · rw [truncate_cons_of_ne ha]
      simpa using ih n

/-- What a list is cut to: the list itself, or what comes before some separator of it. -/
theorem truncate_eq_iff (h : k.count sep = n) :
    truncate sep n l = k ↔ l = k ∨ k ++ [sep] <+: l := by
  constructor
  · rintro rfl
    exact truncate_eq_self_or_isPrefix n l
  · rintro (rfl | ⟨r, rfl⟩)
    · exact truncate_eq_self_iff.mpr h.le
    · rw [append_assoc, truncate_append h.le]
      simp [h]

theorem count_truncate (n : ℕ) (l : List α) :
    (truncate sep n l).count sep = min n (l.count sep) := by
  induction l generalizing n with
  | nil => simp
  | cons a l ih =>
    by_cases ha : a = sep
    · subst ha
      cases n with
      | zero => simp
      | succ n => simp [ih]
    · rw [truncate_cons_of_ne ha, count_cons_of_ne ha, count_cons_of_ne ha, ih]

/-- The first separator is where the list with none is cut. -/
theorem take_idxOf {i : ℕ} (h : l.idxOf? sep = some i) (n : ℕ) :
    truncate sep 0 l = l.take i ∧
      truncate sep (n + 1) l = l.take (i + 1) ++ truncate sep n (l.drop (i + 1)) := by
  induction l generalizing i with
  | nil => simp at h
  | cons a l ih =>
    by_cases ha : a = sep
    · subst ha
      have hi : i = 0 := by simpa [idxOf?, findIdx?_cons] using h.symm
      subst hi
      simp
    · obtain ⟨j, hj, rfl⟩ : ∃ j, l.idxOf? sep = some j ∧ j + 1 = i := by
        simpa [idxOf?, findIdx?_cons, ha] using h
      rw [truncate_cons_of_ne ha, truncate_cons_of_ne ha, (ih hj).1, (ih hj).2]
      exact ⟨rfl, rfl⟩

/-- What comes before the first separator, and what comes after it. -/
theorem append_sep_inj {k' l' : List α} (h : sep ∉ k) (h' : sep ∉ k') :
    k ++ sep :: l = k' ++ sep :: l' ↔ k = k' ∧ l = l' := by
  have hcut {k l : List α} (h : sep ∉ k) : truncate sep 0 (k ++ sep :: l) = k :=
    (truncate_eq_iff (count_eq_zero_of_not_mem h)).mpr (Or.inr ⟨l, by simp⟩)
  constructor
  · intro heq
    have hk : k = k' := by rw [← hcut (l := l) h, heq, hcut h']
    subst hk
    exact ⟨rfl, (cons.inj (append_cancel_left heq)).2⟩
  · rintro ⟨rfl, rfl⟩
    rfl

end List
