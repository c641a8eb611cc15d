import Mathlib.Data.List.Basic

/-!
# Three-valued logic

SQL evaluates a predicate to true, false or *unknown*, and a `WHERE` clause keeps a row only when
the predicate is true.  `Truth` is that three-element type with Kleene's connectives, and the
lemmas here say how "is true" passes through a conjunction and a disjunction of any length.

The point of `all_eq_tt` and `any_eq_tt` is that a condition built from conjunctions and
disjunctions alone may be read two-valued: whether such a condition *is true* depends only on
which of its atoms are true, and never on whether an atom that is not true is false or unknown.
Negation is the one connective this fails for, which is why `not` has no lemma of that kind.
-/

set_option autoImplicit false

namespace Kleene

/-- The truth values of a three-valued predicate. -/
inductive Truth where
  | tt
  | ff
  | unknown
  deriving DecidableEq, Repr

namespace Truth

/-- A two-valued answer as a three-valued one. -/
def ofBool (b : Bool) : Truth := if b then tt else ff

/-- Kleene conjunction: false as soon as one side is, true only when both are. -/
def and : Truth → Truth → Truth
  | ff, _ => ff
  | _, ff => ff
  | tt, tt => tt
  | _, _ => unknown

/-- Kleene disjunction: true as soon as one side is, false only when both are. -/
def or : Truth → Truth → Truth
  | tt, _ => tt
  | _, tt => tt
  | ff, ff => ff
  | _, _ => unknown

/-- Kleene negation: the negation of an unknown is unknown. -/
def not : Truth → Truth
  | tt => ff
  | ff => tt
  | unknown => unknown

/-- The conjunction of a list; the empty one is true. -/
def all : List Truth → Truth
  | [] => tt
  | t :: ts => t.and (all ts)

/-- The disjunction of a list; the empty one is false. -/
def any : List Truth → Truth
  | [] => ff
  | t :: ts => t.or (any ts)

@[simp] theorem ofBool_eq_tt {b : Bool} : ofBool b = tt ↔ b = true := by
  cases b <;> simp [ofBool]

@[simp] theorem and_eq_tt {s t : Truth} : s.and t = tt ↔ s = tt ∧ t = tt := by
  cases s <;> cases t <;> simp [and]

@[simp] theorem or_eq_tt {s t : Truth} : s.or t = tt ↔ s = tt ∨ t = tt := by
  cases s <;> cases t <;> simp [or]

/-- **A conjunction is true exactly when every conjunct is.** -/
theorem all_eq_tt {ts : List Truth} : all ts = tt ↔ ∀ t ∈ ts, t = tt := by
  induction ts with
  | nil => simp [all]
  | cons t ts ih => simp [all, ih]

/-- **A disjunction is true exactly when some disjunct is.** -/
theorem any_eq_tt {ts : List Truth} : any ts = tt ↔ ∃ t ∈ ts, t = tt := by
  induction ts with
  | nil => simp [any]
  | cons t ts ih => simp only [any, or_eq_tt, ih, List.exists_mem_cons_iff]

@[simp] theorem or_eq_ff {s t : Truth} : s.or t = ff ↔ s = ff ∧ t = ff := by
  cases s <;> cases t <;> simp [or]

/-- **A disjunction is false exactly when every disjunct is.** -/
theorem any_eq_ff {ts : List Truth} : any ts = ff ↔ ∀ t ∈ ts, t = ff := by
  induction ts with
  | nil => simp [any]
  | cons t ts ih => simp [any, ih]

theorem any_singleton (t : Truth) : any [t] = t := by cases t <;> rfl

theorem not_eq_tt {t : Truth} : t.not = tt ↔ t = ff := by cases t <;> simp [not]

end Truth

end Kleene
