import Mathlib.Algebra.Ring.Defs
import Mathlib.Tactic.Ring

/-!
# Fingerprints of words

A word is read as a polynomial in a base: every letter has a digit and a width, and the digit of a
letter counts as often as the power of the base whose exponent is the width of what comes before it.
The fingerprint of a word is this value with the width of the word.

`join` puts fingerprints together without the words.  It is associative (`join_assoc`), and the
fingerprint of two words one after the other is the join of theirs (`ofList_append`).
-/

set_option autoImplicit false

universe u v

/-- The value and the width of a word. -/
@[ext] structure Fingerprint (R : Type u) where
  value : R
  length : ℕ
  deriving DecidableEq

namespace Fingerprint

variable {R : Type u} [CommSemiring R] (base : R)

/-- The fingerprint of nothing. -/
def empty : Fingerprint R := ⟨0, 0⟩

/-- The fingerprint of two texts, one after the other. -/
def join (x y : Fingerprint R) : Fingerprint R :=
  ⟨x.value + y.value * base ^ x.length, x.length + y.length⟩

@[simp] theorem empty_join (x : Fingerprint R) : join base empty x = x := by
  simp [join, empty]

theorem join_assoc (x y z : Fingerprint R) :
    join base (join base x y) z = join base x (join base y z) := by
  ext
  · simp only [join]
    ring
  · exact Nat.add_assoc _ _ _

variable {α : Type v} (digit : α → R) (width : α → ℕ)

/-- The fingerprint of a word. -/
def ofList : List α → Fingerprint R
  | [] => empty
  | a :: l => join base ⟨digit a, width a⟩ (ofList l)

theorem ofList_append (l m : List α) : ofList base digit width (l ++ m) =
    join base (ofList base digit width l) (ofList base digit width m) := by
  induction l with
  | nil => exact (empty_join base _).symm
  | cons a l ih => rw [List.cons_append, ofList, ofList, ih, join_assoc]

theorem length_ofList (l : List α) :
    (ofList base digit width l).length = (l.map width).sum := by
  induction l with
  | nil => rfl
  | cons a l ih => rw [ofList, List.map_cons, List.sum_cons, ← ih]; rfl

end Fingerprint
