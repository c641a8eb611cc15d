import Mathlib.Data.List.DropRight

/-!
# Texts joined at a separator

Two texts with a separator between them are the same as two others when the parts are, or when the
separator also occurs inside a part and the text is taken apart there
(`append_cons_eq_append_cons_iff`).  So the parts can be told from the whole unless the first part
of one is that of the other with a separator and something more (`Resplit`).

Texts that are cut to their last symbols are the same when they were, or when they are long enough
and end alike (`rtake_eq_rtake_iff`).
-/

set_option autoImplicit false

namespace Joined

universe u

variable {α : Type u} {sep : α} {a b a' b' : List α}

/-- The separator after `a` lies inside `a'`: what is between the two is at the end of one first
part and at the beginning of the other rest. -/
def Resplit (sep : α) (a b a' b' : List α) : Prop :=
  ∃ r, a' = a ++ sep :: r ∧ b = r ++ sep :: b'

theorem Resplit.join_eq (h : Resplit sep a b a' b') : a ++ sep :: b = a' ++ sep :: b' := by
  obtain ⟨r, rfl, rfl⟩ := h
  simp

/-- The first part is not empty-handed: it has become longer. -/
theorem Resplit.length_lt (h : Resplit sep a b a' b') : a.length < a'.length := by
  obtain ⟨r, rfl, -⟩ := h
  rw [List.length_append, List.length_cons]
  omega

theorem append_cons_eq_append_cons_iff :
    a ++ sep :: b = a' ++ sep :: b' ↔
      (a = a' ∧ b = b') ∨ Resplit sep a b a' b' ∨ Resplit sep a' b' a b := by
  -- what is left of the longer first part starts with the separator, if it is anything
  have hlonger {a b a' b' : List α} (x : List α) (ha : a' = a ++ x)
      (hb : sep :: b = x ++ sep :: b') : (a = a' ∧ b = b') ∨ Resplit sep a b a' b' := by
    cases x with
    | nil => exact .inl ⟨by rw [ha, List.append_nil], (List.cons.inj hb).2⟩
    | cons c r =>
      obtain ⟨rfl, hr⟩ := List.cons.inj hb
      exact .inr ⟨r, ha, hr⟩
  constructor
  · intro h
    rcases List.append_eq_append_iff.mp h with ⟨x, ha, hb⟩ | ⟨x, ha, hb⟩
    · exact (hlonger x ha hb).imp_right .inl
    · rcases hlonger x ha hb with ⟨rfl, rfl⟩ | hsplit
      · exact .inl ⟨rfl, rfl⟩
      · exact .inr (.inr hsplit)
  · rintro (⟨rfl, rfl⟩ | h | h)
    · rfl
    · exact h.join_eq
    · exact h.join_eq.symm

/-! ## Ends -/

variable {n : ℕ} {l l' : List α}

/-- Both are at least so long, and end in the same symbols. -/
def EndAlike (n : ℕ) (l l' : List α) : Prop :=
  ∃ a a' e, e.length = n ∧ l = a ++ e ∧ l' = a' ++ e

theorem rtake_append_of_length {a e : List α} (h : e.length = n) : (a ++ e).rtake n = e := by
  rw [List.rtake, List.length_append, ← h, Nat.add_sub_cancel, List.drop_left]

theorem length_rtake : (l.rtake n).length = min n l.length := by
  rw [List.rtake, List.length_drop]
  omega

theorem rtake_of_length_le (h : l.length ≤ n) : l.rtake n = l := by
  rw [List.rtake, Nat.sub_eq_zero_of_le h, List.drop_zero]

theorem rtake_eq_rtake_iff : l.rtake n = l'.rtake n ↔ l = l' ∨ EndAlike n l l' := by
  constructor
  · intro h
    have hlength : min n l.length = min n l'.length := by
      rw [← length_rtake, ← length_rtake, h]
    by_cases hl : l.length ≤ n
    · by_cases hl' : l'.length ≤ n
      · rw [rtake_of_length_le hl, rtake_of_length_le hl'] at h
        exact .inl h
      · refine .inr ⟨[], l'.take (l'.length - n), l, by omega, rfl, ?_⟩
        rw [← rtake_of_length_le hl, h]
        exact (List.take_append_drop _ l').symm
    · refine .inr ⟨l.take (l.length - n), l'.take (l'.length - n), l.rtake n, ?_,
        (List.take_append_drop _ l).symm, ?_⟩
      · rw [length_rtake]
        omega
      · rw [h]
        exact (List.take_append_drop _ l').symm
  · rintro (rfl | ⟨a, a', e, he, rfl, rfl⟩)
    · rfl
    · rw [rtake_append_of_length he, rtake_append_of_length he]

end Joined
