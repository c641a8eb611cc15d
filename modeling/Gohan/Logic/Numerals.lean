import Mathlib.Data.Nat.Notation
import Mathlib.Order.Basic

/-!
# Decimal numerals

A numeral is a nonempty text of digits.  The text that is printed for its value is what is left of
it without the zeros at its start (`exists_zeros`), so a number has one numeral without zeros at its
start, and others that are longer.
-/

set_option autoImplicit false

namespace Numerals

/-- A text of digits. -/
def IsNumeral (ds : List Char) : Prop := ds ≠ [] ∧ ∀ c ∈ ds, c.isDigit = true

/-- The number that a numeral is read as. -/
def value (ds : List Char) : ℕ := Nat.ofDigitChars 10 ds 0

/-- The numeral that is printed for a number. -/
abbrev print (n : ℕ) : List Char := Nat.toDigits 10 n

theorem digitChar_of_isDigit {c : Char} (h : c.isDigit = true) :
    ∃ d < 10, c = Nat.digitChar d ∧ c.toNat - '0'.toNat = d := by
  obtain ⟨hlow, hhigh⟩ := Char.isDigit_iff_toNat.mp h
  have hlow : 48 ≤ c.toNat := hlow
  have hhigh : c.toNat ≤ 57 := hhigh
  have hd : c.toNat - 48 < 10 := by omega
  refine ⟨c.toNat - 48, hd, Char.toNat_inj.mp ?_, rfl⟩
  rw [Nat.toNat_digitChar_of_lt_ten hd]
  omega

@[simp] theorem isNumeral_print (n : ℕ) : IsNumeral (print n) :=
  ⟨Nat.toDigits_ne_nil, fun _ hc ↦ Nat.isDigit_of_mem_toDigits (by decide) (by decide) hc⟩

@[simp] theorem value_print (n : ℕ) : value (print n) = n := Nat.ofDigitChars_ten_toDigits

theorem value_zeros (z : ℕ) (ds : List Char) : value (List.replicate z '0' ++ ds) = value ds := by
  rw [value, Nat.ofDigitChars_append, Nat.ofDigitChars_replicate_zero, Nat.mul_zero]
  rfl

theorem isNumeral_zeros {ds : List Char} (h : IsNumeral ds) (z : ℕ) :
    IsNumeral (List.replicate z '0' ++ ds) := by
  refine ⟨fun hnil ↦ h.1 (List.append_eq_nil_iff.mp hnil).2, fun c hc ↦ ?_⟩
  rcases List.mem_append.mp hc with hc | hc
  · rw [List.eq_of_mem_replicate hc]
    rfl
  · exact h.2 c hc

/-- Digits after a number that is not zero go on printing it. -/
theorem print_append {ds : List Char} (h : ∀ c ∈ ds, c.isDigit = true) {n : ℕ} (hn : 0 < n) :
    print n ++ ds = print (Nat.ofDigitChars 10 ds n) := by
  induction ds generalizing n with
  | nil => rw [List.append_nil, Nat.ofDigitChars_nil]
  | cons c ds ih =>
    obtain ⟨hc, hds⟩ := List.forall_mem_cons.mp h
    obtain ⟨d, hd, rfl, hvalue⟩ := digitChar_of_isDigit hc
    have hstep : print (10 * n + d) = print n ++ [d.digitChar] := by
      rw [print, print, ← Nat.toDigits_append_toDigits (by decide) hn hd,
        Nat.toDigits_of_lt_base hd]
    rw [Nat.ofDigitChars_cons, hvalue, ← ih hds (by omega), hstep, List.append_assoc]
    rfl

/-- A numeral that does not start with zero is what is printed for its value. -/
theorem eq_print {c : Char} {ds : List Char} (h : ∀ c' ∈ c :: ds, c'.isDigit = true)
    (hc : c ≠ '0') : c :: ds = print (value (c :: ds)) := by
  obtain ⟨hdigit, hds⟩ := List.forall_mem_cons.mp h
  obtain ⟨d, hd, rfl, hvalue⟩ := digitChar_of_isDigit hdigit
  have hpos : 0 < d := by
    refine Nat.pos_of_ne_zero fun hzero ↦ hc ?_
    rw [hzero]
    rfl
  rw [value, Nat.ofDigitChars_cons, hvalue, Nat.mul_zero, Nat.zero_add, ← print_append hds hpos,
    print, Nat.toDigits_of_lt_base hd]
  rfl

/-- **A numeral is zeros and what is printed for its value.** -/
theorem exists_zeros {ds : List Char} (h : IsNumeral ds) :
    ∃ z, ds = List.replicate z '0' ++ print (value ds) := by
  obtain ⟨hne, hdigits⟩ := h
  induction ds with
  | nil => exact absurd rfl hne
  | cons c ds ih =>
    by_cases hc : c = '0'
    · subst hc
      have hvalue : value ('0' :: ds) = value ds := value_zeros 1 ds
      rw [hvalue]
      cases ds with
      | nil => exact ⟨0, rfl⟩
      | cons c ds =>
        obtain ⟨z, hz⟩ := ih (List.cons_ne_nil c ds) (List.forall_mem_cons.mp hdigits).2
        exact ⟨z + 1, congrArg (List.cons '0') hz⟩
    · exact ⟨0, eq_print hdigits hc⟩

/-- Zeros before a numeral make it another one. -/
theorem zeros_print_ne (z n m : ℕ) : List.replicate (z + 1) '0' ++ print n ≠ print m := by
  intro h
  have hvalue := congrArg value h
  rw [value_zeros, value_print, value_print] at hvalue
  have hlength := congrArg List.length h
  rw [List.length_append, List.length_replicate, hvalue] at hlength
  omega

/-- The value of a numeral is at least that of its start. -/
theorem le_ofDigitChars (ds : List Char) (n : ℕ) : n ≤ Nat.ofDigitChars 10 ds n := by
  rw [Nat.ofDigitChars_eq_ofDigitChars_zero]
  have hpos : 0 < 10 ^ ds.length := Nat.pow_pos (by decide)
  exact Nat.le_trans (Nat.le_mul_of_pos_left n hpos) (Nat.le_add_right _ _)

end Numerals
