import Mathlib.Algebra.Order.Group.Nat
import Mathlib.Algebra.GroupWithZero.Divisibility
import Mathlib.Algebra.Ring.Nat
import Mathlib.Tactic.Ring

/-!
# Masks of bytes

A list of bytes is a number, the first byte being the highest.  A mask of ones and zeros keeps it as
it is if the bits below the ones are all zero (`and_ones_iff`), and fills it up if they are all one
(`or_ones_iff`).
-/

set_option autoImplicit false

namespace Masks

/-- The number that bytes are. -/
def number : List UInt8 → ℕ
  | [] => 0
  | b :: bs => b.toNat * 2 ^ (8 * bs.length) + number bs

/-- Ones, and zeros up to a number of bytes. -/
def ones : ℕ → ℕ → List UInt8
  | 0, _ => []
  | l + 1, n =>
    if 8 ≤ n then 0xff :: ones l (n - 8) else (~~~ (0xff >>> UInt8.ofNat n)) :: ones l 0

theorem length_ones (l n : ℕ) : (ones l n).length = l := by
  induction l generalizing n with
  | zero => rfl
  | succ l ih =>
    rw [ones]
    split <;> rw [List.length_cons, ih]

theorem number_lt (bs : List UInt8) : number bs < 2 ^ (8 * bs.length) := by
  induction bs with
  | nil => decide
  | cons b bs ih =>
    have hb : b.toNat < 2 ^ 8 := b.toNat_lt
    rw [number, List.length_cons, Nat.mul_succ, pow_add, mul_comm (2 ^ (8 * bs.length))]
    calc b.toNat * 2 ^ (8 * bs.length) + number bs
        < b.toNat * 2 ^ (8 * bs.length) + 2 ^ (8 * bs.length) := Nat.add_lt_add_left ih _
      _ = (b.toNat + 1) * 2 ^ (8 * bs.length) := by ring
      _ ≤ 2 ^ 8 * 2 ^ (8 * bs.length) := Nat.mul_le_mul_right _ hb

/-- What holds of all numbers of a byte holds of all bytes. -/
theorem forall_byte {P : UInt8 → Prop} (h : ∀ n < 256, P (UInt8.ofNat n)) (b : UInt8) : P b := by
  have hb := h b.toNat b.toNat_lt
  rwa [UInt8.ofNat_toNat] at hb

theorem and_byte_iff {n : ℕ} (hn : n < 8) (b : UInt8) :
    b &&& ~~~ (0xff >>> UInt8.ofNat n) = b ↔ 2 ^ (8 - n) ∣ b.toNat := by
  revert b
  have h : ∀ n < 8, ∀ b < 256, UInt8.ofNat b &&& ~~~ (0xff >>> UInt8.ofNat n) = UInt8.ofNat b ↔
      2 ^ (8 - n) ∣ (UInt8.ofNat b).toNat := by decide +kernel
  exact forall_byte (h n hn)

theorem or_byte_iff {n : ℕ} (hn : n < 8) (b : UInt8) :
    b ||| ~~~ (0xff >>> UInt8.ofNat n) = 255 ↔ 2 ^ (8 - n) ∣ b.toNat + 1 := by
  revert b
  have h : ∀ n < 8, ∀ b < 256, UInt8.ofNat b ||| ~~~ (0xff >>> UInt8.ofNat n) = 255 ↔
      2 ^ (8 - n) ∣ (UInt8.ofNat b).toNat + 1 := by decide +kernel
  exact forall_byte (h n hn)

theorem and_ff : ∀ b : UInt8, b &&& 0xff = b := forall_byte (by decide +kernel)

theorem or_ff : ∀ b : UInt8, b ||| 0xff = 255 := forall_byte (by decide +kernel)

/-- The high part does not matter for a divisor that the base has. -/
theorem dvd_high_iff {k m : ℕ} (h : k ≤ m) (b r : ℕ) : 2 ^ k ∣ b * 2 ^ m + r ↔ 2 ^ k ∣ r :=
  Nat.dvd_add_right (Dvd.dvd.mul_left (pow_dvd_pow 2 h) b)

/-- For a divisor above the base, the low part has to be a multiple of the base by itself. -/
theorem dvd_low_iff {s m b r : ℕ} (hr : r < 2 ^ m) :
    2 ^ (m + s) ∣ b * 2 ^ m + r ↔ 2 ^ s ∣ b ∧ 2 ^ m ∣ r := by
  have hpow : 2 ^ (m + s) = 2 ^ s * 2 ^ m := by rw [pow_add, mul_comm]
  have hpos : 2 ^ m ≠ 0 := pow_ne_zero m (by decide)
  constructor
  · intro h
    have hdvd := (dvd_high_iff le_rfl b r).mp ((pow_dvd_pow 2 (Nat.le_add_right m s)).trans h)
    have hzero : r = 0 := Nat.eq_zero_of_dvd_of_lt hdvd hr
    rw [hzero, add_zero, hpow] at h
    exact ⟨(mul_dvd_mul_iff_right hpos).mp h, hdvd⟩
  · rintro ⟨hb, hdvd⟩
    rw [Nat.eq_zero_of_dvd_of_lt hdvd hr, add_zero, hpow]
    exact mul_dvd_mul_right hb _

/-- The same for what comes after a number. -/
theorem dvd_low_succ_iff {s m b r : ℕ} (hr : r < 2 ^ m) :
    2 ^ (m + s) ∣ b * 2 ^ m + r + 1 ↔ 2 ^ s ∣ b + 1 ∧ 2 ^ m ∣ r + 1 := by
  rcases Nat.lt_or_ge (r + 1) (2 ^ m) with hlt | hge
  · rw [Nat.add_assoc, dvd_low_iff hlt]
    have hnot : ¬ 2 ^ m ∣ r + 1 := Nat.not_dvd_of_pos_of_lt (Nat.succ_pos r) hlt
    exact iff_of_false (fun h ↦ hnot h.2) (fun h ↦ hnot h.2)
  · obtain heq : r + 1 = 2 ^ m := Nat.le_antisymm hr hge
    rw [Nat.add_assoc, heq, show b * 2 ^ m + 2 ^ m = (b + 1) * 2 ^ m + 0 by ring,
      dvd_low_iff (Nat.pow_pos (by decide))]
    exact and_congr_right fun _ ↦ iff_of_true (dvd_zero _) dvd_rfl

/-- **A mask keeps bytes as they are if the bits below its ones are zero.** -/
theorem and_ones_iff (bs : List UInt8) {n : ℕ} (hn : n ≤ 8 * bs.length) :
    List.zipWith (· &&& ·) bs (ones bs.length n) = bs ↔ 2 ^ (8 * bs.length - n) ∣ number bs := by
  induction bs generalizing n with
  | nil => simp [ones, number]
  | cons b bs ih =>
    rw [List.length_cons] at hn ⊢
    rw [ones, number]
    split
    · next hle =>
      rw [List.zipWith_cons_cons, and_ff, List.cons_inj_right, ih (by omega),
        show 8 * (bs.length + 1) - n = 8 * bs.length - (n - 8) by omega, dvd_high_iff (by omega)]
    · next hlt =>
      rw [List.zipWith_cons_cons, List.cons.injEq, and_byte_iff (by omega), ih (Nat.zero_le _),
        show 8 * (bs.length + 1) - n = 8 * bs.length + (8 - n) by omega,
        dvd_low_iff (number_lt bs)]
      rfl

/-- **A mask fills bytes up if the bits below its ones are one.** -/
theorem or_ones_iff (bs : List UInt8) {n : ℕ} (hn : n ≤ 8 * bs.length) :
    (∀ e ∈ bs.zip (ones bs.length n), e.1 ||| e.2 = 255) ↔
      2 ^ (8 * bs.length - n) ∣ number bs + 1 := by
  induction bs generalizing n with
  | nil => simp [ones, number]
  | cons b bs ih =>
    rw [List.length_cons] at hn ⊢
    rw [ones, number]
    split
    · next hle =>
      rw [List.zip_cons_cons, List.forall_mem_cons, ih (by omega), or_ff,
        show 8 * (bs.length + 1) - n = 8 * bs.length - (n - 8) by omega, Nat.add_assoc,
        dvd_high_iff (by omega)]
      exact and_iff_right rfl
    · next hlt =>
      rw [List.zip_cons_cons, List.forall_mem_cons, or_byte_iff (by omega), ih (Nat.zero_le _),
        show 8 * (bs.length + 1) - n = 8 * bs.length + (8 - n) by omega,
        dvd_low_succ_iff (number_lt bs)]
      rfl

end Masks
