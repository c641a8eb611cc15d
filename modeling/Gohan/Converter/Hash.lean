import Gohan.Lang.Value
import Gohan.Logic.Fingerprint
import Mathlib.Data.ZMod.Basic

/-!
# The hash of a string

The converter compares items by a polynomial hash of what they are written as.  A string is a number
in base 257 modulo the largest prime below 2³²: its digits are code points, and the place of a digit
is the number of bytes before it.  `Calc` reads a string from its start, `Join` works from two
hashes, and both take the powers of the base from a table that grows when it is too short.

Hashes are fingerprints: `calcHash_eq` and `join_eq` say which, whatever the table has been used
for, and that no index is out of its range.  What is left is arithmetic in 32 and 64 bits, which
stays below the modulus (`calcInRange`, `joinInRange`).
-/

set_option autoImplicit false

namespace Gohan.Converter

/-- `xs[i]`. -/
def index {α : Type} (xs : List α) (i : ℕ) : Go α :=
  match xs[i]? with
  | some x => .ok x
  | none => .panicf "runtime error: index out of range"

theorem index_eq_ok {α : Type} {xs : List α} {i : ℕ} {x : α} :
    index xs i = .ok x ↔ xs[i]? = some x := by
  rw [index]
  cases xs[i]? <;> simp

namespace Hash

/-! ## Arithmetic -/

/-- The modulus, a prime below 2 ^ 32. -/
def mod : UInt32 := 0xFFFFFFFB

/-- The base of the powers. -/
def base : UInt32 := 0x101

/-- `AddMod`. -/
def addMod (x y mod : UInt32) : UInt32 :=
  let result := x.toUInt64 + y.toUInt64
  let mod64 := mod.toUInt64
  if mod64 ≤ result then (result - mod64).toUInt32 else result.toUInt32

/-- `MulMod`. -/
def mulMod (x y mod : UInt32) : UInt32 :=
  let result := x.toUInt64 * y.toUInt64
  let mod64 := mod.toUInt64
  if mod64 ≤ result then (result % mod64).toUInt32 else result.toUInt32

/-- The sum, for this modulus. -/
def add (x y : UInt32) : UInt32 := addMod x y mod

/-- The product, for this modulus. -/
def mul (x y : UInt32) : UInt32 := mulMod x y mod

/-- Two numbers are added without an overflow, and the result is below the modulus. -/
def AddInRange (x y : UInt32) : Prop := x.toNat + y.toNat < 2 ^ 64 ∧ add x y < mod

/-- Two numbers are multiplied without an overflow, and the result is below the modulus. -/
def MulInRange (x y : UInt32) : Prop := x.toNat * y.toNat < 2 ^ 64 ∧ mul x y < mod

/-- The modulus, as a number. -/
def modulus : ℕ := 4294967291

instance : NeZero modulus := ⟨by decide⟩

theorem toNat_mod : mod.toNat = modulus := rfl

theorem lt_mod_iff {x : UInt32} : x < mod ↔ x.toNat < modulus := by
  rw [UInt32.lt_iff_toNat_lt, toNat_mod]

theorem toNat_add {x y : UInt32} (hx : x < mod) (hy : y < mod) :
    (add x y).toNat = (x.toNat + y.toNat) % modulus := by
  rw [lt_mod_iff] at hx hy
  have hsum : (x.toUInt64 + y.toUInt64).toNat = x.toNat + y.toNat := by
    simp only [UInt64.toNat_add, UInt32.toNat_toUInt64, modulus] at *
    omega
  have hmod64 : mod.toUInt64.toNat = modulus := rfl
  rw [add, addMod]
  simp only [UInt64.le_iff_toNat_le, hsum, hmod64]
  split
  · next hle =>
    have hsub : (x.toUInt64 + y.toUInt64 - mod.toUInt64).toNat = x.toNat + y.toNat - modulus := by
      rw [UInt64.toNat_sub_of_le _ _ (by rwa [UInt64.le_iff_toNat_le, hsum, hmod64]), hsum, hmod64]
    rw [UInt64.toNat_toUInt32, hsub]
    simp only [modulus] at *
    omega
  · rw [UInt64.toNat_toUInt32, hsum]
    simp only [modulus] at *
    omega

theorem product_lt (x y : UInt32) : x.toNat * y.toNat < 2 ^ 64 :=
  calc x.toNat * y.toNat < 2 ^ 32 * 2 ^ 32 := Nat.mul_lt_mul'' x.toNat_lt y.toNat_lt
    _ = 2 ^ 64 := by norm_num

theorem toNat_mul (x y : UInt32) : (mul x y).toNat = x.toNat * y.toNat % modulus := by
  have hlt := product_lt x y
  have hproduct : (x.toUInt64 * y.toUInt64).toNat = x.toNat * y.toNat := by
    simp only [UInt64.toNat_mul, UInt32.toNat_toUInt64]
    omega
  have hmod64 : mod.toUInt64.toNat = modulus := rfl
  rw [mul, mulMod]
  simp only [UInt64.le_iff_toNat_le, hproduct, hmod64]
  split
  · rw [UInt64.toNat_toUInt32, UInt64.toNat_mod, hproduct, hmod64]
    simp only [modulus]
    omega
  · rw [UInt64.toNat_toUInt32, hproduct]
    simp only [modulus] at *
    omega

theorem addInRange {x y : UInt32} (hx : x < mod) (hy : y < mod) : AddInRange x y := by
  refine ⟨?_, lt_mod_iff.mpr ?_⟩
  · have hx := x.toNat_lt
    have hy := y.toNat_lt
    omega
  · rw [toNat_add hx hy]
    exact Nat.mod_lt _ (by decide)

theorem mulInRange (x y : UInt32) : MulInRange x y := by
  refine ⟨product_lt x y, lt_mod_iff.mpr ?_⟩
  rw [toNat_mul]
  exact Nat.mod_lt _ (by decide)

/-! ## Residues -/

/-- A number as a residue. -/
def residue (x : UInt32) : ZMod modulus := (x.toNat : ZMod modulus)

theorem residue_add {x y : UInt32} (hx : x < mod) (hy : y < mod) :
    residue (add x y) = residue x + residue y := by
  rw [residue, toNat_add hx hy, ZMod.natCast_mod, Nat.cast_add]
  rfl

theorem residue_mul (x y : UInt32) : residue (mul x y) = residue x * residue y := by
  rw [residue, toNat_mul, ZMod.natCast_mod, Nat.cast_mul]
  rfl

/-- Below the modulus there is one number for a residue. -/
theorem residue_inj {x y : UInt32} (hx : x < mod) (hy : y < mod) (h : residue x = residue y) :
    x = y := by
  rw [lt_mod_iff] at hx hy
  rw [residue, residue, ZMod.natCast_eq_natCast_iff] at h
  refine UInt32.toNat_inj.mp ?_
  rwa [Nat.ModEq, Nat.mod_eq_of_lt hx, Nat.mod_eq_of_lt hy] at h

/-! ## The table of powers -/

/-- The powers of the base. -/
def power : ℕ → UInt32
  | 0 => 1
  | i + 1 => mul (power i) base

theorem power_lt (i : ℕ) : power i < mod := by
  cases i with
  | zero => decide
  | succ i => exact (mulInRange _ _).2

theorem residue_power (i : ℕ) : residue (power i) = residue base ^ i := by
  induction i with
  | zero => rfl
  | succ i ih => rw [power, residue_mul, ih, pow_succ]

/-- The loop of `getPowers`, for so many rounds. -/
def growBy : ℕ → List UInt32 → List UInt32
  | 0, powers => powers
  | n + 1, powers => growBy n (powers ++ [mul (powers.getLastD 1) base])

/-- A table after `getPowers`. -/
def grow (limit : ℕ) (powers : List UInt32) : List UInt32 :=
  let powers := if powers.length < 1 then [1] else powers
  growBy (limit - powers.length) powers

/-- The first powers. -/
def table (n : ℕ) : List UInt32 := (List.range n).map power

@[simp] theorem length_table (n : ℕ) : (table n).length = n := by
  rw [table, List.length_map, List.length_range]

theorem table_succ (n : ℕ) : table (n + 1) = table n ++ [power n] := by
  rw [table, List.range_succ, List.map_append]
  rfl

theorem getElem?_table {n i : ℕ} (h : i < n) : (table n)[i]? = some (power i) := by
  rw [table, List.getElem?_map, List.getElem?_range h, Option.map_some]

theorem growBy_table (n m : ℕ) : growBy n (table (m + 1)) = table (m + 1 + n) := by
  induction n generalizing m with
  | zero => rfl
  | succ n ih =>
    have hlast : (table (m + 1)).getLastD 1 = power m := by rw [table_succ]; simp
    rw [growBy, hlast]
    show growBy n (table (m + 1) ++ [power (m + 1)]) = _
    rw [← table_succ, ih, Nat.add_right_comm, Nat.add_assoc]

theorem grow_table (limit n : ℕ) : grow limit (table n) = table (max limit (max n 1)) := by
  cases n with
  | zero =>
    show growBy (limit - 1) (table (0 + 1)) = _
    rw [growBy_table]
    congr 1
    omega
  | succ n =>
    rw [grow]
    simp only [length_table, Nat.not_lt.mpr (Nat.le_add_left 1 n), if_false]
    rw [growBy_table]
    congr 1
    omega

end Hash

/-- `Hash`: the powers that have been needed so far. -/
structure Hash where
  powers : List UInt32
  isTable : powers = Hash.table powers.length

/-- `&Hash{}`. -/
def Hash.new : Hash := ⟨[], rfl⟩

/-- `getPowers`. -/
def Hash.getPowers (hash : Hash) (limit : ℕ) : Hash where
  powers := grow limit hash.powers
  isTable := by
    have h := hash.isTable
    generalize hash.powers.length = n at h
    rw [h, grow_table, length_table]

theorem Hash.getElem?_getPowers (hash : Hash) {limit i : ℕ} (h : i < max limit 1) :
    (hash.getPowers limit).powers[i]? = some (power i) := by
  show (grow limit hash.powers)[i]? = _
  rw [hash.isTable, grow_table]
  exact getElem?_table (by omega)

/-! ## Nodes -/

namespace Hash

/-- `Node`: the hash of a string, and its length in bytes. -/
structure Node where
  value : UInt32
  length : ℕ
  deriving DecidableEq

/-- The loop of `Calc`, from a byte on. -/
def calcFrom (powers : List UInt32) : List Char → ℕ → UInt32 → Go UInt32
  | [], _, value => .ok value
  | char :: string, i, value => do
    let power ← index powers i
    calcFrom powers string (i + char.utf8Size) (add value (mul char.val power))

/-- `Calc`, with the table afterwards. -/
def calcHash (hash : Hash) (string : String) : Go (Node × Hash) := do
  let length := string.utf8ByteSize
  let hash := hash.getPowers length
  let value ← calcFrom hash.powers string.toList 0 0
  .ok (⟨value, length⟩, hash)

/-- `Join`, with the table afterwards. -/
def join (hash : Hash) (first second : Node) : Go (Node × Hash) := do
  let hash := hash.getPowers (first.length + 1)
  let power ← index hash.powers first.length
  .ok (⟨add first.value (mul second.value power), first.length + second.length⟩, hash)

/-! ## Nodes as fingerprints -/

/-- The fingerprint of a string. -/
def fingerprint (string : String) : Fingerprint (ZMod modulus) :=
  .ofList (residue base) (fun char ↦ residue char.val) Char.utf8Size string.toList

/-- The node for a fingerprint. -/
def Node.of (x : Fingerprint (ZMod modulus)) : Node := ⟨UInt32.ofNat x.value.val, x.length⟩

/-- The node for a string. -/
def nodeOf (string : String) : Node := .of (fingerprint string)

theorem Node.value_of_lt (x : Fingerprint (ZMod modulus)) : (Node.of x).value < mod := by
  have hlt := ZMod.val_lt x.value
  rw [lt_mod_iff, Node.of, UInt32.toNat_ofNat']
  simp only [modulus] at *
  omega

theorem Node.residue_value_of (x : Fingerprint (ZMod modulus)) :
    residue (Node.of x).value = x.value := by
  have hlt := ZMod.val_lt x.value
  have hval : (UInt32.ofNat x.value.val).toNat = x.value.val := by
    rw [UInt32.toNat_ofNat']
    simp only [modulus] at *
    omega
  rw [residue, Node.of, hval, ZMod.natCast_zmod_val]

/-- A number below the modulus is the value of a node if their residues are the same. -/
theorem Node.eq_of {value : UInt32} {x : Fingerprint (ZMod modulus)} (hlt : value < mod)
    (h : residue value = x.value) : (⟨value, x.length⟩ : Node) = .of x := by
  have hvalue := residue_inj hlt (Node.value_of_lt x) (h.trans (Node.residue_value_of x).symm)
  rw [hvalue]
  rfl

theorem utf8ByteSize_eq_sum (string : String) :
    string.utf8ByteSize = (string.toList.map Char.utf8Size).sum := by
  rw [← string.ofList_toList]
  generalize string.toList = chars
  rw [String.toList_ofList]
  induction chars with
  | nil => rfl
  | cons char chars ih =>
    rw [← List.singleton_append, String.ofList_append, String.utf8ByteSize_append, ih,
      ← String.singleton_eq_ofList, String.utf8ByteSize_singleton]
    rfl

theorem length_fingerprint (string : String) :
    (fingerprint string).length = string.utf8ByteSize := by
  rw [fingerprint, Fingerprint.length_ofList, utf8ByteSize_eq_sum]

/-- Strings one after the other have the join of the fingerprints. -/
theorem fingerprint_append (first second : String) : fingerprint (first ++ second) =
    (fingerprint first).join (residue base) (fingerprint second) := by
  rw [fingerprint, String.toList_append, Fingerprint.ofList_append]
  rfl

theorem calcFrom_eq {powers : List UInt32} {string : List Char} {i : ℕ} {value : UInt32}
    (hvalue : value < mod)
    (hpowers : ∀ j < i + (string.map Char.utf8Size).sum, powers[j]? = some (power j)) :
    ∃ result, calcFrom powers string i value = .ok result ∧ result < mod ∧
      residue result = residue value +
        (Fingerprint.ofList (residue base) (fun char ↦ residue char.val) Char.utf8Size
          string).value * residue base ^ i := by
  induction string generalizing i value with
  | nil => exact ⟨value, rfl, hvalue, by simp [Fingerprint.ofList, Fingerprint.empty]⟩
  | cons char string ih =>
    rw [List.map_cons, List.sum_cons] at hpowers
    have hsize : 0 < char.utf8Size := char.utf8Size_pos
    have hpower := hpowers i (by omega)
    have hproduct := (mulInRange char.val (power i)).2
    obtain ⟨result, hresult, hlt, hresidue⟩ := @ih (i + char.utf8Size)
      (add value (mul char.val (power i))) (addInRange hvalue hproduct).2
      (fun j hj ↦ hpowers j (by omega))
    refine ⟨result, ?_, hlt, ?_⟩
    · rw [calcFrom, index_eq_ok.mpr hpower]
      exact hresult
    · rw [hresidue, residue_add hvalue hproduct, residue_mul, residue_power, Fingerprint.ofList,
        Fingerprint.join, pow_add]
      ring

/-- **What `Calc` calculates**, in any state of the table. -/
theorem calcHash_eq (hash : Hash) (string : String) :
    hash.calcHash string = .ok (nodeOf string, hash.getPowers string.utf8ByteSize) := by
  have hpowers : ∀ j < 0 + (string.toList.map Char.utf8Size).sum,
      (hash.getPowers string.utf8ByteSize).powers[j]? = some (power j) := by
    intro j hj
    rw [← utf8ByteSize_eq_sum] at hj
    exact hash.getElem?_getPowers (by omega)
  obtain ⟨value, hvalue, hlt, hresidue⟩ := calcFrom_eq (show (0 : UInt32) < mod by decide) hpowers
  have hresult : residue value = (fingerprint string).value := by
    rw [hresidue, fingerprint, pow_zero, mul_one]
    exact zero_add _
  have hnode := Node.eq_of hlt hresult
  rw [length_fingerprint] at hnode
  rw [calcHash, hvalue, Go.ok_bind, hnode]
  rfl

/-- **What `Join` calculates**, in any state of the table. -/
theorem join_eq (hash : Hash) (x y : Fingerprint (ZMod modulus)) :
    hash.join (.of x) (.of y) =
      .ok (.of (x.join (residue base) y), hash.getPowers (x.length + 1)) := by
  have hpower : (hash.getPowers (x.length + 1)).powers[x.length]? = some (power x.length) :=
    hash.getElem?_getPowers (by omega)
  have hproduct := (mulInRange (Node.of y).value (power x.length)).2
  have hx := Node.value_of_lt x
  have hresidue : residue (add (Node.of x).value (mul (Node.of y).value (power x.length))) =
      (x.join (residue base) y).value := by
    rw [residue_add hx hproduct, residue_mul, residue_power, Node.residue_value_of,
      Node.residue_value_of, Fingerprint.join]
  have hnode := Node.eq_of (addInRange hx hproduct).2 hresidue
  rw [join]
  show (do
    let power ← index (hash.getPowers (x.length + 1)).powers x.length
    Except.ok (_, hash.getPowers (x.length + 1)) : Go (Node × Hash)) = _
  rw [index_eq_ok.mpr hpower, Go.ok_bind, ← hnode]
  rfl

/-! ## No overflow -/

/-- The loop of `Calc` adds and multiplies in range. -/
def CalcFromInRange (powers : List UInt32) : List Char → ℕ → UInt32 → Prop
  | [], _, value => value < mod
  | char :: string, i, value => ∃ power, powers[i]? = some power ∧ MulInRange char.val power ∧
      AddInRange value (mul char.val power) ∧
      CalcFromInRange powers string (i + char.utf8Size) (add value (mul char.val power))

/-- `Calc` stays in range, and so does the table it leaves. -/
def CalcInRange (hash : Hash) (string : String) : Prop :=
  (∀ power ∈ (hash.getPowers string.utf8ByteSize).powers, power < mod ∧ MulInRange power base) ∧
    CalcFromInRange (hash.getPowers string.utf8ByteSize).powers string.toList 0 0

/-- `Join` stays in range, and so does the table it leaves. -/
def JoinInRange (hash : Hash) (first second : Node) : Prop :=
  (∀ power ∈ (hash.getPowers (first.length + 1)).powers, power < mod ∧ MulInRange power base) ∧
    ∃ power, (hash.getPowers (first.length + 1)).powers[first.length]? = some power ∧
      MulInRange second.value power ∧ AddInRange first.value (mul second.value power)

theorem powers_inRange (hash : Hash) :
    ∀ power ∈ hash.powers, power < mod ∧ MulInRange power base := by
  rw [hash.isTable, table]
  exact List.forall_mem_map.mpr fun i _ ↦ ⟨power_lt i, mulInRange _ _⟩

theorem calcFromInRange {powers : List UInt32} {string : List Char} {i : ℕ} {value : UInt32}
    (hvalue : value < mod)
    (hpowers : ∀ j < i + (string.map Char.utf8Size).sum, powers[j]? = some (power j)) :
    CalcFromInRange powers string i value := by
  induction string generalizing i value with
  | nil => exact hvalue
  | cons char string ih =>
    rw [List.map_cons, List.sum_cons] at hpowers
    have hsize : 0 < char.utf8Size := char.utf8Size_pos
    have hproduct := mulInRange char.val (power i)
    have hsum := addInRange hvalue hproduct.2
    exact ⟨power i, hpowers i (by omega), hproduct, hsum,
      ih hsum.2 fun j hj ↦ hpowers j (by omega)⟩

theorem calcInRange (hash : Hash) (string : String) : CalcInRange hash string := by
  refine ⟨powers_inRange _, calcFromInRange (by decide) fun j hj ↦ ?_⟩
  rw [← utf8ByteSize_eq_sum] at hj
  exact hash.getElem?_getPowers (by omega)

theorem joinInRange (hash : Hash) {first : Node} (hfirst : first.value < mod) (second : Node) :
    JoinInRange hash first second := by
  have hproduct := mulInRange second.value (power first.length)
  exact ⟨powers_inRange _, power first.length, hash.getElem?_getPowers (by omega), hproduct,
    addInRange hfirst hproduct.2⟩

end Hash

end Gohan.Converter
