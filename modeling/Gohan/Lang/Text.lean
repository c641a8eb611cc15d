import Gohan.Lang.Value

/-!
# Texts

What becomes of a value that is written as a text and read back, without the texts themselves.  A
JSON text is represented by the value it is a text of; reading it is `Value.decode`.  What pongo2
and `fmt` do with values is left open, in `TextEngine`, and so is, in `FloatConversion`, what a
`float64` becomes that is too large for an integer.
-/

set_option autoImplicit false

namespace Gohan.Sync

/-- What the libraries make of values: pongo2 parses and executes a template, `fmt.Sprint` prints a
value that is no string, and a JSON number is read as the nearest `float64`. -/
class TextEngine where
  execute : String → List (String × Value) → Option String
  sprint : Value → String
  float64 : ℤ → ℚ

/-- A template of text and placeholders, executed on strings: every placeholder is replaced by the
property it names, and one that is not closed is an error.  The name being read comes last,
backwards. -/
def expand (data : List (String × Value)) : List Char → Option (List Char) → Option (List Char)
  | [], none => some []
  | [], some _ => none
  | '{' :: '{' :: cs, none => expand data cs (some [])
  | c :: cs, none => (expand data cs none).map (c :: ·)
  | '}' :: '}' :: cs, some name =>
    let value := (data.lookup (String.ofList name.reverse)).getD .nil
    (expand data cs none).map (value.maybeString.toList ++ ·)
  | c :: cs, some name => expand data cs (some (c :: name))

/-- The part of the libraries that concerns strings. -/
@[reducible] def placeholders : TextEngine where
  execute template data := (expand data template.toList none).map String.ofList
  sprint _ := "<nil>"
  float64 n := n

end Gohan.Sync

namespace Gohan

/-! ## Numbers -/

section Numbers

/-- The ends of the range of an `int64`. -/
def minInt64 : ℤ := -9223372036854775808

/-- The greatest integer of 64 bits. -/
def maxInt64 : ℤ := 9223372036854775807

/-- What `int64(f)` gives where the language leaves it to the implementation. -/
class FloatConversion where
  outOfRange : ℚ → ℤ

/-- The conversion on amd64. -/
@[reducible] def amd64 : FloatConversion := ⟨fun _ ↦ minInt64⟩

variable [FloatConversion]

/-- `int64(f)`: the fraction is discarded. -/
def int64OfFloat (f : ℚ) : ℤ :=
  let n := f.num.tdiv f.den
  if minInt64 ≤ n ∧ n ≤ maxInt64 then n else FloatConversion.outOfRange f

/-- A version that is an `int64` is converted to itself. -/
theorem int64OfFloat_intCast {n : ℤ} (h : minInt64 ≤ n ∧ n ≤ maxInt64) : int64OfFloat n = n := by
  have hn : (n : ℚ).num.tdiv (n : ℚ).den = n := by simp
  rw [int64OfFloat, hn]
  exact if_pos h

end Numbers

open Sync

variable [TextEngine]

/-! ## JSON -/

namespace Value

mutual
/-- `json.Unmarshal` of the text of a value, into an `interface{}`. -/
def decode : Value → Value
  | .nil => .nil
  | .bool b => .bool b
  | .int n => .float (TextEngine.float64 n)
  | .float q => .float q
  | .str s => .str s
  | .strs ss => .list (ss.map .str)
  | .list vs => .list (decodeList vs)
  | .map m => .map (decodeMap m)

/-- `decode` on the elements of a list. -/
def decodeList : List Value → List Value
  | [] => []
  | v :: vs => decode v :: decodeList vs

/-- `decode` on the entries of a map. -/
def decodeMap : List (String × Value) → List (String × Value)
  | [] => []
  | (k, v) :: m => (k, decode v) :: decodeMap m
end

/-- `json.Unmarshal` of the text of a value, into a `map[string]interface{}`. -/
def unmarshalMap : Value → Go (List (String × Value))
  | .map m => .ok (decodeMap m)
  | .nil => .ok []
  | _ => .errorf "json: cannot unmarshal into Go value of type map[string]interface {}"

/-- Reading a text back does not change which names there are. -/
theorem lookup_decodeMap (m : List (String × Value)) (k : String) :
    (decodeMap m).lookup k = (m.lookup k).map decode := by
  induction m with
  | nil => rfl
  | cons e m ih =>
    rw [decodeMap, List.lookup_cons, List.lookup_cons, ih]
    cases k == e.1 <;> rfl

end Value

end Gohan
