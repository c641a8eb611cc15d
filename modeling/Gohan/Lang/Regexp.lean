import Gohan.Lang.Value

/-!
# Go's `regexp` package

Policies name tenants and paths by regular expressions.  What the program asks of package `regexp`
is small: compile a pattern, or report why it does not compile; search a text for a compiled
pattern, *anywhere* in the text; and print a compiled pattern, which gives the pattern it was
compiled from.

`RegexpEngine` is that interface.  The development is written against it, so that whatever is
proved about a policy is proved for every syntax and every matcher.  A compiled `Regexp` is a
pattern together with the proof that it compiles; a `*regexp.Regexp` is an `Option` of it, `none`
being the nil pointer that `regexp.Compile` returns next to an error.

`Re2` is an engine to run things on.  It reads the core of the package's syntax — literals, `.`,
classes, escapes, groups, alternation, the three repetition operators and their lazy forms, `^`
and `$` — and reports the package's errors there.  Counted repetition, flags and Unicode classes
are not read, and a pattern that uses them is refused.
-/

set_option autoImplicit false

namespace Gohan

/-- What the program uses of package `regexp`. -/
class RegexpEngine where
  /-- Why a pattern does not compile; `none` when it does. -/
  syntaxError : String → Option String
  /-- Does the pattern match somewhere in the text? -/
  search : String → String → Bool

section Engine

variable [RegexpEngine]

/-- A compiled regular expression. -/
structure Regexp where
  /-- The pattern it was compiled from. -/
  expr : String
  /-- The pattern does compile. -/
  compiles : RegexpEngine.syntaxError expr = none

namespace Regexp

/-- `regexp.Compile`. -/
def compile (pattern : String) : Go Regexp :=
  match h : RegexpEngine.syntaxError pattern with
  | none => .ok ⟨pattern, h⟩
  | some msg => .errorf "error parsing regexp: %s" [.str msg]

/-- `re.MatchString(text)` on a pointer that is not nil. -/
def matchString (re : Regexp) (text : String) : Bool := RegexpEngine.search re.expr text

end Regexp

/-! ## What is documented of every engine -/

/-- The characters of the syntax; `regexp.QuoteMeta` puts a backslash before them. -/
def metaChars : List Char := ['\\', '.', '+', '*', '?', '(', ')', '|', '[', ']', '{', '}', '^', '$']

/-- A text without characters of the syntax. -/
def isLiteral (text : String) : Bool := text != "" && text.toList.all fun c ↦ !metaChars.contains c

/-- `.*`, several times over. -/
def anys (n : ℕ) : String := String.ofList (List.replicate n ['.', '*']).flatten

/-- What the documentation of the package says of these texts: one without characters of the syntax
compiles and is searched for as it stands, and `.*` matches every text. -/
class LawfulRegexpEngine : Prop where
  literal_compiles : ∀ text, isLiteral text = true → RegexpEngine.syntaxError text = none
  literal_search : ∀ text s, isLiteral text = true →
    (RegexpEngine.search text s = true ↔ text.toList <:+: s.toList)
  anys_compiles : ∀ n, RegexpEngine.syntaxError (anys n) = none
  anys_search : ∀ n s, RegexpEngine.search (anys n) s = true

omit [RegexpEngine] in
@[simp] theorem toList_anys (n : ℕ) : (anys n).toList = (List.replicate n ['.', '*']).flatten :=
  String.toList_ofList

omit [RegexpEngine] in
theorem length_anys (n : ℕ) : (anys n).length = 2 * n := by
  rw [← String.length_toList, toList_anys]
  induction n with
  | zero => rfl
  | succ n ih =>
    rw [List.replicate_succ, List.flatten_cons, List.length_append, ih, List.length_cons,
      List.length_singleton]
    omega

end Engine

/-! ## An engine for the core syntax -/

namespace Re2

/-- The syntax tree of a pattern. -/
inductive Re where
  /-- The empty pattern. -/
  | eps
  /-- `^`. -/
  | bol
  /-- `$`. -/
  | eol
  /-- One character inside, or with `neg` outside, the ranges. -/
  | cls (neg : Bool) (ranges : List (Char × Char))
  | cat (a b : Re)
  | alt (a b : Re)
  | star (a : Re)

/-- The positions a repetition can stop at: each round has to make progress. -/
def starEnds (f : ℕ → List ℕ) : ℕ → ℕ → List ℕ
  | 0, i => [i]
  | n + 1, i => i :: ((f i).filter (i < ·)).flatMap (starEnds f n)

/-- The positions of `text` at which a match starting at position `i` can end. -/
def ends (text : List Char) : Re → ℕ → List ℕ
  | .eps, i => [i]
  | .bol, i => if i = 0 then [i] else []
  | .eol, i => if i = text.length then [i] else []
  | .cls neg ranges, i =>
    match text[i]? with
    | some c => if (ranges.any fun r ↦ r.1 ≤ c && c ≤ r.2) != neg then [i + 1] else []
    | none => []
  | .cat a b, i => (ends text a i).flatMap (ends text b)
  | .alt a b, i => ends text a i ++ ends text b i
  | .star a, i => starEnds (ends text a) text.length i

/-- Does the tree match somewhere in the text? -/
def found (re : Re) (text : List Char) : Bool :=
  (List.range (text.length + 1)).any fun i ↦ !(ends text re i).isEmpty

/-! ### Reading a pattern -/

/-- What `\c` stands for, when it is one of the escapes read here. -/
def escape (c : Char) : Option Re :=
  let word := [('0', '9'), ('A', 'Z'), ('a', 'z'), ('_', '_')]
  let space := [('\t', '\n'), ('\x0c', '\r'), (' ', ' ')]
  match c with
  | 'd' => some (.cls false [('0', '9')])
  | 'D' => some (.cls true [('0', '9')])
  | 'w' => some (.cls false word)
  | 'W' => some (.cls true word)
  | 's' => some (.cls false space)
  | 'S' => some (.cls true space)
  | 'n' => some (.cls false [('\n', '\n')])
  | 't' => some (.cls false [('\t', '\t')])
  | c => if c.isAlphanum then none else some (.cls false [(c, c)])

/-- The ranges of a class, up to its closing bracket; `first` allows a leading `]`. -/
def parseRanges : ℕ → Bool → List Char → Except String (List (Char × Char) × List Char)
  | 0, _, _ | _ + 1, _, [] => .error "missing closing ]"
  | n + 1, first, c :: cs =>
    if c = ']' && !first then .ok ([], cs)
    else if c = '\\' || c = '[' then .error "invalid escape sequence"
    else match cs with
      | '-' :: hi :: rest =>
        if hi = ']' then do
          let (rs, rest) ← parseRanges n false cs
          .ok ((c, c) :: rs, rest)
        else if hi < c then .error "invalid character class range"
        else do
          let (rs, rest) ← parseRanges n false rest
          .ok ((c, hi) :: rs, rest)
      | _ => do
        let (rs, rest) ← parseRanges n false cs
        .ok ((c, c) :: rs, rest)

/-- What follows a repetition operator: possibly a `?`, but no second operator. -/
def afterRepeat (re : Re) (cs : List Char) : Except String (Re × List Char) :=
  let rest := match cs with
    | '?' :: rest => rest
    | _ => cs
  match rest with
  | '*' :: _ | '+' :: _ | '?' :: _ => .error "invalid nested repetition operator"
  | _ => .ok (re, rest)

mutual
/-- Alternatives separated by `|`. -/
def parseAlt : ℕ → List Char → Except String (Re × List Char)
  | 0, _ => .error "expression nests too deeply"
  | n + 1, cs => do
    let (a, rest) ← parseCat n cs
    match rest with
    | '|' :: rest => do
      let (b, rest) ← parseAlt n rest
      .ok (.alt a b, rest)
    | _ => .ok (a, rest)

/-- A sequence of repeated atoms. -/
def parseCat : ℕ → List Char → Except String (Re × List Char)
  | 0, _ => .error "expression nests too deeply"
  | n + 1, cs =>
    match cs with
    | [] | '|' :: _ | ')' :: _ => .ok (.eps, cs)
    | _ => do
      let (a, rest) ← parseRepeat n cs
      let (b, rest) ← parseCat n rest
      .ok (.cat a b, rest)

/-- An atom with at most one repetition operator. -/
def parseRepeat : ℕ → List Char → Except String (Re × List Char)
  | 0, _ => .error "expression nests too deeply"
  | n + 1, cs => do
    let (a, rest) ← parseAtom n cs
    match rest with
    | '*' :: rest => afterRepeat (.star a) rest
    | '+' :: rest => afterRepeat (.cat a (.star a)) rest
    | '?' :: rest => afterRepeat (.alt a .eps) rest
    | _ => .ok (a, rest)

/-- A group, a class, an anchor, an escape or a literal. -/
def parseAtom : ℕ → List Char → Except String (Re × List Char)
  | 0, _ => .error "expression nests too deeply"
  | _ + 1, [] => .ok (.eps, [])
  | n + 1, c :: cs =>
    match c with
    | '(' => do
      let (a, rest) ← parseAlt n cs
      match rest with
      | ')' :: rest => .ok (a, rest)
      | _ => .error "missing closing )"
    | '[' =>
      match cs with
      | '^' :: cs => do
        let (rs, rest) ← parseRanges n true cs
        .ok (.cls true rs, rest)
      | _ => do
        let (rs, rest) ← parseRanges n true cs
        .ok (.cls false rs, rest)
    | '.' => .ok (.cls true [('\n', '\n')], cs)
    | '^' => .ok (.bol, cs)
    | '$' => .ok (.eol, cs)
    | '*' | '+' | '?' => .error "missing argument to repetition operator"
    | '{' => .error "counted repetition is not supported"
    | '\\' =>
      match cs with
      | [] => .error "trailing backslash at end of expression"
      | e :: cs =>
        match escape e with
        | some re => .ok (re, cs)
        | none => .error "invalid escape sequence"
    | c => .ok (.cls false [(c, c)], cs)
end

/-- The tree of a pattern. -/
def parse (pattern : String) : Except String Re := do
  let cs := pattern.toList
  let (re, rest) ← parseAlt (4 * cs.length + 4) cs
  if rest.isEmpty then .ok re else .error "unexpected )"

/-- The engine of the core syntax. -/
@[reducible] def engine : RegexpEngine where
  syntaxError pattern :=
    match parse pattern with
    | .ok _ => none
    | .error msg => some msg
  search pattern text :=
    match parse pattern with
    | .ok re => found re text.toList
    | .error _ => false

example : engine.search "/v2.0/networks/[^/]+/?$" "/v2.0/networks/a1" = true := by decide +kernel
example : engine.search "acf5662b.*" "fc394f2a" = false := by decide +kernel
example : engine.syntaxError "tenant(1" = some "missing closing )" := by decide +kernel

/-! ### Literal texts and `.*` -/

/-- The tree of one character. -/
def chr (c : Char) : Re := .cls false [(c, c)]

/-- The tree of a text without characters of the syntax. -/
def lits : List Char → Re
  | [] => .eps
  | c :: cs => .cat (chr c) (lits cs)

/-- The tree of `.*`, several times over. -/
def dots : ℕ → Re
  | 0 => .eps
  | n + 1 => .cat (.star (.cls true [('\n', '\n')])) (dots n)

theorem parseAtom_chr {c : Char} (h : c ∉ metaChars) (n : ℕ) (cs : List Char) :
    parseAtom (n + 1) (c :: cs) = .ok (chr c, cs) := by
  simp only [metaChars, List.mem_cons, not_or] at h
  rw [parseAtom]
  · rfl
  all_goals simp_all

theorem parseRepeat_chr {c : Char} (h : c ∉ metaChars) {cs : List Char}
    (hcs : ∀ d ∈ cs, d ∉ metaChars) (n : ℕ) :
    parseRepeat (n + 2) (c :: cs) = .ok (chr c, cs) := by
  rw [parseRepeat, parseAtom_chr h]
  cases cs with
  | nil => rfl
  | cons d cs =>
    have hd := hcs d List.mem_cons_self
    simp only [metaChars, List.mem_cons, not_or] at hd
    simp only [bind, Except.bind]
    split <;> simp_all

/-- Read with a step for each character, a text gives its tree. -/
theorem parseCat_lits {cs : List Char} (h : ∀ c ∈ cs, c ∉ metaChars) (n : ℕ) :
    parseCat (cs.length + n + 3) cs = .ok (lits cs, []) := by
  induction cs with
  | nil => rfl
  | cons c cs ih =>
    obtain ⟨hc, hcs⟩ := List.forall_mem_cons.mp h
    have hstep : parseCat (cs.length + n + 4) (c :: cs) =
        (parseRepeat (cs.length + n + 3) (c :: cs) >>= fun first ↦
          parseCat (cs.length + n + 3) first.2 >>= fun rest ↦
            .ok (.cat first.1 rest.1, rest.2)) := by
      simp only [metaChars, List.mem_cons, not_or] at hc
      rw [parseCat]
      all_goals simp_all
    have hlength : (c :: cs).length + n + 3 = cs.length + n + 4 := by
      rw [List.length_cons]
      omega
    rw [hlength, hstep, parseRepeat_chr hc hcs]
    simp only [bind, Except.bind, ih hcs]
    rfl

theorem parseRepeat_dot (n k : ℕ) :
    parseRepeat (n + 2) ('.' :: '*' :: (List.replicate k ['.', '*']).flatten) =
      .ok (.star (.cls true [('\n', '\n')]), (List.replicate k ['.', '*']).flatten) := by
  cases k <;> rfl

theorem parseCat_dots (k n : ℕ) :
    parseCat (k + n + 3) (List.replicate k ['.', '*']).flatten = .ok (dots k, []) := by
  induction k with
  | zero => rfl
  | succ k ih =>
    have hstep : parseCat (k + n + 4) (List.replicate (k + 1) ['.', '*']).flatten =
        (parseRepeat (k + n + 3) ('.' :: '*' :: (List.replicate k ['.', '*']).flatten) >>=
          fun first ↦ parseCat (k + n + 3) first.2 >>= fun rest ↦
            .ok (.cat first.1 rest.1, rest.2)) := rfl
    rw [show k + 1 + n + 3 = k + n + 4 by omega, hstep, parseRepeat_dot]
    simp only [bind, Except.bind, ih]
    rfl

/-- A sequence that is read to its end is the whole pattern. -/
theorem parse_of_cat {pattern : String} {re : Re} {n : ℕ}
    (h : parseCat n pattern.toList = .ok (re, []))
    (hn : n = 4 * pattern.toList.length + 3) : parse pattern = .ok re := by
  rw [parse, parseAlt, ← hn, h]
  rfl

theorem parse_literal {text : String} (h : isLiteral text = true) :
    parse text = .ok (lits text.toList) := by
  have hmeta : ∀ c ∈ text.toList, c ∉ metaChars := by
    simpa using (Bool.and_eq_true_iff.mp h).2
  exact parse_of_cat (parseCat_lits hmeta (3 * text.toList.length)) (by omega)

theorem parse_anys (n : ℕ) : parse (anys n) = .ok (dots n) := by
  refine parse_of_cat (n := n + 7 * n + 3) ?_ ?_
  · rw [toList_anys]
    exact parseCat_dots n (7 * n)
  · rw [String.length_toList, length_anys]
    omega

/-- A text matches where it stands. -/
theorem ends_lits (text cs : List Char) (i : ℕ) :
    ends text (lits cs) i = if cs <+: text.drop i then [i + cs.length] else [] := by
  induction cs generalizing i with
  | nil => simp [lits, ends]
  | cons c cs ih =>
    rw [lits, ends, chr, ends]
    cases htext : text[i]? with
    | none =>
      rw [List.drop_eq_nil_of_le (List.getElem?_eq_none_iff.mp htext)]
      simp
    | some d =>
      obtain ⟨hi, rfl⟩ := List.getElem?_eq_some_iff.mp htext
      have hstart : c :: cs <+: text.drop i ↔ c = text[i] ∧ cs <+: text.drop (i + 1) := by
        rw [List.drop_eq_getElem_cons hi, List.cons_prefix_cons]
      by_cases heq : c = text[i]
      · have htail : c :: cs <+: text.drop i ↔ cs <+: text.drop (i + 1) := by
          rw [hstart, and_iff_right heq]
        simp [htail, ← heq, ih, Nat.add_assoc, Nat.add_comm 1]
      · have hrange : ([(c, c)].any fun r ↦ r.1 ≤ text[i] && text[i] ≤ r.2) ≠ true := by
          intro h
          simp only [List.any_cons, List.any_nil, Bool.or_false, Bool.and_eq_true,
            decide_eq_true_eq] at h
          exact heq (Char.le_antisymm h.1 h.2)
        rw [if_neg (mt (fun h ↦ (hstart.mp h).1) heq)]
        simp [hrange]

theorem found_lits (text cs : List Char) : found (lits cs) text = true ↔ cs <:+: text := by
  simp only [found, List.any_eq_true, List.mem_range, ends_lits]
  constructor
  · rintro ⟨i, -, h⟩
    have hstart : cs <+: text.drop i := by
      by_contra hno
      simp [hno] at h
    exact hstart.isInfix.trans (List.drop_suffix i text).isInfix
  · rintro ⟨before, after, rfl⟩
    refine ⟨before.length, ?_, by simp⟩
    simp only [List.length_append]
    omega

theorem mem_ends_dots (text : List Char) (n i : ℕ) : i ∈ ends text (dots n) i := by
  induction n with
  | zero => exact List.mem_singleton_self i
  | succ n ih =>
    refine List.mem_flatMap.mpr ⟨i, ?_, ih⟩
    rw [ends]
    cases text.length with
    | zero => exact List.mem_singleton_self i
    | succ k => exact List.mem_cons_self

theorem lawful_engine : @LawfulRegexpEngine engine := by
  refine @LawfulRegexpEngine.mk engine (fun text h ↦ ?_) (fun text s h ↦ ?_) (fun n ↦ ?_)
    fun n s ↦ ?_
  · simp only [RegexpEngine.syntaxError, parse_literal h]
  · simp only [RegexpEngine.search, parse_literal h]
    exact found_lits _ _
  · simp only [RegexpEngine.syntaxError, parse_anys]
  · simp only [RegexpEngine.search, parse_anys, found, List.any_eq_true]
    refine ⟨0, by simp, ?_⟩
    have hmem := mem_ends_dots s.toList n 0
    cases hends : ends s.toList (dots n) 0 with
    | nil => simp [hends] at hmem
    | cons => rfl

end Re2

end Gohan
