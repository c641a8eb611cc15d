import Gohan.Lang.Regexp

/-!
# Tenants and tenant matchers

A caller acts for a tenant, and a resource belongs to one.  The check that the two fit does not
compare identifiers: both sides, and every `belongs_to` entry of the policy, become a
`TenantMatcher`, a regular expression for the identifier and one for the name, and two matchers
are `equal` when on each of the two coordinates *either* expression matches the text of the
*other*.

The empty string stands for "any", which is what the two-sided test is for: a side that gives no
name has the expression `.*` there, and that matches whatever the other side has.

A matcher is built with the errors of `regexp.Compile` thrown away, so its expressions are
pointers that may be nil, and comparing such a matcher panics.  `equal_of_compiled` and
`not_returns_equal` are the two halves of what `equal` does; in between there is nothing.
-/

set_option autoImplicit false

namespace Gohan

/-! ## Who is calling -/

/-- `Tenant`. -/
structure Tenant where
  id : String
  name : String

/-- `Domain`. -/
structure Domain where
  id : String
  name : String

/-- `Role`. -/
structure Role where
  name : String
  deriving DecidableEq

/-- Does the role play the principal of a policy? -/
def Role.matches (r : Role) (principal : String) : Bool := r.name == principal

/-- The kinds of token a policy can be restricted to. -/
inductive Scope where
  | tenant
  | domain
  | admin
  deriving DecidableEq

/-- All types of tokens. -/
def allTokenTypes : List Scope := [.tenant, .domain, .admin]

/-! ## Expressions for tenants -/

variable [RegexpEngine]

/-- The text that everything matches. -/
def globalRegexp : String := ".*"

/-- Compile an expression; the empty string stands for `.*`. -/
def getRegexp (input : String) : Go Regexp :=
  Regexp.compile (if input = "" then globalRegexp else input)

/-- `re.String()` on a pointer. -/
def regexpString : Option Regexp → Go String
  | some re => .ok re.expr
  | none => .panicf "runtime error: invalid memory address or nil pointer dereference"

/-- `re.MatchString(text)` on a pointer. -/
def regexpMatch : Option Regexp → String → Go Bool
  | some re, text => .ok (re.matchString text)
  | none, _ => .panicf "runtime error: invalid memory address or nil pointer dereference"

/-- `a.MatchString(b.String()) || b.MatchString(a.String())`. -/
def eitherMatches (a b : Option Regexp) : Go Bool := do
  if ← regexpMatch a (← regexpString b) then .ok true
  else regexpMatch b (← regexpString a)

/-- `tenantMatcher`: an expression for the identifier and one for the name. -/
structure TenantMatcher where
  ID : Option Regexp
  Name : Option Regexp

/-- A matcher for given texts; an expression that does not compile is left nil. -/
def newTenantMatcher (tenantID tenantName : String) : TenantMatcher :=
  ⟨(getRegexp tenantID).toOption, (getRegexp tenantName).toOption⟩

/-- An entry of a policy's `belongs_to` table.  Its expressions were compiled when the policy was
loaded, and a policy with one that does not compile was refused. -/
structure AllowedTenant where
  ID : Regexp
  Name : Regexp

/-- The entry as the matcher it is stored as. -/
def AllowedTenant.matcher (m : AllowedTenant) : TenantMatcher := ⟨some m.ID, some m.Name⟩

/-- What an entry is there for: one given by name admits the tenants whose name it matches, and
any other the tenants whose identifier it matches. -/
def AllowedTenant.admits (m : AllowedTenant) (tenantID tenantName : String) : Bool :=
  if m.Name.expr = globalRegexp then m.ID.matchString tenantID else m.Name.matchString tenantName

namespace TenantMatcher

/-- `equal`: the identifiers match one way or the other, and so do the names. -/
def equal (t t2 : TenantMatcher) : Go Bool := do
  let idMatch ← eitherMatches t.ID t2.ID
  let nameMatch ← eitherMatches t.Name t2.Name
  .ok (idMatch && nameMatch)

/-- Both expressions compiled. -/
def Compiled (t : TenantMatcher) : Prop := t.ID.isSome ∧ t.Name.isSome

instance (t : TenantMatcher) : Decidable t.Compiled := inferInstanceAs (Decidable (_ ∧ _))

@[simp] theorem compiled_matcher (m : AllowedTenant) : m.matcher.Compiled := ⟨rfl, rfl⟩

/-- Does either of two expressions match the text of the other? -/
def twoSided : Option Regexp → Option Regexp → Bool
  | some a, some b => a.matchString b.expr || b.matchString a.expr
  | _, _ => false

/-- The answer of `equal`, where there is one. -/
def equals (t t2 : TenantMatcher) : Bool := twoSided t.ID t2.ID && twoSided t.Name t2.Name

theorem twoSided_comm (a b : Option Regexp) : twoSided a b = twoSided b a := by
  cases a <;> cases b <;> simp [twoSided, Bool.or_comm]

theorem equals_comm (t t2 : TenantMatcher) : t.equals t2 = t2.equals t := by
  rw [equals, equals, twoSided_comm t.ID, twoSided_comm t.Name]

/-- Only compiled matchers can be equal. -/
theorem compiled_of_equals {t t2 : TenantMatcher} (h : t.equals t2 = true) : t.Compiled := by
  obtain ⟨ID, Name⟩ := t
  rw [equals, Bool.and_eq_true] at h
  cases ID <;> cases Name <;> simp_all [twoSided, Compiled]

theorem eitherMatches_some (a b : Regexp) :
    eitherMatches (some a) (some b) = .ok (twoSided (some a) (some b)) := by
  simp only [eitherMatches, regexpString, regexpMatch, twoSided, bind, Except.bind]
  cases a.matchString b.expr <;> rfl

theorem not_returns_eitherMatches {a b : Option Regexp} (h : ¬ (a.isSome ∧ b.isSome)) :
    ¬ Go.Returns (eitherMatches a b) := by
  cases a <;> cases b <;> simp_all [eitherMatches, regexpString, regexpMatch, Go.returns_bind]

/-- **Comparing two compiled matchers** is the two-sided test on both coordinates. -/
theorem equal_of_compiled {t t2 : TenantMatcher} (h : t.Compiled) (h2 : t2.Compiled) :
    t.equal t2 = .ok (t.equals t2) := by
  obtain ⟨a, ha⟩ := Option.isSome_iff_exists.mp h.1
  obtain ⟨b, hb⟩ := Option.isSome_iff_exists.mp h.2
  obtain ⟨a2, ha2⟩ := Option.isSome_iff_exists.mp h2.1
  obtain ⟨b2, hb2⟩ := Option.isSome_iff_exists.mp h2.2
  simp only [equal, equals, ha, hb, ha2, hb2, eitherMatches_some, bind, Except.bind]

/-- **Comparing with a matcher that did not compile** panics. -/
theorem not_returns_equal {t t2 : TenantMatcher} (h : ¬ (t.Compiled ∧ t2.Compiled)) :
    ¬ Go.Returns (t.equal t2) := by
  intro hret
  rw [equal, Go.returns_bind] at hret
  obtain ⟨hID, hrest⟩ := hret
  have hids : t.ID.isSome ∧ t2.ID.isSome := by
    by_contra hne
    exact not_returns_eitherMatches hne hID
  obtain ⟨a, ha⟩ := Option.isSome_iff_exists.mp hids.1
  obtain ⟨a2, ha2⟩ := Option.isSome_iff_exists.mp hids.2
  have hName := (Go.returns_bind.mp (hrest _ (by rw [ha, ha2, eitherMatches_some]))).1
  have hnames : t.Name.isSome ∧ t2.Name.isSome := by
    by_contra hne
    exact not_returns_eitherMatches hne hName
  exact h ⟨⟨hids.1, hnames.1⟩, hids.2, hnames.2⟩

theorem returns_equal_iff {t t2 : TenantMatcher} :
    Go.Returns (t.equal t2) ↔ t.Compiled ∧ t2.Compiled := by
  refine ⟨fun h ↦ ?_, fun h ↦ ?_⟩
  · by_contra hne
    exact not_returns_equal hne h
  · rw [equal_of_compiled h.1 h.2]
    exact Go.returns_ok _

end TenantMatcher

/-! ## What a text says -/

/-- What a text says as an expression. -/
inductive TextKind where
  /-- Nothing, or `.*`. -/
  | any
  /-- Itself, wherever it stands in a text. -/
  | literal
  | pattern
  deriving DecidableEq

/-- The kind of a text. -/
def textKind (text : String) : TextKind :=
  if text = "" ∨ text = globalRegexp then .any
  else if isLiteral text then .literal
  else .pattern

/-- What is printed of the expression of a text. -/
def printed (text : String) : String := if text = "" then globalRegexp else text

/-- The expression of the text compiles; only a pattern may fail to. -/
def TextCompiles (text : String) : Prop :=
  textKind text = .pattern → RegexpEngine.syntaxError text = none

/-- The expression of the text is found in another text. -/
def FoundIn (text target : String) : Prop :=
  match textKind text with
  | .any => True
  | .literal => text.toList <:+: target.toList
  | .pattern => RegexpEngine.search text target = true

/-- One of the two texts is found in the other. -/
def Touch (a b : String) : Prop := FoundIn a (printed b) ∨ FoundIn b (printed a)

/-- An entry is given by its identifier or by its name, not by both. -/
def AllowedTenant.OneSided (m : AllowedTenant) : Prop :=
  m.Name.expr = globalRegexp ∨ m.ID.expr = globalRegexp

/-- The tenant's own text, read as an expression, is found in what is printed of the entry. -/
def AllowedTenant.Strays (m : AllowedTenant) (tenantID tenantName : String) : Prop :=
  if m.Name.expr = globalRegexp then FoundIn tenantID m.ID.expr
  else FoundIn tenantName m.Name.expr

/-- The entry is given by a literal text. -/
def AllowedTenant.IsLiteral (m : AllowedTenant) : Prop :=
  m.Name.expr = globalRegexp ∧ isLiteral m.ID.expr = true ∨ isLiteral m.Name.expr = true

/-- The entry is given by a literal identifier of a length. -/
def AllowedTenant.HasLength (m : AllowedTenant) (n : ℕ) : Prop :=
  m.Name.expr = globalRegexp ∧ isLiteral m.ID.expr = true ∧ m.ID.expr.length = n

section Texts

variable {a b text : String}

omit [RegexpEngine] in
theorem isLiteral_of_textKind (h : textKind text = .literal) : isLiteral text = true := by
  rw [textKind] at h
  split at h
  · cases h
  · split at h
    · assumption
    · cases h

omit [RegexpEngine] in
theorem printed_of_ne (h : text ≠ "") : printed text = text := if_neg h

omit [RegexpEngine] in
theorem printed_of_any (h : textKind text = .any) : printed text = globalRegexp := by
  rw [textKind] at h
  split at h
  · next hany =>
    rcases hany with rfl | rfl <;> rfl
  · split at h <;> cases h

omit [RegexpEngine] in
theorem printed_of_kind {kind : TextKind} (h : textKind text = kind) (hkind : kind ≠ .any) :
    printed text = text := by
  refine printed_of_ne ?_
  rintro rfl
  exact hkind h.symm

theorem foundIn_of_any (h : textKind a = .any) : FoundIn a b := by
  rw [FoundIn, h]
  trivial

theorem foundIn_of_literal (h : textKind a = .literal) :
    FoundIn a b ↔ a.toList <:+: b.toList := by
  rw [FoundIn, h]

/-- Nothing is a text apart from any tenant. -/
theorem touch_of_any (h : textKind a = .any) : Touch a b := .inl (foundIn_of_any h)

/-- A literal text is found in another one of its length only if the two are the same. -/
theorem eq_of_foundIn (ha : textKind a = .literal) (hlength : a.length = b.length)
    (h : FoundIn a b) : a = b := by
  rw [← String.length_toList, ← String.length_toList] at hlength
  exact String.toList_inj.mp (((foundIn_of_literal ha).mp h).eq_of_length hlength)

/-- **Literal texts of one length** touch only if they are the same. -/
theorem eq_of_touch (ha : textKind a = .literal) (hb : textKind b = .literal)
    (hlength : a.length = b.length) (h : Touch a b) : a = b := by
  rw [Touch, printed_of_kind ha (by decide), printed_of_kind hb (by decide)] at h
  rcases h with h | h
  · exact eq_of_foundIn ha hlength h
  · exact (eq_of_foundIn hb hlength.symm h).symm

variable [LawfulRegexpEngine]

theorem syntaxError_globalRegexp : RegexpEngine.syntaxError globalRegexp = none :=
  LawfulRegexpEngine.anys_compiles 1

theorem syntaxError_printed :
    RegexpEngine.syntaxError (printed text) = none ↔ TextCompiles text := by
  rw [TextCompiles]
  cases hkind : textKind text with
  | any => simp [printed_of_any hkind, syntaxError_globalRegexp]
  | literal =>
    rw [printed_of_kind hkind (by decide)]
    simp [LawfulRegexpEngine.literal_compiles text (isLiteral_of_textKind hkind)]
  | pattern =>
    rw [printed_of_kind hkind (by decide)]
    simp

theorem search_printed : RegexpEngine.search (printed a) b = true ↔ FoundIn a b := by
  rw [FoundIn]
  cases hkind : textKind a with
  | any =>
    rw [printed_of_any hkind]
    exact iff_of_true (LawfulRegexpEngine.anys_search 1 b) trivial
  | literal =>
    rw [printed_of_kind hkind (by decide)]
    exact LawfulRegexpEngine.literal_search a b (isLiteral_of_textKind hkind)
  | pattern =>
    rw [printed_of_kind hkind (by decide)]

omit [RegexpEngine] [LawfulRegexpEngine] in
theorem anys_succ_ne_empty (n : ℕ) : anys (n + 1) ≠ "" := by
  intro h
  have hlength := congrArg String.length h
  rw [length_anys] at hlength
  simp at hlength

theorem textCompiles_anys (n : ℕ) : TextCompiles (anys (n + 1)) := by
  rw [← syntaxError_printed, printed_of_ne (anys_succ_ne_empty n)]
  exact LawfulRegexpEngine.anys_compiles (n + 1)

/-- A text of `.*` alone is found in every text, -/
theorem foundIn_anys (n : ℕ) : FoundIn (anys (n + 1)) b := by
  rw [← search_printed, printed_of_ne (anys_succ_ne_empty n)]
  exact LawfulRegexpEngine.anys_search (n + 1) b

/-- and no literal one in it. -/
theorem not_search_anys (h : isLiteral a = true) (n : ℕ) :
    RegexpEngine.search a (anys n) = false := by
  rw [← Bool.not_eq_true, LawfulRegexpEngine.literal_search a _ h, toList_anys]
  intro hinfix
  obtain ⟨hne, hmeta⟩ := Bool.and_eq_true_iff.mp h
  obtain ⟨c, cs, hcs⟩ := List.exists_cons_of_ne_nil fun hnil : a.toList = [] ↦
    (bne_iff_ne.mp hne) (String.toList_eq_nil_iff.mp hnil)
  have hc : c ∉ metaChars := by simpa using List.all_eq_true.mp hmeta c (by simp [hcs])
  have hmem : c ∈ (List.replicate n ['.', '*']).flatten :=
    hinfix.subset (hcs ▸ List.mem_cons_self)
  obtain ⟨pair, hpair, hmem⟩ := List.mem_flatten.mp hmem
  rw [List.eq_of_mem_replicate hpair] at hmem
  refine hc ?_
  rcases List.mem_pair.mp hmem with rfl | rfl <;> decide

/-- A literal entry does not admit a tenant of `.*` alone that has no name. -/
theorem AllowedTenant.IsLiteral.admits_anys {m : AllowedTenant} (h : m.IsLiteral) (n : ℕ) :
    m.admits (anys n) "" = false := by
  rw [AllowedTenant.admits]
  rcases h with ⟨hglobal, hID⟩ | hName
  · rw [if_pos hglobal, Regexp.matchString]
    exact not_search_anys hID n
  · have hne : m.Name.expr ≠ globalRegexp := by
      intro heq
      rw [heq] at hName
      exact absurd hName (by decide)
    rw [if_neg hne, Regexp.matchString]
    exact not_search_anys hName 0

/-- Among identifiers of one length a literal entry admits the tenant its text is found in. -/
theorem AllowedTenant.HasLength.admits_of_strays {m : AllowedTenant} {n : ℕ} (h : m.HasLength n)
    {tenantID tenantName : String} (hkind : textKind tenantID = .literal)
    (hlength : tenantID.length = n) (hstrays : m.Strays tenantID tenantName) :
    m.admits tenantID tenantName = true := by
  obtain ⟨hglobal, hliteral, hn⟩ := h
  rw [AllowedTenant.Strays, if_pos hglobal] at hstrays
  have heq := eq_of_foundIn hkind (hlength.trans hn.symm) hstrays
  have hinfix : m.ID.expr.toList <:+: tenantID.toList := heq ▸ List.infix_refl _
  rw [AllowedTenant.admits, if_pos hglobal, Regexp.matchString]
  exact (LawfulRegexpEngine.literal_search _ _ hliteral).mpr hinfix

omit [RegexpEngine] [LawfulRegexpEngine] in
/-- There are more texts of `.*` than a list can name. -/
theorem exists_anys_notMem (texts : List String) : ∃ n, anys (n + 1) ∉ texts := by
  obtain ⟨n, hn⟩ : ∃ n, ∀ text ∈ texts, text.length ≤ n := by
    induction texts with
    | nil => exact ⟨0, fun _ h ↦ absurd h List.not_mem_nil⟩
    | cons text texts ih =>
      obtain ⟨n, hn⟩ := ih
      refine ⟨max text.length n, List.forall_mem_cons.mpr ⟨le_max_left _ _, fun t ht ↦ ?_⟩⟩
      exact le_trans (hn t ht) (le_max_right _ _)
  refine ⟨n, fun hmem ↦ ?_⟩
  have hlength := hn _ hmem
  rw [length_anys] at hlength
  omega

/-- **What a text compiles to.** -/
theorem getRegexp_cases (text : String) :
    (TextCompiles text ∧ ∃ re, getRegexp text = .ok re ∧ re.expr = printed text) ∨
      (¬TextCompiles text ∧ (getRegexp text).toOption = none) := by
  rw [← syntaxError_printed, getRegexp, ← printed, Regexp.compile]
  split
  · next hcompiles => exact .inl ⟨hcompiles, _, rfl, rfl⟩
  · next hfails => exact .inr ⟨by simp [hfails], rfl⟩

theorem isSome_getRegexp : (getRegexp text).toOption.isSome = true ↔ TextCompiles text := by
  rcases getRegexp_cases text with ⟨hcompiles, re, hre, -⟩ | ⟨hfails, hnone⟩
  · simp [hre, hcompiles, Except.toOption]
  · simp [hnone, hfails]

/-- The expression of a text, where there is one. -/
theorem expr_of_getRegexp {re : Regexp} (h : (getRegexp text).toOption = some re) :
    re.expr = printed text := by
  rcases getRegexp_cases text with ⟨-, re', hre, hexpr⟩ | ⟨-, hnone⟩
  · rw [hre] at h
    rw [← Option.some.inj h, hexpr]
  · rw [hnone] at h
    cases h

theorem newTenantMatcher_compiled {tenantID tenantName : String} :
    (newTenantMatcher tenantID tenantName).Compiled ↔
      TextCompiles tenantID ∧ TextCompiles tenantName :=
  and_congr isSome_getRegexp isSome_getRegexp

/-- The test of two texts. -/
theorem twoSided_getRegexp (ha : TextCompiles a) (hb : TextCompiles b) :
    TenantMatcher.twoSided (getRegexp a).toOption (getRegexp b).toOption = true ↔ Touch a b := by
  obtain ⟨reA, hreA⟩ := Option.isSome_iff_exists.mp (isSome_getRegexp.mpr ha)
  obtain ⟨reB, hreB⟩ := Option.isSome_iff_exists.mp (isSome_getRegexp.mpr hb)
  rw [hreA, hreB, TenantMatcher.twoSided, Bool.or_eq_true, Regexp.matchString, Regexp.matchString,
    expr_of_getRegexp hreA, expr_of_getRegexp hreB, search_printed, search_printed, Touch]

/-- The test of two tenants: both texts touch. -/
theorem newTenantMatcher_equals {tenantID tenantName tenantID' tenantName' : String}
    (h : (newTenantMatcher tenantID tenantName).Compiled)
    (h' : (newTenantMatcher tenantID' tenantName').Compiled) :
    (newTenantMatcher tenantID tenantName).equals (newTenantMatcher tenantID' tenantName') = true ↔
      Touch tenantID tenantID' ∧ Touch tenantName tenantName' := by
  obtain ⟨hID, hName⟩ := newTenantMatcher_compiled.mp h
  obtain ⟨hID', hName'⟩ := newTenantMatcher_compiled.mp h'
  rw [TenantMatcher.equals, Bool.and_eq_true]
  exact and_congr (twoSided_getRegexp hID hID') (twoSided_getRegexp hName hName')

/-- The test of a text and an expression. -/
theorem twoSided_entry (ha : TextCompiles a) (re : Regexp) :
    TenantMatcher.twoSided (getRegexp a).toOption (some re) = true ↔
      FoundIn a re.expr ∨ re.matchString (printed a) = true := by
  obtain ⟨reA, hreA⟩ := Option.isSome_iff_exists.mp (isSome_getRegexp.mpr ha)
  rw [hreA, TenantMatcher.twoSided, Bool.or_eq_true, Regexp.matchString, expr_of_getRegexp hreA,
    search_printed]

theorem twoSided_global (ha : TextCompiles a) {re : Regexp} (hre : re.expr = globalRegexp) :
    TenantMatcher.twoSided (getRegexp a).toOption (some re) = true := by
  refine (twoSided_entry ha re).mpr (.inr ?_)
  rw [Regexp.matchString, hre]
  exact LawfulRegexpEngine.anys_search 1 _

/-- **The test of a tenant and an entry**: the entry admits the tenant, or the tenant's own text is
found in the entry. -/
theorem newTenantMatcher_equals_entry {m : AllowedTenant} (hm : m.OneSided)
    {tenantID tenantName : String} (hne : tenantID ≠ "")
    (h : (newTenantMatcher tenantID tenantName).Compiled) :
    (newTenantMatcher tenantID tenantName).equals m.matcher = true ↔
      m.admits tenantID tenantName = true ∨ m.Strays tenantID tenantName := by
  obtain ⟨hID, hName⟩ := newTenantMatcher_compiled.mp h
  have hequals : (newTenantMatcher tenantID tenantName).equals m.matcher = true ↔
      TenantMatcher.twoSided (getRegexp tenantID).toOption (some m.ID) = true ∧
        TenantMatcher.twoSided (getRegexp tenantName).toOption (some m.Name) = true := by
    rw [TenantMatcher.equals, Bool.and_eq_true]
    rfl
  rw [hequals, AllowedTenant.admits, AllowedTenant.Strays]
  by_cases hglobal : m.Name.expr = globalRegexp
  · rw [and_iff_left (twoSided_global hName hglobal), twoSided_entry hID, printed_of_ne hne,
      if_pos hglobal, if_pos hglobal, or_comm]
  · rw [and_iff_right (twoSided_global hID (hm.resolve_left hglobal)), twoSided_entry hName,
      if_neg hglobal, if_neg hglobal, or_comm]
    -- without a name the tenant touches every entry that is given by name
    by_cases hempty : tenantName = ""
    · subst hempty
      have hfound : FoundIn "" m.Name.expr := foundIn_of_any rfl
      exact iff_of_true (.inr hfound) (.inr hfound)
    · rw [printed_of_ne hempty]

end Texts

end Gohan
