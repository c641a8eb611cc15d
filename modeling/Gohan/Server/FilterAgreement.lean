import Gohan.Db.Fetch
import Gohan.Schema.SameTenancy
import Gohan.Server.Comparison
import Gohan.Server.CustomAction
import Gohan.Server.RowFilter

/-!
# The two interpreters of filters

The filter of a policy is run by the database, where it selects rows, and in memory, on a resource
that is to be created.  The row is the resource, with an absent property as NULL.

Both interpreters treat `and` and `or` alike, and there is no negation of filters, so they agree
wherever they agree about comparisons: `AlikeElem` is this agreement for a filter inside a list, and
`alike_expand` follows it through the blocks of a condition.  `policyFilters_alike_iff` says that
the filters policies can have are treated alike exactly when their comparisons are.
-/

set_option autoImplicit false

namespace Gohan

open Kleene

variable {E : SqlEngine} {s : Schema} {c : Comparison} {resource : Dict}

/-! ## Filters -/

section Alike

variable (E s resource) (P : Prop)

/-- Both interpreters come back from a filter of a list, and agree about it under a condition. -/
def AlikeElem (filter : FilterElem) : Prop :=
  ∃ b part, applyNestedFilter resource filter = .ok b ∧ partOf s filter = .ok part ∧
    (P → (b = true ↔ part.eval E resource = .tt))

/-- Both come back from every filter of a list, and agree about each. -/
def AlikeElems (filters : List FilterElem) : Prop :=
  ∃ bs parts, applyNestedFilters resource filters = bs.map .ok ∧
    addToFilter s filters = .ok parts ∧ (P → bs = truths E resource parts)

end Alike

variable {P : Prop}

theorem AlikeElems.of_forall {filters : List FilterElem}
    (h : ∀ filter ∈ filters, AlikeElem E s resource P filter) :
    AlikeElems E s resource P filters := by
  induction filters with
  | nil => exact ⟨[], [], rfl, rfl, fun _ ↦ rfl⟩
  | cons filter filters ih =>
    rw [List.forall_mem_cons] at h
    obtain ⟨⟨b, part, hb, hpart, hiff⟩, hrest⟩ := h
    obtain ⟨bs, parts, hbs, hparts, heq⟩ := ih hrest
    refine ⟨b :: bs, part :: parts, ?_, ?_, fun hP ↦ ?_⟩
    · rw [applyNestedFilters_eq_map, List.map_cons, List.map_cons, hb, ← hbs,
        applyNestedFilters_eq_map]
    · rw [addToFilter_cons, hpart, hparts]
      rfl
    · rw [heq hP, truths, truths, List.map_cons,
        ← Bool.eq_iff_iff.mpr ((hiff hP).trans beq_iff_eq.symm)]

theorem AlikeElem.and {filters : List FilterElem} (h : AlikeElems E s resource P filters) :
    AlikeElem E s resource P (.and filters) := by
  obtain ⟨bs, parts, hbs, hparts, heq⟩ := h
  refine ⟨bs.all id, .and parts, ?_, ?_, fun hP ↦ ?_⟩
  · have hstep : applyNestedFilter resource (.and filters) =
        allResults (applyNestedFilters resource filters) := rfl
    rw [hstep, hbs, allResults_ok]
  · rw [partOf_and, hparts]
    rfl
  · rw [eval_and_iff, heq hP]

theorem AlikeElem.or {filters : List FilterElem} (h : AlikeElems E s resource P filters) :
    AlikeElem E s resource P (.or filters) := by
  obtain ⟨bs, parts, hbs, hparts, heq⟩ := h
  refine ⟨bs.any id, .or parts, ?_, ?_, fun hP ↦ ?_⟩
  · have hstep : applyNestedFilter resource (.or filters) =
        anyResult (applyNestedFilters resource filters) := rfl
    rw [hstep, hbs, anyResult_ok]
  · rw [partOf_or, hparts]
    rfl
  · rw [eval_or_iff, heq hP]

theorem alikeElem_true : AlikeElem E s resource P .true :=
  ⟨true, .expr true, rfl, rfl, fun _ ↦ by simp⟩

theorem AlikeElem.comparison (hE : E.NullUnknown) (hproperty : s.hasPropertyID c.property = true)
    (hcomparable : c.Comparable resource) (hagrees : P → c.AgreesOn E s resource) :
    AlikeElem E s resource P (.ofMatch c.toMatch) :=
  ⟨c.inMemory resource, c.part s, Comparison.applyNestedFilter_of_comparable hcomparable,
    Comparison.partOf_toMatch hproperty, fun hP ↦ (Comparison.agreesOn_iff hE).mpr (hagrees hP)⟩

theorem AlikeElem.maybeEmptyAnd {filters : List FilterElem}
    (h : ∀ filter ∈ filters, AlikeElem E s resource P filter) :
    AlikeElem E s resource P (.maybeEmptyAndFilter filters) := by
  match filters, h with
  | [], _ => exact alikeElem_true
  | [filter], h => exact h filter List.mem_cons_self
  | _ :: _ :: _, h => exact .and (.of_forall h)

/-! ### Columns of strings -/

/-- A column of strings: the resource has a string there, or nothing. -/
structure StringColumn (s : Schema) (resource : Dict) (key : String) : Prop where
  type_ne : s.typeOf key ≠ "boolean"
  value : ∀ v, resource.lookup key = some v → v = .nil ∨ ∃ text, v = .str text

/-- The value is a string, or several. -/
def IsText (value : Value) : Prop :=
  (∃ text, value = .str text) ∨ ∃ texts, value = .strs texts

theorem comparands_of_isText {value : Value} (h : IsText value) :
    value ≠ .nil ∧ ∃ texts : List String, comparands value = texts.map .str := by
  rcases h with ⟨text, rfl⟩ | ⟨texts, rfl⟩
  · exact ⟨by simp, [text], rfl⟩
  · exact ⟨by simp, texts, rfl⟩

/-- Comparing a column of strings with strings does not panic. -/
theorem comparable_of_isText {key : String} (h : StringColumn s resource key) {value : Value}
    (hvalue : IsText value) : Comparison.Comparable ⟨key, false, value⟩ resource := by
  intro a ha
  obtain ⟨-, texts, htexts⟩ := comparands_of_isText hvalue
  rw [htexts]
  have hclash : ∀ text, a.clash (.str text) = false := by
    intro text
    rcases h.value a ha with rfl | ⟨t, rfl⟩ <;> rfl
  clear htexts
  induction texts with
  | nil => rfl
  | cons text texts ih =>
    rw [List.map_cons, comparableWith, hclash, ih]
    simp

/-- The interpreters agree about a column of strings and strings. -/
theorem agreesOn_of_isText (hE : E.ExactStrings) {key : String} (h : StringColumn s resource key)
    {value : Value} (hvalue : IsText value) :
    Comparison.AgreesOn E s resource ⟨key, false, value⟩ := by
  obtain ⟨hne, texts, htexts⟩ := comparands_of_isText hvalue
  have hcolumn : parseBoolean (s.typeOf key) value = value := by
    rcases hvalue with ⟨text, rfl⟩ | ⟨texts, rfl⟩
    · rfl
    · rw [parseBoolean, if_neg h.type_ne]
  simp only [Comparison.AgreesOn, hcolumn, htexts]
  cases hlookup : resource.lookup key with
  | none => simpa using hne
  | some a =>
    rcases h.value a hlookup with rfl | ⟨t, rfl⟩
    · simp
    · simp [hE.eq_str]

/-- The filter of a column of strings, inside a list. -/
theorem AlikeElem.text (hnull : E.NullUnknown) (hE : E.ExactStrings) {key : String}
    (hkey : s.hasPropertyID key = true) (h : StringColumn s resource key) {value : Value}
    (hvalue : IsText value) : AlikeElem E s resource P (.eq key value) :=
  AlikeElem.comparison (c := ⟨key, false, value⟩) hnull hkey (comparable_of_isText h hvalue)
    fun _ ↦ agreesOn_of_isText hE h hvalue

/-! ## The blocks of a condition -/

mutual
/-- Every match in a block is one of the comparisons. -/
def ConditionFilter.MatchesIn (M : Set Comparison) : ConditionFilter → Prop
  | ⟨_, _, _, _, matchList, orFilters, andFilters⟩ =>
    (∀ m ∈ matchList, ∃ c ∈ M, m = c.toMatch) ∧ slotMatchesIn M andFilters ∧
      slotMatchesIn M orFilters

/-- The same of the block in a slot. -/
def slotMatchesIn (M : Set Comparison) : Option ConditionFilter → Prop
  | none => True
  | some child => child.MatchesIn M
end

/-- The columns a scope restricts are columns of strings, if the schema has them. -/
def TextColumns (s : Schema) (resource : Dict) : Prop :=
  ∀ key ∈ ["id", tenantIDKey, domainIDKey], s.hasPropertyID key = true →
    StringColumn s resource key

/-- What the interpreters agree about the filters of policies by: how the database compares, the
columns of the scope, and the comparisons in the blocks. -/
structure AlikeSetting (E : SqlEngine) (s : Schema) (resource : Dict) (P : Prop)
    (M : Set Comparison) : Prop where
  null : E.NullUnknown
  strings : E.ExactStrings
  columns : TextColumns s resource
  known : ∀ c ∈ M, s.hasPropertyID c.property = true
  comparable : ∀ c ∈ M, c.Comparable resource
  agrees : P → ∀ c ∈ M, c.AgreesOn E s resource

variable {M : Set Comparison} {auth : Authorization}

theorem alike_getFilterByProperty (hset : AlikeSetting E s resource P M) {key : String}
    (hkey : key ∈ ["id", tenantIDKey, domainIDKey]) (text : String) :
    ∀ filter ∈ getFilterByPropertyIfPresent s key (.str text),
      AlikeElem E s resource P filter := by
  rw [getFilterByPropertyIfPresent]
  split_ifs with hhas
  · rw [List.forall_mem_singleton]
    exact .text hset.null hset.strings hhas (hset.columns key hkey hhas) (.inl ⟨text, rfl⟩)
  · exact fun filter hmem ↦ absurd hmem List.not_mem_nil

/-- The words and matches of a block. -/
theorem alike_ownFilters (hset : AlikeSetting E s resource P M) {cf : ConditionFilter}
    {filters : List FilterElem} (h : ownFilters s auth none cf = .ok filters)
    (hcf : ∀ m ∈ cf.matchList, ∃ c ∈ M, m = c.toMatch) :
    ∀ filter ∈ filters, AlikeElem E s resource P filter := by
  have htenant : ∀ filter ∈ auth.getTenantCustomFilter s, AlikeElem E s resource P filter := by
    cases auth with
    | tenantScoped _ _ _ => exact alike_getFilterByProperty hset (by simp) _
    | _ => exact fun filter hmem ↦ absurd hmem List.not_mem_nil
  have hdomain : ∀ filter ∈ auth.getDomainCustomFilter s, AlikeElem E s resource P filter := by
    cases auth with
    | admin _ _ _ => exact fun filter hmem ↦ absurd hmem List.not_mem_nil
    | _ => exact alike_getFilterByProperty hset (by simp) _
  rw [ownFilters] at h
  cases hsame : cf.sameTenancy with
  | true => simp [hsame, sameTenancyFilter, Go.bind_eq_ok] at h
  | false =>
    simp only [hsame, Bool.false_eq_true, if_false, Go.ok_bind, List.nil_append,
      Except.ok.injEq] at h
    subst h
    simp only [List.forall_mem_append, List.forall_mem_map]
    refine ⟨⟨?_, ?_⟩, fun m hm ↦ ?_⟩
    · split_ifs
      · rw [List.forall_mem_singleton]
        exact .maybeEmptyAnd (List.forall_mem_append.mpr ⟨htenant, hdomain⟩)
      · exact fun filter hmem ↦ absurd hmem List.not_mem_nil
    · split_ifs
      · rw [List.forall_mem_singleton]
        exact .maybeEmptyAnd hdomain
      · exact fun filter hmem ↦ absurd hmem List.not_mem_nil
    · obtain ⟨c, hc, rfl⟩ := hcf m hm
      exact .comparison hset.null (hset.known c hc) (hset.comparable c hc)
        fun hP ↦ hset.agrees hP c hc

/-- The filter of a block, under its key. -/
theorem AlikeElem.block {filterType : ConditionFilterType} {filters : List FilterElem}
    (h : ∀ filter ∈ filters, AlikeElem E s resource P filter) :
    AlikeElem E s resource P [(filterType.key, .elems filters)] := by
  cases filterType with
  | orFilter => exact .or (.of_forall h)
  | andFilter => exact .and (.of_forall h)

mutual
/-- **What a block is expanded to**, both interpreters treat alike. -/
theorem alike_expand (hset : AlikeSetting E s resource P M) :
    ∀ {cf : ConditionFilter} {filters : List FilterElem},
      expand s auth none cf = .ok filters → cf.MatchesIn M →
        ∀ filter ∈ filters, AlikeElem E s resource P filter
  | ⟨filterType, isOwner, isDomainOwner, sameTenancy, matchList, orFilters, andFilters⟩,
      filters, h, hcf => by
    rw [ConditionFilter.MatchesIn] at hcf
    simp only [expand, Go.bind_eq_ok] at h
    obtain ⟨own, hown, ands, hands, ors, hors, ⟨⟩⟩ := h
    simp only [List.forall_mem_append]
    exact ⟨⟨alike_ownFilters hset hown hcf.1, alike_expandSlot hset hands hcf.2.1⟩,
      alike_expandSlot hset hors hcf.2.2⟩

theorem alike_expandSlot (hset : AlikeSetting E s resource P M) :
    ∀ {slot : Option ConditionFilter} {filters : List FilterElem},
      expandSlot s auth none slot = .ok filters → slotMatchesIn M slot →
        ∀ filter ∈ filters, AlikeElem E s resource P filter
  | none, filters, h, _ => by
    rw [expandSlot] at h
    cases h
    exact fun filter hmem ↦ absurd hmem List.not_mem_nil
  | some child, filters, h, hslot => by
    rw [expandSlot, Go.bind_eq_ok] at h
    obtain ⟨expanded, hexpanded, ⟨⟩⟩ := h
    rw [slotMatchesIn] at hslot
    rw [List.forall_mem_singleton]
    exact .block (alike_expand hset hexpanded hslot)
end

/-! ## The filter of a policy -/

/-- An entry at the top is turned into the predicate of the filter it stands for. -/
theorem addKey_eq_partOf {filter : GoMap FilterVal} (hbool : filter.lookup boolCondition = none)
    {key : String} {value : FilterVal} (hkey : filter.lookup key = some value) :
    addKey s filter key value = partOf s (transformTopLevelFilterToNestedFilter key value) := by
  have hne : key ≠ boolCondition := by
    rintro rfl
    rw [hbool] at hkey
    cases hkey
  rw [addKey, transformTopLevelFilterToNestedFilter]
  by_cases hor : key = orCondition
  · subst hor
    rw [if_pos rfl, if_pos (by simp)]
    have hpart : partOf s [(orCondition, value)] = (addElems s value).map .or := rfl
    rw [hpart]
    cases addElems s value <;> rfl
  · by_cases hand : key = andCondition
    · subst hand
      rw [if_neg hor, if_pos rfl, if_pos (by simp)]
      have hpart : partOf s [(andCondition, value)] = (addElems s value).map .and := rfl
      rw [hpart]
      cases addElems s value <;> rfl
    · rw [if_neg hor, if_neg hand, if_neg (by simp [hor, hand, hne]), hbool]
      have hpart : partOf s (.eqTo key value) = restriction s (.eqTo key value) := rfl
      have hprop : propertyKey (.eqTo key value) = .ok key := rfl
      rw [hpart, restriction, hprop, Go.ok_bind]
      refine bind_congr fun property ↦ ?_
      cases value <;> rfl

/-- The loop over results that are all there. -/
theorem allResults_eq_ok {results : List (Go Bool)} (h : ∀ r ∈ results, ∃ b, r = .ok b) :
    ∃ b, allResults results = .ok b ∧ (b = true ↔ ∀ r ∈ results, r = .ok true) := by
  obtain ⟨bs, rfl⟩ : ∃ bs : List Bool, results = bs.map .ok := by
    induction results with
    | nil => exact ⟨[], rfl⟩
    | cons r results ih =>
      rw [List.forall_mem_cons] at h
      obtain ⟨⟨b, rfl⟩, hrest⟩ := h
      obtain ⟨bs, rfl⟩ := ih hrest
      exact ⟨b :: bs, rfl⟩
  refine ⟨bs.all id, allResults_ok bs, ?_⟩
  rw [List.forall_mem_map]
  simp

/-- The loop over entries each of which has a predicate. -/
theorem addKeys_eq_ok {filter : GoMap FilterVal} {entries : List (String × FilterVal)}
    (h : ∀ e ∈ entries, ∃ part, addKey s filter e.1 e.2 = .ok part) :
    ∃ clause, addKeys s filter entries = .ok clause := by
  induction entries with
  | nil => exact ⟨[], rfl⟩
  | cons e entries ih =>
    rw [List.forall_mem_cons] at h
    obtain ⟨⟨part, hpart⟩, hrest⟩ := h
    obtain ⟨clause, hclause⟩ := ih hrest
    exact ⟨part :: clause, by rw [addKeys, hpart, hclause]; rfl⟩

/-- The filter an entry at the top stands for. -/
abbrev nestedOf (e : String × FilterVal) : FilterElem :=
  transformTopLevelFilterToNestedFilter e.1 e.2

/-- In memory, a filter is the conjunction of its entries. -/
theorem applyFilterToResource_eq_ok {filter : GoMap FilterVal}
    (h : ∀ e ∈ filter.toList, ∃ b, applyNestedFilter resource (nestedOf e) = .ok b) :
    ∃ b, applyFilterToResource resource filter = .ok b ∧
      (b = true ↔ ∀ e ∈ filter.toList, applyNestedFilter resource (nestedOf e) = .ok true) := by
  have hresults : ∀ r ∈ filter.toList.map fun e ↦ applyTopLevelFilter resource e.1 e.2,
      ∃ b, r = .ok b := by
    rw [List.forall_mem_map]
    exact h
  obtain ⟨b, hb, hiff⟩ := allResults_eq_ok hresults
  rw [List.forall_mem_map] at hiff
  exact ⟨b, hb, hiff⟩

/-- In the query too. -/
theorem addFilterToQuery_eq_ok {filter : GoMap FilterVal}
    (hbool : filter.lookup boolCondition = none)
    (h : ∀ e ∈ filter.toList, ∃ part, partOf s (nestedOf e) = .ok part) :
    ∃ clause, addFilterToQuery s filter = .ok clause ∧
      (Selects E clause resource ↔ ∀ e ∈ filter.toList, ∀ part,
        partOf s (nestedOf e) = .ok part → part.eval E resource = .tt) := by
  have hkeys : ∀ e ∈ filter.toList, addKey s filter e.1 e.2 = partOf s (nestedOf e) :=
    fun e he ↦ addKey_eq_partOf hbool (lookup_of_mem_toList he)
  obtain ⟨clause, hclause⟩ := addKeys_eq_ok fun e he ↦ by
    rw [hkeys e he]
    exact h e he
  refine ⟨clause, hclause, selects_addKeys (fun e he part hpart ↦ ?_) hclause⟩
  rw [hkeys e he] at hpart
  exact ⟨fun heval part' hpart' ↦ by cases hpart.symm.trans hpart'; exact heval,
    fun hall ↦ hall part hpart⟩

/-- The interpreters come back from a filter and agree about it, in whatever orders they visit its
entries. -/
def AlikeFor (E : SqlEngine) (s : Schema) (resource : Dict) (filter : GoMap FilterVal) : Prop :=
  ∀ first second : GoMap FilterVal, first.entries.Perm filter.entries →
    second.entries.Perm filter.entries → ∃ b clause,
      applyFilterToResource resource first = .ok b ∧ addFilterToQuery s second = .ok clause ∧
        (b = true ↔ Selects E clause resource)

theorem forall_mem_toList_of_perm {filter filter' : GoMap FilterVal}
    (h : filter'.entries.Perm filter.entries) {Q : String × FilterVal → Prop} :
    (∀ e ∈ filter'.toList, Q e) ↔ ∀ e ∈ filter.toList, Q e := by
  have hmem : ∀ e, e ∈ filter'.toList ↔ e ∈ filter.toList := fun e ↦ (h.map _).mem_iff
  simp only [hmem]

/-- **Agreement about the entries is agreement about the filter**: about all of them, or about one
that does not hold. -/
theorem alikeFor_of_entries {filter : GoMap FilterVal} (hbool : filter.lookup boolCondition = none)
    (halike : ∀ e ∈ filter.toList, AlikeElem E s resource P (nestedOf e))
    (hP : P ∨ ∃ e ∈ filter.toList, AlikeElem E s resource True (nestedOf e) ∧
      applyNestedFilter resource (nestedOf e) = .ok false) :
    AlikeFor E s resource filter := by
  intro first second hfirst hsecond
  have hsecondBool : second.lookup boolCondition = none :=
    (AList.perm_lookup hsecond).trans hbool
  obtain ⟨b, hb, hbiff⟩ := applyFilterToResource_eq_ok
    ((forall_mem_toList_of_perm hfirst).mpr fun e he ↦ by
      obtain ⟨b, part, hb, -⟩ := halike e he
      exact ⟨b, hb⟩)
  obtain ⟨clause, hclause, hsel⟩ := @addFilterToQuery_eq_ok E s resource second hsecondBool
    ((forall_mem_toList_of_perm hsecond).mpr fun e he ↦ by
      obtain ⟨b, part, -, hpart, -⟩ := halike e he
      exact ⟨part, hpart⟩)
  refine ⟨b, clause, hb, hclause, ?_⟩
  rw [hbiff, hsel, forall_mem_toList_of_perm hfirst, forall_mem_toList_of_perm hsecond]
  rcases hP with hP | ⟨e, he, ⟨b', part, hb', hpart, hiff⟩, hfalse⟩
  · refine forall₂_congr fun e he ↦ ?_
    obtain ⟨b', part, hb', hpart, hiff⟩ := halike e he
    rw [hb', hpart]
    simp only [Except.ok.injEq, forall_eq', hiff hP]
  · obtain rfl : false = b' := by cases hfalse.symm.trans hb'; rfl
    constructor
    · intro hall
      cases hfalse.symm.trans (hall e he)
    · intro hall
      exact absurd ((hiff trivial).mpr (hall e he part hpart)) (by simp)

theorem lookup_restrictTo {key k : String} {values : List String} {filter : GoMap FilterVal}
    {v : FilterVal} (h : (restrictTo s key values filter).lookup k = some v) :
    filter.lookup k = some v ∨
      k = key ∧ s.hasPropertyID key = true ∧ v = .value (.strs values) := by
  rw [restrictTo] at h
  split_ifs at h with hcond
  · by_cases hk : k = key
    · subst hk
      rw [AList.lookup_insert] at h
      cases h
      exact .inr ⟨rfl, hcond.1, rfl⟩
    · rw [AList.lookup_insert_ne hk] at h
      exact .inl h
  · exact .inl h

theorem lookup_restrictTo_ne {key k : String} {values : List String} {filter : GoMap FilterVal}
    (hk : k ≠ key) : (restrictTo s key values filter).lookup k = filter.lookup k := by
  rw [restrictTo]
  split_ifs
  · rw [AList.lookup_insert_ne hk]
  · rfl

variable [RegexpEngine]

/-- The scope of an identifier asks for it. -/
theorem asksFor_scope {resourceID action : String} {rc : ResourceCondition} :
    AsksFor (extendFilterByTenantAndDomain s
      ((∅ : GoMap FilterVal).insert "id" (.value (.str resourceID))) action rc auth)
        resourceID where
  id := by
    rw [extendFilterByTenantAndDomain, lookup_restrictTo_ne (by decide),
      lookup_restrictTo_ne (by decide), AList.lookup_insert]
  bool := by
    rw [extendFilterByTenantAndDomain, lookup_restrictTo_ne (by decide),
      lookup_restrictTo_ne (by decide), AList.lookup_insert_ne (by decide), AList.lookup_empty]

/-- What a filter of a policy consists of. -/
structure PolicyFilter (s : Schema) (auth : Authorization) (resourceID : String)
    (rc : ResourceCondition) (filter : GoMap FilterVal) : Prop where
  id : filter.lookup "id" = some (.value (.str resourceID))
  bool : filter.lookup boolCondition = none
  entry : ∀ e ∈ filter.toList,
    (e.1 ∈ ["id", tenantIDKey, domainIDKey] ∧ (e.1 = "id" ∨ s.hasPropertyID e.1 = true) ∧
      ∃ value, e.2 = .value value ∧ IsText value) ∨
    ∃ block filters, rc.actionFilter = some block ∧ expand s auth none block = .ok filters ∧
      e = (block.filterType.key, .elems filters)

theorem policyFilter_of_getFilterFromPolicy {resourceID action : String} {policy : Policy}
    {filter : GoMap FilterVal}
    (h : getFilterFromPolicy auth resourceID s policy action = .ok filter) :
    PolicyFilter s auth resourceID policy.currentResourceCondition filter := by
  obtain ⟨scope, hscope⟩ : ∃ scope, scope = extendFilterByTenantAndDomain s
      ((∅ : GoMap FilterVal).insert "id" (.value (.str resourceID))) action
      policy.currentResourceCondition auth := ⟨_, rfl⟩
  obtain ⟨hid, hbool⟩ : AsksFor scope resourceID := hscope ▸ asksFor_scope
  have hentry : ∀ key v, scope.lookup key = some v → key ∈ ["id", tenantIDKey, domainIDKey] ∧
      (key = "id" ∨ s.hasPropertyID key = true) ∧ ∃ value, v = .value value ∧ IsText value := by
    intro key v hkey
    rw [hscope, extendFilterByTenantAndDomain] at hkey
    rcases lookup_restrictTo hkey with hkey | ⟨rfl, hhas, rfl⟩
    · rcases lookup_restrictTo hkey with hkey | ⟨rfl, hhas, rfl⟩
      · by_cases hk : key = "id"
        · subst hk
          rw [AList.lookup_insert] at hkey
          cases hkey
          exact ⟨by simp, .inl rfl, _, rfl, .inl ⟨_, rfl⟩⟩
        · rw [AList.lookup_insert_ne hk, AList.lookup_empty] at hkey
          cases hkey
      · exact ⟨by simp, .inr hhas, _, rfl, .inr ⟨_, rfl⟩⟩
    · exact ⟨by simp, .inr hhas, _, rfl, .inr ⟨_, rfl⟩⟩
  rw [getFilterFromPolicy, ResourceCondition.addCustomFilters, addCustomFilters.eq_def,
    ← hscope] at h
  split at h
  · cases h
    exact ⟨hid, hbool, fun e he ↦ .inl (hentry _ _ (lookup_of_mem_toList he))⟩
  · next block hblock =>
    obtain ⟨filters, hfilters, ⟨⟩⟩ := Go.bind_eq_ok.mp h
    have hkey : block.filterType.key ≠ "id" ∧ block.filterType.key ≠ boolCondition := by
      cases block.filterType <;> exact ⟨by decide, by decide⟩
    refine ⟨?_, ?_, fun e he ↦ ?_⟩
    · rw [AList.lookup_insert_ne hkey.1.symm, hid]
    · rw [AList.lookup_insert_ne hkey.2.symm, hbool]
    · have hlookup := lookup_of_mem_toList he
      by_cases hk : e.1 = block.filterType.key
      · rw [hk, AList.lookup_insert] at hlookup
        exact .inr ⟨block, filters, hblock, hfilters, Prod.ext hk (Option.some.inj hlookup).symm⟩
      · rw [AList.lookup_insert_ne hk] at hlookup
        exact .inl (hentry _ _ hlookup)

theorem asksFor_of_getFilterFromPolicy {resourceID action : String} {policy : Policy}
    {filter : GoMap FilterVal}
    (h : getFilterFromPolicy auth resourceID s policy action = .ok filter) :
    AsksFor filter resourceID :=
  ⟨(policyFilter_of_getFilterFromPolicy h).id, (policyFilter_of_getFilterFromPolicy h).bool⟩

/-- The entry of a filter of a policy. -/
theorem PolicyFilter.alike (hset : AlikeSetting E s resource P M)
    (hid : s.hasPropertyID "id" = true)
    {resourceID : String} {rc : ResourceCondition} (hrc : slotMatchesIn M rc.actionFilter)
    {filter : GoMap FilterVal} (h : PolicyFilter s auth resourceID rc filter) :
    ∀ e ∈ filter.toList, AlikeElem E s resource P (nestedOf e) := by
  intro e he
  rcases h.entry e he with ⟨hkey, hhas, value, hvalue, htext⟩ | ⟨block, filters, hblock, hexp, rfl⟩
  · have hproperty : s.hasPropertyID e.1 = true := by
      rcases hhas with h | h
      · rw [h, hid]
      · exact h
    have hnested : nestedOf e = .eq e.1 value := by
      obtain ⟨key, v⟩ := e
      obtain rfl : v = .value value := hvalue
      have hspecial : ¬ (key = boolCondition ∨ key = andCondition ∨ key = orCondition) := by
        simp only [List.mem_cons, List.not_mem_nil, or_false] at hkey
        rcases hkey with rfl | rfl | rfl <;> decide
      rw [nestedOf, transformTopLevelFilterToNestedFilter, if_neg hspecial]
      rfl
    rw [hnested]
    exact .text hset.null hset.strings hproperty (hset.columns e.1 hkey hproperty) htext
  · have hnested : nestedOf (block.filterType.key, .elems filters) =
        [(block.filterType.key, .elems filters)] := by
      cases block.filterType <;> rfl
    rw [hnested]
    rw [hblock] at hrc
    exact .block (alike_expand hset hexp hrc)

/-! ## Agreement -/

/-- The resource has its identifier. -/
def HasID (resource : Dict) : Prop := ∃ resourceID, resource.lookup "id" = some (.str resourceID)

/-- The interpreters agree about the filters of all policies whose matches are among some
comparisons.  The condition is all that a filter takes from a policy, which is otherwise fixed. -/
def PolicyFiltersAlike (E : SqlEngine) (s : Schema) (resource : Dict) (M : Set Comparison)
    (policy : Policy) : Prop :=
  ∀ conditions rc, newResourceCondition conditions policy.ID = .ok rc →
    slotMatchesIn M rc.actionFilter → ∀ auth resourceID action filter,
      getFilterFromPolicy auth resourceID s (policy.withCondition rc) action = .ok filter →
        AlikeFor E s resource filter

/-- A condition with one match. -/
def matchConditions (c : Comparison) : List Value :=
  [.map [("and", .list [.map [("match", .map c.toMatch)]])]]

/-- What it is compiled to. -/
def matchCondition (c : Comparison) : ResourceCondition where
  condition := matchConditions c
  actionFilter := some { filterType := .andFilter, matchList := [c.toMatch] }

theorem newResourceCondition_match (c : Comparison) (policyID : String) :
    newResourceCondition (matchConditions c) policyID = .ok (matchCondition c) := rfl

/-- Its filter, for a caller who sees every domain. -/
def matchFilter (c : Comparison) (resourceID : String) : GoMap FilterVal :=
  ((∅ : GoMap FilterVal).insert "id" (.value (.str resourceID))).insert andCondition
    (.elems [FilterElem.ofMatch c.toMatch])

theorem getFilterFromPolicy_match (c : Comparison) (resourceID action : String) (policy : Policy) :
    getFilterFromPolicy (.domainScoped ⟨"", ""⟩ []) resourceID s
      (policy.withCondition (matchCondition c)) action = .ok (matchFilter c resourceID) := by
  have hscope (filter : GoMap FilterVal) : extendFilterByTenantAndDomain s filter action
      (matchCondition c) (.domainScoped ⟨"", ""⟩ []) = filter := by
    have hnil (key : String) : restrictTo s key [] filter = filter := if_neg (by simp)
    have hempty : extendFilterByTenantAndDomain s filter action (matchCondition c)
        (.domainScoped ⟨"", ""⟩ []) =
          restrictTo s domainIDKey [] (restrictTo s tenantIDKey [] filter) := rfl
    rw [hempty, hnil, hnil]
  rw [getFilterFromPolicy]
  have hcond : (policy.withCondition (matchCondition c)).currentResourceCondition =
    matchCondition c := rfl
  rw [hcond, hscope]
  rfl

omit [RegexpEngine] in
/-- The entry of the identifier holds of the resource that has it. -/
theorem applyNestedFilter_id (hid : s.hasPropertyID "id" = true)
    (hcolumns : TextColumns s resource) (resourceID : String) :
    applyNestedFilter resource (nestedOf ("id", .value (.str resourceID))) =
      .ok (decide (resource.lookup "id" = some (.str resourceID))) := by
  have hcolumn := hcolumns "id" (by simp) hid
  have hcomparable := comparable_of_isText hcolumn (.inl ⟨resourceID, rfl⟩)
  have hmemory : Comparison.inMemory ⟨"id", false, .str resourceID⟩ resource =
      decide (resource.lookup "id" = some (.str resourceID)) := by
    rw [Comparison.inMemory]
    cases resource.lookup "id" with
    | none => rfl
    | some a => simp [comparands]
  rw [← hmemory, ← Comparison.applyNestedFilter_of_comparable hcomparable]
  rfl

omit [RegexpEngine] in
theorem applyNestedFilter_matches (c : Comparison) :
    applyNestedFilter resource (nestedOf (andCondition, .elems [FilterElem.ofMatch c.toMatch])) =
      allResults [applyNestedFilter resource (.ofMatch c.toMatch)] := by
  rw [← List.map_singleton (f := applyNestedFilter resource), ← applyNestedFilters_eq_map]
  rfl

omit [RegexpEngine] in
theorem comparable_of_alikeFor {resourceID : String}
    (h : AlikeFor E s resource (matchFilter c resourceID)) : c.Comparable resource := by
  obtain ⟨b, clause, hb, -, -⟩ := h _ _ (.refl _) (.refl _)
  have hlist : applyFilterToResource resource (matchFilter c resourceID) = allResults
      [applyNestedFilter resource (nestedOf (andCondition, .elems [FilterElem.ofMatch c.toMatch])),
        applyNestedFilter resource (nestedOf ("id", .value (.str resourceID)))] := rfl
  rw [hlist, applyNestedFilter_matches, allResults, Go.bind_eq_ok] at hb
  obtain ⟨r, hr, -⟩ := hb
  rw [allResults, Go.bind_eq_ok] at hr
  obtain ⟨r', hr', -⟩ := hr
  exact Comparison.comparable_of_applyNestedFilter hr'

omit [RegexpEngine] in
theorem agreesOn_of_alikeFor (hnull : E.NullUnknown) (hstrings : E.ExactStrings)
    (hid : s.hasPropertyID "id" = true) (hcolumns : TextColumns s resource)
    (hproperty : s.hasPropertyID c.property = true) {resourceID : String}
    (hresource : resource.lookup "id" = some (.str resourceID))
    (h : AlikeFor E s resource (matchFilter c resourceID)) : c.AgreesOn E s resource := by
  have hcomparable := comparable_of_alikeFor h
  obtain ⟨b, clause, hb, hclause, hiff⟩ := h _ _ (.refl _) (.refl _)
  have hentries : (matchFilter c resourceID).toList =
      [(andCondition, .elems [FilterElem.ofMatch c.toMatch]),
        ("id", .value (.str resourceID))] := rfl
  -- In memory, only the match is left to decide.
  have hmemory : b = c.inMemory resource := by
    have hlist : applyFilterToResource resource (matchFilter c resourceID) = allResults
        [applyNestedFilter resource
            (nestedOf (andCondition, .elems [FilterElem.ofMatch c.toMatch])),
          applyNestedFilter resource (nestedOf ("id", .value (.str resourceID)))] := rfl
    have hrun : ∀ r : Bool, allResults [allResults [.ok r], .ok true] = .ok r := by decide
    rw [hlist, applyNestedFilter_matches, Comparison.applyNestedFilter_of_comparable hcomparable,
      applyNestedFilter_id hid hcolumns, decide_eq_true hresource, hrun] at hb
    exact (Except.ok.inj hb).symm
  -- In the query too.
  have hand : partOf s (nestedOf (andCondition, .elems [FilterElem.ofMatch c.toMatch])) =
      .ok (.and [c.part s]) := by
    have hstep : partOf s (nestedOf (andCondition, .elems [FilterElem.ofMatch c.toMatch])) =
        partOf s (.and [.ofMatch c.toMatch]) := rfl
    rw [hstep, partOf_and, addToFilter_cons, Comparison.partOf_toMatch hproperty]
    rfl
  have hpartID : partOf s (nestedOf ("id", .value (.str resourceID))) =
      .ok (Comparison.part ⟨"id", false, .str resourceID⟩ s) :=
    Comparison.partOf_toMatch (c := ⟨"id", false, .str resourceID⟩) hid
  have hidTrue : (Comparison.part ⟨"id", false, .str resourceID⟩ s).eval E resource = .tt := by
    refine ((Comparison.agreesOn_iff hnull).mpr
      (agreesOn_of_isText hstrings (hcolumns "id" (by simp) hid) (.inl ⟨_, rfl⟩))).mp ?_
    simp [Comparison.inMemory, hresource, comparands]
  obtain ⟨clause', hclause', hsel⟩ := @addFilterToQuery_eq_ok E s resource
    (matchFilter c resourceID) rfl (by
      rw [hentries, List.forall_mem_cons, List.forall_mem_singleton]
      exact ⟨⟨_, hand⟩, _, hpartID⟩)
  obtain rfl : clause = clause' := Except.ok.inj (hclause.symm.trans hclause')
  rw [← Comparison.agreesOn_iff hnull, ← hmemory, hiff, hsel, hentries, List.forall_mem_cons,
    List.forall_mem_singleton, hand, hpartID]
  simp [hidTrue, eval_and]

/-- **When the interpreters agree.**  For every way the database compares values with NULL unknown
and strings exact, every schema, resource with columns of strings for the scope, and comparisons of
properties of the schema: both come back from every filter of a policy with matches among the
comparisons, in every order, and agree about it, exactly when no comparison panics and, for a
resource that has its identifier, the two agree about each. -/
theorem policyFilters_alike_iff (hnull : E.NullUnknown) (hstrings : E.ExactStrings)
    (hid : s.hasPropertyID "id" = true) (hcolumns : TextColumns s resource)
    (hM : ∀ c ∈ M, s.hasPropertyID c.property = true) (policy : Policy) :
    PolicyFiltersAlike E s resource M policy ↔
      (∀ c ∈ M, c.Comparable resource) ∧ (HasID resource → ∀ c ∈ M, c.AgreesOn E s resource) := by
  constructor
  · intro h
    have hmatch : ∀ c ∈ M, ∀ resourceID, AlikeFor E s resource (matchFilter c resourceID) := by
      intro c hc resourceID
      refine h _ _ (newResourceCondition_match c _) ?_ _ resourceID "" _
        (getFilterFromPolicy_match c resourceID "" policy)
      refine ⟨fun m hm ↦ ⟨c, hc, List.mem_singleton.mp hm⟩, trivial, trivial⟩
    refine ⟨fun c hc ↦ comparable_of_alikeFor (hmatch c hc ""), ?_⟩
    rintro ⟨resourceID, hresource⟩ c hc
    exact agreesOn_of_alikeFor hnull hstrings hid hcolumns (hM c hc) hresource
      (hmatch c hc resourceID)
  · rintro ⟨hcomparable, hagrees⟩ conditions rc - hrc auth resourceID action filter hfilter
    have hset : AlikeSetting E s resource (HasID resource) M :=
      ⟨hnull, hstrings, hcolumns, hM, hcomparable, hagrees⟩
    have hshape := policyFilter_of_getFilterFromPolicy hfilter
    refine alikeFor_of_entries hshape.bool (hshape.alike hset hid hrc) ?_
    by_cases hhas : HasID resource
    · exact .inl hhas
    · refine .inr ⟨("id", .value (.str resourceID)), mem_toList_of_lookup hshape.id, ?_, ?_⟩
      · exact .text hnull hstrings hid (hcolumns "id" (by simp) hid) (.inl ⟨_, rfl⟩)
      · rw [applyNestedFilter_id hid hcolumns]
        refine congrArg _ (decide_eq_false fun hlookup ↦ hhas ⟨resourceID, hlookup⟩)

/-- The state is not to be UP. -/
def notUp : Comparison := ⟨"state", true, .str "UP"⟩

/-- A server that has no state yet. -/
def stateless : Dict := GoMap.ofList [("id", .str "s1"), ("state", .nil)]

omit [RegexpEngine] in
theorem textColumns_stateless : TextColumns serverSchema stateless := by
  intro key hkey _
  simp only [List.mem_cons, List.not_mem_nil, or_false] at hkey
  rcases hkey with rfl | rfl | rfl
  · exact ⟨by decide, fun v hv ↦ .inr ⟨"s1", (Option.some.inj hv).symm⟩⟩
  · exact ⟨by decide, fun v hv ↦ by cases hv⟩
  · exact ⟨by decide, fun v hv ↦ by cases hv⟩

omit [RegexpEngine] in
/-- The filters about this state, on this server. -/
theorem policyFilters_alike_notUp : letI := Re2.engine
    ∃ policy, newPolicy (blockPolicy [.str "is_owner"]) = .ok policy ∧
      (PolicyFiltersAlike exactEngine serverSchema stateless {notUp} policy ↔
        (∀ c ∈ ({notUp} : Set Comparison), c.Comparable stateless) ∧
          (HasID stateless → ∀ c ∈ ({notUp} : Set Comparison),
            c.AgreesOn exactEngine serverSchema stateless)) := by
  let _ := Re2.engine
  refine ⟨_, rfl, policyFilters_alike_iff nullUnknown_exactEngine exactStrings_exactEngine
    (by decide) textColumns_stateless ?_ _⟩
  rintro c rfl
  decide

omit [RegexpEngine] in
/-- In memory a null is not UP; the database does not select it. -/
theorem not_policyFilters_alike : letI := Re2.engine
    ∃ policy, newPolicy (blockPolicy [.map [("match", .map notUp.toMatch)]]) = .ok policy ∧
      ∃ filter, getFilterFromPolicy member "s1" serverSchema policy actionCreate = .ok filter ∧
        applyFilterToResource stateless filter = .ok true ∧
        ∃ clause, addFilterToQuery serverSchema filter = .ok clause ∧
          ¬ Selects exactEngine clause stateless := by
  let _ := Re2.engine
  exact ⟨_, rfl, _, rfl, rfl, _, rfl, by decide⟩

end Gohan
