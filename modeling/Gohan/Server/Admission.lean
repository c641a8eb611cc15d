import Gohan.Db.FilterMeaning
import Gohan.Schema.SameTenancy
import Gohan.Server.Noninterference

/-!
# Which requests a plural GET takes, and which rows it admits

What is asked of a request and of a row is said here in terms of the policy, of the query and of the
row, without the filters and predicates that the code makes on the way:

* a request is taken (`TakesRequest`) when its parameters are known, its sort key is a property, the
  columns to search in have a text, and the block of the policy can be entered;
* a row is admitted (`AdmitsRow`) when it is of the tenants and domains of the scope, when what is
  compiled of the block holds of it, and when it is asked for by the parameters the policy shows.

`listRequest_isOk_iff` and `selects_request_iff` say that the code decides the same.
-/

set_option autoImplicit false

namespace Gohan

open Kleene

/-! ## Compiled blocks -/

section Blocks

variable {s : Schema} {auth : Authorization}

theorem lookup_ofMatch (m : List (String × Value)) (key : String) :
    (FilterElem.ofMatch m).lookup key = (m.lookup key).map .value := by
  induction m with
  | nil => rfl
  | cons e m ih =>
    obtain ⟨k, v⟩ := e
    rw [FilterElem.ofMatch, List.map_cons, List.lookup_cons, List.lookup_cons, ← FilterElem.ofMatch,
      ih]
    cases key == k <;> rfl

/-- A match that can be entered into a query of the schema: it compares a property, or it is
`__bool__` with a boolean. -/
def MatchEntered (s : Schema) (m : List (String × Value)) : Prop :=
  m.lookup orCondition = none ∧ m.lookup andCondition = none ∧
    match m.lookup boolCondition with
    | some v => ∃ b, v = .bool b
    | none => ∃ key negated, m.lookup "property" = some (.str key) ∧
        s.hasPropertyID key = true ∧ m.lookup "type" = some (.str (matchType negated))

/-- What a match says of a row. -/
def matchMeaning (s : Schema) (m : List (String × Value)) : Meaning := fun E row ↦
  match m.lookup boolCondition with
  | some v => v = .bool true
  | none => MatchHolds E s row ((m.lookup "property").getD .nil).maybeString
      (((m.lookup "type").getD .nil).maybeString == "neq") ((m.lookup "value").getD .nil)

theorem reads_ofMatch {m : List (String × Value)} (h : MatchEntered s m) :
    Reads s (.ofMatch m) (matchMeaning s m) := by
  obtain ⟨hor, hand, h⟩ := h
  have hlookup := lookup_ofMatch m
  rw [Reads, partOf, hlookup, hor, hlookup, hand, hlookup]
  unfold matchMeaning
  cases hbool : m.lookup boolCondition with
  | some v =>
    rw [hbool] at h
    obtain ⟨b, rfl⟩ := h
    exact ⟨.expr b, rfl, fun E row ↦ by simp⟩
  | none =>
    rw [hbool] at h
    obtain ⟨key, negated, hkey, hhas, htype⟩ := h
    obtain ⟨p, hp, -, -⟩ := Schema.getPropertyByID_of_has hhas
    have htypeOf : s.typeOf key = p.type := by rw [Schema.typeOf, hp]
    have hvalue : restriction s (.ofMatch m) = comparison (.ofMatch m) key
        (parseBoolean p.type ((m.lookup "value").getD .nil)) := by
      simp only [restriction, propertyKey, hlookup, hkey, Option.map_some, bind, Except.bind, hp]
      cases m.lookup "value" <;> rfl
    simp only [Option.map_none, hvalue, comparison, hlookup, htype, hkey, Option.map_some,
      Option.getD_some]
    cases negated with
    | true =>
      exact ⟨.notEq key (parseBoolean p.type ((m.lookup "value").getD .nil)), rfl, fun E row ↦ by
        simp [Sqlizer.eval, MatchHolds, htypeOf, Value.maybeString, Value.string?, matchType]⟩
    | false =>
      exact ⟨.eq key (parseBoolean p.type ((m.lookup "value").getD .nil)), rfl, fun E row ↦ by
        simp [Sqlizer.eval, MatchHolds, htypeOf, Value.maybeString, Value.string?, matchType]⟩

theorem matchType_of_comparison {filter : FilterElem} {column : String} {value : Value}
    {part : Sqlizer} (h : comparison filter column value = .ok part) :
    ∃ negated, filter.lookup "type" = some (.value (.str (matchType negated))) := by
  rw [comparison] at h
  split at h
  · next comp hcomp =>
    split_ifs at h with heq hneq
    · exact ⟨false, by rw [hcomp, heq]; rfl⟩
    · exact ⟨true, by rw [hcomp, hneq]; rfl⟩
    · simp at h
  · simp at h

/-- Nothing else can be entered. -/
theorem matchEntered_of_partOf {m : List (String × Value)} {part : Sqlizer}
    (h : partOf s (.ofMatch m) = .ok part) : MatchEntered s m := by
  have hlookup := lookup_ofMatch m
  rw [partOf, hlookup, hlookup, hlookup] at h
  cases hor : m.lookup orCondition with
  | some v =>
    rw [hor] at h
    cases v <;> cases h
  | none =>
    cases hand : m.lookup andCondition with
    | some v =>
      rw [hor, hand] at h
      cases v <;> cases h
    | none =>
      rw [hor, hand] at h
      refine ⟨hor, hand, ?_⟩
      cases hbool : m.lookup boolCondition with
      | some v =>
        rw [hbool] at h
        cases v with
        | bool b => exact ⟨b, rfl⟩
        | _ => cases h
      | none =>
        rw [hbool] at h
        obtain ⟨key, hkey, hrestriction⟩ := Go.bind_eq_ok.mp h
        obtain ⟨property, hproperty, hvalue⟩ := Go.bind_eq_ok.mp hrestriction
        have hcomparison : ∃ v part, comparison (.ofMatch m) key v = .ok part := by
          split at hvalue
          · next text htext =>
            rw [hlookup] at htext
            obtain ⟨v, -, hv⟩ := Option.map_eq_some_iff.mp htext
            cases hv
          · exact ⟨_, _, hvalue⟩
          · simp at hvalue
          · exact ⟨_, _, hvalue⟩
        obtain ⟨v, part', hcomp⟩ := hcomparison
        obtain ⟨negated, htype⟩ := matchType_of_comparison hcomp
        have hstored {k : String} {w : Value}
            (hk : (FilterElem.ofMatch m).lookup k = some (.value w)) : m.lookup k = some w := by
          rw [hlookup] at hk
          obtain ⟨w', hw', heq⟩ := Option.map_eq_some_iff.mp hk
          rw [hw', FilterVal.value.inj heq]
        exact ⟨key, negated, hstored (propertyKey_eq_ok hkey), hasPropertyID_of_ok hproperty,
          hstored htype⟩

mutual
/-- The block can be entered: it asks for no tenancy, and neither do the blocks in its slots, and
all matches can be entered. -/
def ConditionFilter.Entered (s : Schema) : ConditionFilter → Prop
  | ⟨_, _, _, sameTenancy, matchList, orFilters, andFilters⟩ =>
    sameTenancy = false ∧ (∀ m ∈ matchList, MatchEntered s m) ∧ SlotEntered s andFilters ∧
      SlotEntered s orFilters

/-- The same of the block in a slot. -/
def SlotEntered (s : Schema) : Option ConditionFilter → Prop
  | none => True
  | some child => child.Entered s
end

/-- What members say together. -/
def combined : ConditionFilterType → List Meaning → Meaning
  | .andFilter, Ps => fun E row ↦ ∀ P ∈ Ps, P E row
  | .orFilter, Ps => fun E row ↦ ∃ P ∈ Ps, P E row

mutual
/-- What the members of a compiled block say of a row: its words, its matches, and the blocks in its
slots. -/
def ConditionFilter.members (s : Schema) (auth : Authorization) : ConditionFilter → List Meaning
  | ⟨_, isOwner, isDomainOwner, _, matchList, orFilters, andFilters⟩ =>
    (if isOwner then [fun E row ↦ Owned E s auth row] else []) ++
      (if isDomainOwner then [fun E row ↦ DomainOwned E s auth row] else []) ++
      matchList.map (matchMeaning s) ++ slotMembers s auth andFilters ++
      slotMembers s auth orFilters

/-- What the block in a slot says, if there is one. -/
def slotMembers (s : Schema) (auth : Authorization) : Option ConditionFilter → List Meaning
  | none => []
  | some child => [combined child.filterType (child.members s auth)]
end

theorem reads_combined {filterType : ConditionFilterType} {filters : List FilterElem}
    {Ps : List Meaning} (h : ReadsAll s filters Ps) :
    Reads s [(filterType.key, .elems filters)] (combined filterType Ps) := by
  cases filterType with
  | andFilter => exact reads_and h
  | orFilter => exact reads_or h

theorem ReadsAll.map {β : Type} {f : β → FilterElem} {P : β → Meaning} {bs : List β}
    (h : ∀ b ∈ bs, Reads s (f b) (P b)) : ReadsAll s (bs.map f) (bs.map P) := by
  induction bs with
  | nil => exact .nil
  | cons b bs ih =>
    rw [List.forall_mem_cons] at h
    exact .cons h.1 (ih h.2)

mutual
/-- **What a compiled block is expanded to** means what the block says. -/
theorem readsAll_expand : ∀ {cf : ConditionFilter}, cf.Entered s →
    ∃ filters, expand s auth none cf = .ok filters ∧ ReadsAll s filters (cf.members s auth)
  | ⟨filterType, isOwner, isDomainOwner, sameTenancy, matchList, orFilters, andFilters⟩, h => by
    obtain ⟨hsame, hmatches, hand, hor⟩ := h
    obtain ⟨ands, hands, hreadAnd⟩ := readsAll_expandSlot hand
    obtain ⟨ors, hors, hreadOr⟩ := readsAll_expandSlot hor
    subst hsame
    refine ⟨_, by simp only [expand, ownFilters, hands, hors, bind, Except.bind]; rfl, ?_⟩
    rw [ConditionFilter.members]
    refine List.rel_append (List.rel_append (List.rel_append ?_ (ReadsAll.map fun m hm ↦
      reads_ofMatch (hmatches m hm))) hreadAnd) hreadOr
    refine List.rel_append ?_ ?_
    · simp only [List.nil_append]
      split
      · exact .cons (reads_owner auth) .nil
      · exact .nil
    · split
      · exact .cons (reads_domainOwner auth) .nil
      · exact .nil

theorem readsAll_expandSlot : ∀ {slot : Option ConditionFilter}, SlotEntered s slot →
    ∃ filters, expandSlot s auth none slot = .ok filters ∧
      ReadsAll s filters (slotMembers s auth slot)
  | none, _ => ⟨[], by rw [expandSlot], .nil⟩
  | some child, h => by
    obtain ⟨filters, hexpand, hread⟩ := readsAll_expand h
    exact ⟨_, by rw [expandSlot, hexpand]; rfl, .cons (reads_combined hread) .nil⟩
end

/-- Filters are turned into predicates one by one. -/
theorem exists_partOf_of_addToFilter {filters : List FilterElem} {parts : List Sqlizer}
    (h : addToFilter s filters = .ok parts) :
    ∀ filter ∈ filters, ∃ part, partOf s filter = .ok part := by
  induction filters generalizing parts with
  | nil => exact fun _ hmem ↦ absurd hmem List.not_mem_nil
  | cons filter filters ih =>
    rw [addToFilter_cons] at h
    obtain ⟨part, hpart, hrest⟩ := Go.bind_eq_ok.mp h
    obtain ⟨rest, hrest, -⟩ := Go.map_eq_ok.mp hrest
    exact List.forall_mem_cons.mpr ⟨⟨part, hpart⟩, ih hrest⟩

theorem exists_addToFilter_of_partOf {filterType : ConditionFilterType} {filters : List FilterElem}
    {part : Sqlizer} (h : partOf s [(filterType.key, .elems filters)] = .ok part) :
    ∃ parts, addToFilter s filters = .ok parts := by
  cases filterType with
  | andFilter =>
    obtain ⟨parts, hparts, -⟩ := Go.map_eq_ok.mp ((partOf_and s filters).symm.trans h)
    exact ⟨parts, hparts⟩
  | orFilter =>
    obtain ⟨parts, hparts, -⟩ := Go.map_eq_ok.mp ((partOf_or s filters).symm.trans h)
    exact ⟨parts, hparts⟩

mutual
/-- A block that is expanded and turned into predicates can be entered. -/
theorem entered_of_expand : ∀ {cf : ConditionFilter} {filters : List FilterElem},
    expand s auth none cf = .ok filters → (∀ filter ∈ filters, ∃ part, partOf s filter = .ok part) →
      cf.Entered s
  | ⟨filterType, isOwner, isDomainOwner, sameTenancy, matchList, orFilters, andFilters⟩,
      filters, h, hparts => by
    rw [expand] at h
    obtain ⟨own, hown, hslots⟩ := Go.bind_eq_ok.mp h
    obtain ⟨ands, hands, hslots⟩ := Go.bind_eq_ok.mp hslots
    obtain ⟨ors, hors, hfilters⟩ := Go.bind_eq_ok.mp hslots
    obtain rfl := Except.ok.inj hfilters
    rw [List.forall_mem_append, List.forall_mem_append] at hparts
    obtain ⟨⟨hparts, hpartsAnd⟩, hpartsOr⟩ := hparts
    refine ⟨?_, fun m hm ↦ ?_, slotEntered_of_expandSlot hands hpartsAnd,
      slotEntered_of_expandSlot hors hpartsOr⟩
    · cases sameTenancy with
      | true => cases hown
      | false => rfl
    · cases sameTenancy with
      | true => cases hown
      | false =>
        obtain rfl := Except.ok.inj hown
        obtain ⟨part, hpart⟩ := hparts (.ofMatch m)
          (List.mem_append_right _ (List.mem_map.mpr ⟨m, hm, rfl⟩))
        exact matchEntered_of_partOf hpart

theorem slotEntered_of_expandSlot : ∀ {slot : Option ConditionFilter} {filters : List FilterElem},
    expandSlot s auth none slot = .ok filters →
      (∀ filter ∈ filters, ∃ part, partOf s filter = .ok part) → SlotEntered s slot
  | none, _, _, _ => trivial
  | some child, filters, h, hparts => by
    rw [expandSlot] at h
    obtain ⟨members, hexpand, hfilters⟩ := Go.bind_eq_ok.mp h
    obtain rfl := Except.ok.inj hfilters
    obtain ⟨part, hpart⟩ := hparts _ List.mem_cons_self
    obtain ⟨parts, hadd⟩ := exists_addToFilter_of_partOf hpart
    exact entered_of_expand hexpand (exists_partOf_of_addToFilter hadd)
end

variable [RegexpEngine] {policy : Policy}

/-- **The custom filter** means what the block of the policy says. -/
theorem reads_customFilter (h : SlotEntered s policy.currentResourceCondition.actionFilter) :
    ∃ c, customFilter policy s auth = .ok c ∧ Reads s c fun E row ↦
      ∀ P ∈ slotMembers s auth policy.currentResourceCondition.actionFilter, P E row := by
  rw [customFilter, ResourceCondition.addCustomFilters]
  cases hblock : policy.currentResourceCondition.actionFilter with
  | none => exact ⟨.true, rfl, reads_true.congr fun E row ↦ by simp [slotMembers]⟩
  | some block =>
    rw [hblock] at h
    obtain ⟨filters, hexpand, hread⟩ := @readsAll_expand s auth block h
    refine ⟨[(block.filterType.key, .elems filters)], ?_, ?_⟩
    · simp only [addCustomFilters, hexpand, bind, Except.bind]
      rfl
    · exact (reads_combined hread).congr fun E row ↦ by simp [slotMembers]

theorem slotEntered_of_customFilter {c : FilterElem} {part : Sqlizer}
    (h : customFilter policy s auth = .ok c) (hpart : partOf s c = .ok part) :
    SlotEntered s policy.currentResourceCondition.actionFilter := by
  rw [customFilter, ResourceCondition.addCustomFilters] at h
  cases hblock : policy.currentResourceCondition.actionFilter with
  | none => trivial
  | some block =>
    rw [hblock] at h
    obtain ⟨customFilters, hadd, hc⟩ := Go.bind_eq_ok.mp h
    obtain ⟨filters, hexpand, hinsert⟩ := Go.bind_eq_ok.mp hadd
    obtain rfl := Except.ok.inj hinsert
    obtain rfl := Except.ok.inj hc
    obtain ⟨parts, hparts⟩ := exists_addToFilter_of_partOf hpart
    exact entered_of_expand hexpand (exists_partOf_of_addToFilter hparts)

end Blocks

/-! ## The query -/

section Query

variable {s : Schema} {queryParameters : UrlQuery}

/-- The columns a text is searched for in. -/
def searchedColumns (s : Schema) (queryParameters : UrlQuery) : List String :=
  if s.isSubstringSearchEnabled then (queryParameters.lookup "search_field").getD [] else []

/-- The pattern of a column to search in, made from the first value of its parameter. -/
def searchPattern (queryParameters : UrlQuery) (key : String) : String :=
  "%" ++ escapeSpecialChars (queryParameters.getFirst key) ++ "%"

/-- The parameter of a column has one of its values. -/
def ParameterEquals (E : SqlEngine) (s : Schema) (queryParameters : UrlQuery) (row : Dict)
    (key : String) : Prop :=
  E.holdsEq (row.get key) (parseBoolean (s.typeOf key) (.strs (queryParameters.getSlice key))) = .tt

/-- A row has what the parameter of a column asks for: the text, where it is searched for, and else
one of the values. -/
def ParameterHolds (E : SqlEngine) (s : Schema) (queryParameters : UrlQuery) (row : Dict)
    (key : String) : Prop :=
  if key ∈ searchedColumns s queryParameters then
    E.like (row.get key) (searchPattern queryParameters key) = .tt
  else ParameterEquals E s queryParameters row key

/-- The columns the query has a parameter for. -/
def Asked (s : Schema) (queryParameters : UrlQuery) (key : String) : Prop :=
  key ∈ queryParameters ∧ s.hasPropertyID key = true

/-- The columns to search in have a text. -/
def SearchTexts (s : Schema) (queryParameters : UrlQuery) : Prop :=
  ∀ column ∈ searchedColumns s queryParameters,
    ∃ value values, queryParameters.lookup column = some (value :: values)

theorem addSearchFields_eq_ok {columns : List String} {filter filter' : GoMap FilterVal} :
    addSearchFields queryParameters columns filter = .ok filter' →
      (∀ column ∈ columns, ∃ value values, queryParameters.lookup column = some (value :: values)) ∧
      ∀ key, filter'.lookup key = if key ∈ columns then
        some (.search (searchPattern queryParameters key)) else filter.lookup key := by
  induction columns generalizing filter with
  | nil =>
    intro h
    obtain rfl := Except.ok.inj h
    exact ⟨fun _ hmem ↦ absurd hmem List.not_mem_nil, fun key ↦ (if_neg List.not_mem_nil).symm⟩
  | cons column columns ih =>
    intro h
    rw [addSearchFields] at h
    split at h
    · next value values hvalue =>
      obtain ⟨htexts, hlookup⟩ := ih h
      refine ⟨List.forall_mem_cons.mpr ⟨⟨value, values, hvalue⟩, htexts⟩, fun key ↦ ?_⟩
      rw [hlookup]
      by_cases hmem : key ∈ columns
      · rw [if_pos hmem, if_pos (List.mem_cons_of_mem _ hmem)]
      · rw [if_neg hmem]
        by_cases hkey : key = column
        · subst hkey
          rw [if_pos List.mem_cons_self, AList.lookup_insert, newSearchField, searchPattern,
            UrlQuery.getFirst, GoMap.getSlice, hvalue]
          rfl
        · rw [if_neg (by simp [hkey, hmem]), AList.lookup_insert_ne hkey]
    · exact absurd h (Go.panicf_ne_ok _ _ _)
    · exact absurd h (Go.errorf_ne_ok _ _ _)

theorem exists_addSearchFields {columns : List String} (filter : GoMap FilterVal)
    (h : ∀ column ∈ columns,
      ∃ value values, queryParameters.lookup column = some (value :: values)) :
    ∃ filter', addSearchFields queryParameters columns filter = .ok filter' := by
  induction columns generalizing filter with
  | nil => exact ⟨filter, rfl⟩
  | cons column columns ih =>
    obtain ⟨⟨value, values, hvalue⟩, hrest⟩ := List.forall_mem_cons.mp h
    rw [addSearchFields, hvalue]
    exact ih _ hrest

theorem modifySearchFields_eq (filter : GoMap FilterVal) :
    modifySearchFields s queryParameters filter =
      addSearchFields queryParameters (searchedColumns s queryParameters) filter := by
  rw [modifySearchFields, searchedColumns]
  cases queryParameters.lookup "search_field" with
  | none => cases s.isSubstringSearchEnabled <;> rfl
  | some columns => cases s.isSubstringSearchEnabled <;> rfl

theorem lookup_filterFromQueryParameter {key : String} {v : FilterVal} :
    (filterFromQueryParameter s queryParameters).lookup key = some v ↔
      Asked s queryParameters key ∧ v = .value (.strs (queryParameters.getSlice key)) := by
  rw [filterFromQueryParameter, GoMap.lookup_mapValues, GoMap.lookup_filterKeys, Asked,
    ← AList.lookup_isSome, GoMap.getSlice]
  cases queryParameters.lookup key with
  | none => simp
  | some values => cases s.hasPropertyID key <;> simp [eq_comm]

/-- The clause of the parameters alone. -/
theorem selects_filterFromQueryParameter {E : SqlEngine} {row : Dict} {clause : List Sqlizer}
    (h : addFilterToQuery s (filterFromQueryParameter s queryParameters) = .ok clause) :
    Selects E clause row ↔
      ∀ key, Asked s queryParameters key → ParameterEquals E s queryParameters row key := by
  have hlookup := @lookup_filterFromQueryParameter s queryParameters
  have hread : ∀ e ∈ (filterFromQueryParameter s queryParameters).toList, ∀ part,
      addKey s (filterFromQueryParameter s queryParameters) e.1 e.2 = .ok part →
        (part.eval E row = .tt ↔ ParameterEquals E s queryParameters row e.1) := by
    rintro ⟨key, v⟩ he part hpart
    obtain ⟨-, rfl⟩ := hlookup.mp (GoMap.mem_toList.mp he)
    rw [addKey] at hpart
    split_ifs at hpart with hor hand
    · cases hpart
    · cases hpart
    · split at hpart
      · next b hb =>
        obtain ⟨-, rfl⟩ := hlookup.mp hb
        cases hpart
      · obtain ⟨property, hproperty, hvalue⟩ := Go.bind_eq_ok.mp hpart
        obtain rfl := Except.ok.inj hvalue
        rw [Sqlizer.eval, ParameterEquals, typeOf_of_ok hproperty]
  rw [selects_addKeys hread h]
  constructor
  · intro hall key hasked
    exact hall (key, _) (GoMap.mem_toList.mpr (hlookup.mpr ⟨hasked, rfl⟩))
  · rintro hall ⟨key, v⟩ he
    exact hall key (hlookup.mp (GoMap.mem_toList.mp he)).1

theorem reads_search {key text : String} (h : s.hasPropertyID key = true) :
    Reads s (.eqTo key (.search text)) fun E row ↦ E.like (row.get key) text = .tt := by
  obtain ⟨p, hp, -, -⟩ := Schema.getPropertyByID_of_has h
  have hpart : partOf s (.eqTo key (.search text)) =
      s.getPropertyByID key >>= fun _ ↦ .ok (.like key text) := rfl
  exact ⟨.like key text, by rw [hpart, hp]; rfl, fun E row ↦ Iff.rfl⟩

theorem reads_values {key : String} (h : s.hasPropertyID key = true) :
    Reads s (.eqTo key (.value (.strs (queryParameters.getSlice key)))) fun E row ↦
      ParameterEquals E s queryParameters row key :=
  Reads.congr (@reads_match s key false (.strs (queryParameters.getSlice key)) h)
    fun _ _ ↦ Iff.rfl

/-- A column that a restriction is about is a property. -/
theorem hasPropertyID_of_partOf {key : String} {v : FilterVal} {part : Sqlizer}
    (h : partOf s (.eqTo key v) = .ok part) : s.hasPropertyID key = true := by
  have hrestriction : restriction s (.eqTo key v) = .ok part := h
  obtain ⟨key', hkey, hrest⟩ := Go.bind_eq_ok.mp hrestriction
  obtain ⟨property, hproperty, -⟩ := Go.bind_eq_ok.mp hrest
  obtain rfl := Except.ok.inj hkey
  exact hasPropertyID_of_ok hproperty

variable [RegexpEngine] {policy : Policy}

omit [RegexpEngine] in
/-- Each filter of a query is turned into a predicate. -/
theorem exists_partOf_of_applyAnyOfFilter {filter : GoMap FilterVal} {part : Sqlizer}
    (h : partOf s (applyAnyOfFilter filter queryParameters) = .ok part) :
    ∀ e ∈ filter.toList, ∃ part', partOf s (.eqTo e.1 e.2) = .ok part' := by
  rw [applyAnyOfFilter] at h
  cases hentries : filter.toList with
  | nil => exact fun _ hmem ↦ absurd hmem List.not_mem_nil
  | cons e entries =>
    rw [hentries] at h
    cases entries with
    | nil =>
      have hone : partOf s (.eqTo e.1 e.2) = .ok part := by split at h <;> exact h
      exact List.forall_mem_singleton.mpr ⟨part, hone⟩
    | cons e' entries =>
      have hmany : ∃ parts, addToFilter s
          ((e :: e' :: entries).map fun e ↦ FilterElem.eqTo e.1 e.2) = .ok parts := by
        split at h
        · obtain ⟨parts, hparts, -⟩ := Go.map_eq_ok.mp ((partOf_or s _).symm.trans h)
          exact ⟨parts, hparts⟩
        · obtain ⟨parts, hparts, -⟩ := Go.map_eq_ok.mp ((partOf_and s _).symm.trans h)
          exact ⟨parts, hparts⟩
      obtain ⟨parts, hparts⟩ := hmany
      exact fun e'' he ↦ exists_partOf_of_addToFilter hparts _ (List.mem_map.mpr ⟨e'', he, rfl⟩)

/-- The parameters the policy shows. -/
def Shown (s : Schema) (policy : Policy) (queryParameters : UrlQuery) (key : String) : Prop :=
  Asked s queryParameters key ∧ policy.resource.PropertiesFilter.validate key = true

/-- The row is asked for: it has what all parameters that the policy shows ask for, or with `any_of`
what one of them does. -/
def AskedFor (E : SqlEngine) (s : Schema) (policy : Policy) (queryParameters : UrlQuery)
    (row : Dict) : Prop :=
  if isAnyOf queryParameters then
    ∃ key, Shown s policy queryParameters key ∧ ParameterHolds E s queryParameters row key
  else ∀ key, Shown s policy queryParameters key → ParameterHolds E s queryParameters row key

/-- The columns to search in are properties, as far as the policy shows them. -/
def SearchKnown (s : Schema) (policy : Policy) (queryParameters : UrlQuery) : Prop :=
  ∀ column ∈ searchedColumns s queryParameters,
    policy.resource.PropertiesFilter.validate column = true → s.hasPropertyID column = true

/-- What the parameters and the search come to, as far as the policy shows it. -/
theorem mem_visible {filter : GoMap FilterVal}
    (h : modifySearchFields s queryParameters (filterFromQueryParameter s queryParameters) =
      .ok filter) {key : String} {v : FilterVal} :
    (key, v) ∈ (policy.removeHiddenProperty filter).toList ↔
      policy.resource.PropertiesFilter.validate key = true ∧
        if key ∈ searchedColumns s queryParameters then
          v = .search (searchPattern queryParameters key)
        else Asked s queryParameters key ∧
          v = .value (.strs (queryParameters.getSlice key)) := by
  rw [modifySearchFields_eq] at h
  rw [GoMap.mem_toList, Policy.removeHiddenProperty, PropertyFilter.removeHiddenKeysFromMap,
    GoMap.lookup_filterKeys, (addSearchFields_eq_ok h).2]
  cases policy.resource.PropertiesFilter.validate key with
  | false => simp
  | true =>
    rw [if_pos rfl, and_iff_right rfl]
    split
    · rw [Option.some_inj, eq_comm]
    · exact lookup_filterFromQueryParameter

/-- **The query of a plural GET** means what its parameters ask for. -/
theorem reads_queryFilter (htexts : SearchTexts s queryParameters)
    (hknown : SearchKnown s policy queryParameters) :
    ∃ p, queryFilter policy s queryParameters = .ok p ∧
      Reads s p fun E row ↦ AskedFor E s policy queryParameters row := by
  obtain ⟨filter, hfilter⟩ : ∃ filter, modifySearchFields s queryParameters
      (filterFromQueryParameter s queryParameters) = .ok filter := by
    rw [modifySearchFields_eq]
    exact exists_addSearchFields _ htexts
  have hmem := @mem_visible s queryParameters _ policy filter hfilter
  refine ⟨_, by rw [queryFilter, hfilter]; rfl, ?_⟩
  have hread : ReadsAll s
      ((policy.removeHiddenProperty filter).toList.map fun e ↦ FilterElem.eqTo e.1 e.2)
      ((policy.removeHiddenProperty filter).toList.map fun e E row ↦
        ParameterHolds E s queryParameters row e.1) := by
    refine .map fun e he ↦ ?_
    obtain ⟨key, v⟩ := e
    obtain ⟨hvisible, hv⟩ := hmem.mp he
    unfold ParameterHolds
    split at hv
    · next hsearched =>
      obtain rfl := hv
      simpa only [if_pos hsearched] using reads_search (hknown key hsearched hvisible)
    · next hsearched =>
      obtain ⟨hasked, rfl⟩ := hv
      simpa only [if_neg hsearched] using reads_values hasked.2
  have hshown : ∀ key, Shown s policy queryParameters key ↔
      ∃ v, (key, v) ∈ (policy.removeHiddenProperty filter).toList := by
    intro key
    simp only [hmem, exists_and_left, Shown, and_comm (a := Asked s queryParameters key)]
    refine and_congr_right fun hvisible ↦ ?_
    split
    · next hsearched =>
      obtain ⟨value, values, hvalue⟩ := htexts key hsearched
      refine iff_of_true ⟨?_, hknown key hsearched hvisible⟩ ⟨_, rfl⟩
      rw [← AList.lookup_isSome, hvalue]
      rfl
    · simp
  rw [applyAnyOfFilter]
  unfold AskedFor
  cases isAnyOf queryParameters with
  | true =>
    refine (reads_maybeEmptyOrFilter hread).congr fun E row ↦ ?_
    simp [hshown]
  | false =>
    refine (reads_maybeEmptyAndFilter hread).congr fun E row ↦ ?_
    simp only [List.forall_mem_map, hshown, forall_exists_index, Prod.forall, Bool.false_eq_true,
      if_false]

/-- A query that is turned into a predicate has texts to search for, in columns that are
properties. -/
theorem searchKnown_of_queryFilter {p : FilterElem} {part : Sqlizer}
    (h : queryFilter policy s queryParameters = .ok p) (hpart : partOf s p = .ok part) :
    SearchTexts s queryParameters ∧ SearchKnown s policy queryParameters := by
  obtain ⟨filter, hfilter, hp⟩ := Go.bind_eq_ok.mp h
  obtain rfl := Except.ok.inj hp
  have hmem := @mem_visible s queryParameters _ policy filter hfilter
  refine ⟨?_, fun column hsearched hvisible ↦ ?_⟩
  · rw [modifySearchFields_eq] at hfilter
    exact (addSearchFields_eq_ok hfilter).1
  · have he := hmem.mpr ⟨hvisible, (if_pos hsearched).mpr rfl⟩
    obtain ⟨part', hpart'⟩ := exists_partOf_of_applyAnyOfFilter hpart _ he
    exact hasPropertyID_of_partOf hpart'

end Query

/-! ## The request -/

section Request

variable [RegexpEngine] {D : Deployment} {s : Schema} {auth : Authorization} {policy : Policy}
  {queryParameters : UrlQuery} {E : SqlEngine} {row : Dict}

/-- A column that the scope restricts has one of the values, if the table has the column. -/
def InScope (E : SqlEngine) (s : Schema) (row : Dict) (key : String) (values : List String) :
    Prop :=
  s.hasPropertyID key = true → values ≠ [] →
    E.holdsEq (row.get key) (parseBoolean (s.typeOf key) (.strs values)) = .tt

/-- **The requests a plural GET takes**, from a caller with the policy. -/
structure TakesRequest (s : Schema) (policy : Policy) (queryParameters : UrlQuery) : Prop where
  /-- The parameters are about properties, or known otherwise. -/
  parameters : ∀ key ∈ queryParameters, s.hasPropertyID key = true ∨ key ∈ reservedParameters
  /-- The list is ordered by a property. -/
  sortKey : s.hasPropertyID (Paginator.sortKey queryParameters) = true
  sortOrder : Paginator.sortOrder queryParameters = "asc" ∨
    Paginator.sortOrder queryParameters = "desc"
  texts : SearchTexts s queryParameters
  known : SearchKnown s policy queryParameters
  /-- The block of the policy can be entered. -/
  block : SlotEntered s policy.currentResourceCondition.actionFilter

/-- **The rows a plural GET admits**, before the property conditions. -/
structure AdmitsRow (E : SqlEngine) (s : Schema) (auth : Authorization) (policy : Policy)
    (queryParameters : UrlQuery) (row : Dict) : Prop where
  domain : InScope E s row domainIDKey
    (policy.currentResourceCondition.getTenantAndDomainFilters actionRead auth).2
  tenant : InScope E s row tenantIDKey
    (policy.currentResourceCondition.getTenantAndDomainFilters actionRead auth).1
  block : ∀ P ∈ slotMembers s auth policy.currentResourceCondition.actionFilter, P E row
  asked : AskedFor E s policy queryParameters row

omit [RegexpEngine] in
theorem selects_restriction?_inScope {key : String} {values : List String} :
    Selects E (restriction? s key values) row ↔ InScope E s row key values := by
  rw [restriction?, InScope]
  cases hproperty : s.getPropertyByID key with
  | ok property =>
    have hhas := hasPropertyID_of_ok hproperty
    by_cases hvalues : values = []
    · simp [hvalues, Selects]
    · simp [hhas, hvalues, Selects, Sqlizer.eval, typeOf_of_ok hproperty]
  | error fault =>
    have hnone : s.hasPropertyID key = false := by
      rw [← Schema.isOk_getPropertyByID, hproperty]
      rfl
    simp [hnone, Selects]

omit [RegexpEngine] in
theorem verifyQueryParams_eq_ok : verifyQueryParams s queryParameters = .ok () ↔
    ∀ key ∈ queryParameters, s.hasPropertyID key = true ∨ key ∈ reservedParameters := by
  have hrest : verifyQueryParams s queryParameters = .ok () ↔
      (queryParameters.filterKeys fun key ↦
        !s.hasPropertyID key && !reservedParameters.contains key).entries = [] := by
    rw [verifyQueryParams]
    split <;> simp_all
  rw [hrest, GoMap.filterKeys, List.filter_eq_nil_iff]
  constructor
  · intro h key hkey
    obtain ⟨v, hv⟩ := Option.isSome_iff_exists.mp (AList.lookup_isSome.mpr hkey)
    have hunknown := h ⟨key, v⟩ (AList.mem_lookup_iff.mp hv)
    simpa [or_iff_not_imp_left] using hunknown
  · intro h e he
    have hkey : e.1 ∈ queryParameters := AList.mem_keys.mpr (List.mem_map.mpr ⟨e, he, rfl⟩)
    simpa [or_iff_not_imp_left] using h e.1 hkey

omit [RegexpEngine] in
theorem fromURLQuery_isOk_iff (hunpaged : Unpaged queryParameters) :
    (∃ pg, Paginator.fromURLQuery s queryParameters = .ok pg) ↔
      s.hasPropertyID (Paginator.sortKey queryParameters) = true ∧
        (Paginator.sortOrder queryParameters = "asc" ∨
          Paginator.sortOrder queryParameters = "desc") := by
  have hkey : Paginator.sortKey queryParameters ≠ "" := by
    rw [Paginator.sortKey]
    split <;> simp_all
  have horder : Paginator.sortOrder queryParameters ≠ "" := by
    rw [Paginator.sortOrder]
    split <;> simp_all
  simp only [Paginator.fromURLQuery, Paginator.parseLimit, Paginator.parseOffset, hunpaged.1,
    hunpaged.2, if_true, Go.ok_bind, Paginator.optionKey, Paginator.optionOrder]
  cases s.hasPropertyID (Paginator.sortKey queryParameters) with
  | false => simp [hkey, Go.bind_eq_ok]
  | true =>
    by_cases hasc : Paginator.sortOrder queryParameters = "asc"
    · simp [hasc]
    · by_cases hdesc : Paginator.sortOrder queryParameters = "desc"
      · simp [hdesc]
      · simp [hasc, hdesc, horder, Go.bind_eq_ok]

/-- **When a plural GET takes a request.** -/
theorem listRequest_isOk_iff {role : Role} {columns : Columns}
    (hpolicy : policyValidate actionRead s.getPluralURL auth D.policies = some (policy, role))
    (hcolumns : requestedColumns D s queryParameters = .ok columns)
    (hunpaged : Unpaged queryParameters) :
    (∃ r, listRequest D auth s queryParameters = .ok r) ↔
      TakesRequest s policy queryParameters := by
  have hload : loadPolicy D actionRead s.getPluralURL auth = .ok policy := by
    rw [loadPolicy, hpolicy]
  simp only [listRequest, hload, hcolumns, Go.ok_bind]
  constructor
  · rintro ⟨r, hr⟩
    obtain ⟨p, hp, hr⟩ := Go.bind_eq_ok.mp hr
    obtain ⟨c, hc, hr⟩ := Go.bind_eq_ok.mp hr
    obtain ⟨pg, hpg, hr⟩ := Go.bind_eq_ok.mp hr
    obtain ⟨⟨⟩, hverify, hr⟩ := Go.bind_eq_ok.mp hr
    obtain ⟨ab, hab, -⟩ := Go.bind_eq_ok.mp hr
    obtain ⟨a, ha, hab⟩ := Go.bind_eq_ok.mp hab
    obtain ⟨b, hb, -⟩ := Go.bind_eq_ok.mp hab
    obtain ⟨hkey, horder⟩ := (fromURLQuery_isOk_iff hunpaged).mp ⟨pg, hpg⟩
    obtain ⟨htexts, hknown⟩ := searchKnown_of_queryFilter hp ha
    exact ⟨verifyQueryParams_eq_ok.mp hverify, hkey, horder, htexts, hknown,
      slotEntered_of_customFilter hc hb⟩
  · intro h
    obtain ⟨p, hp, a, ha, -⟩ := reads_queryFilter h.texts h.known
    obtain ⟨c, hc, b, hb, -⟩ := @reads_customFilter s auth _ policy h.block
    obtain ⟨pg, hpg⟩ := (fromURLQuery_isOk_iff hunpaged).mpr ⟨h.sortKey, h.sortOrder⟩
    refine ⟨⟨policy, pg, columns, a, b⟩, ?_⟩
    rw [hp, hc, hpg, verifyQueryParams_eq_ok.mpr h.parameters]
    simp only [Go.ok_bind, bothParts, ha, hb]

theorem ListRequest.policy_eq {r : ListRequest} {role : Role}
    (hpolicy : policyValidate actionRead s.getPluralURL auth D.policies = some (policy, role))
    (hr : listRequest D auth s queryParameters = .ok r) : r.policy = policy := by
  have hload := (listRequest_eq_ok hr).1
  rw [loadPolicy, hpolicy] at hload
  exact (Except.ok.inj hload).symm

/-- **The rows the clause of a request selects** are the admitted ones. -/
theorem selects_request_iff {r : ListRequest} (hr : listRequest D auth s queryParameters = .ok r) :
    Selects E (r.scope s auth) row ∧ r.custom.eval E row = .tt ∧ r.query.eval E row = .tt ↔
      AdmitsRow E s auth r.policy queryParameters row := by
  obtain ⟨-, -, -, ⟨p, hp, ha⟩, c, hc, hb⟩ := listRequest_eq_ok hr
  obtain ⟨htexts, hknown⟩ := searchKnown_of_queryFilter hp ha
  obtain ⟨p', hp', a', ha', hquery⟩ := reads_queryFilter htexts hknown
  obtain rfl := Except.ok.inj (hp.symm.trans hp')
  obtain rfl := Except.ok.inj (ha.symm.trans ha')
  obtain ⟨c', hc', b', hb', hcustom⟩ :=
    @reads_customFilter s auth _ r.policy (slotEntered_of_customFilter hc hb)
  obtain rfl := Except.ok.inj (hc.symm.trans hc')
  obtain rfl := Except.ok.inj (hb.symm.trans hb')
  rw [ListRequest.scope, scopeClause, Selects, List.forall_mem_append, ← Selects, ← Selects,
    selects_restriction?_inScope, selects_restriction?_inScope, hcustom, hquery]
  exact ⟨fun h ↦ ⟨h.1.1, h.1.2, h.2.1, h.2.2⟩, fun h ↦ ⟨⟨h.domain, h.tenant⟩, h.block, h.asked⟩⟩

end Request

end Gohan
