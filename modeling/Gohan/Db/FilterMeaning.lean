import Gohan.Db.Custom

/-!
# What a filter says, and what is kept of it

A filter is a map, and a map is a conjunction: each of its entries is to hold.  The same goes for a
map inside `__and__` or `__or__`, where the entries under `property`, `type` and `value` are one
restriction together.  `FilterHolds` is this reading.

The query keeps less.  Of a map inside a list the walker reads one kind of entry, the first of
`__or__`, `__and__`, `__bool__` and the restriction that it finds; a text to search for is searched
for, whatever the type of the restriction.  At the top, where the loop goes over the entries, the
branch for `__bool__` looks at the map instead of the entry: with a `__bool__` in the map, that is
what every entry for a property becomes.  `keptFilter` writes down the filter that is left.

`addFilterToQuery_means_kept` is the loop: the clause says what is kept, in any order of the map.
`filter_denotes_iff` compares that with what is written.
-/

set_option autoImplicit false

namespace Gohan

open Kleene

/-! ## What is written -/

section Meaning

variable (E : SqlEngine) (s : Schema) (row : Dict)

/-- A column of the schema has the value or contains the text, or with `neq` it does not. -/
def propertyHolds (key comp : String) (value : FilterVal) : Bool :=
  s.hasPropertyID key &&
    match value with
    | .search text =>
      if comp = "eq" then E.like (row.get key) text == .tt
      else comp == "neq" && (E.like (row.get key) text).not == .tt
    | .value value =>
      if comp = "eq" then E.holdsEq (row.get key) (parseBoolean (s.typeOf key) value) == .tt
      else comp == "neq" && E.holdsNotEq (row.get key) (parseBoolean (s.typeOf key) value) == .tt
    | .elems _ => false

/-- The type of a restriction. -/
def compOf (filter : FilterElem) : String :=
  match filter.lookup "type" with
  | some (.value (.str comp)) => comp
  | _ => ""

/-- The restriction in a map holds, if there is one. -/
def restrictionHolds (filter : FilterElem) : Bool :=
  match filter.lookup "property" with
  | none => true
  | some (.value (.str key)) =>
    propertyHolds E s row key (compOf filter) ((filter.lookup "value").getD (.value .nil))
  | some _ => false

/-- What stands under `__bool__` is true. -/
def boolHolds : FilterVal → Bool
  | .value (.bool b) => b
  | _ => false

mutual
/-- Which filters of a list hold: those that do in each of their entries. -/
def elemsHold : List FilterElem → List Bool
  | [] => []
  | filter :: filters =>
    ((membersUnder orCondition filter).all (fun members ↦ members.any (·.any id)) &&
      (membersUnder andCondition filter).all (fun members ↦ members.any (·.all id)) &&
      (filter.lookup boolCondition).all boolHolds && restrictionHolds E s row filter) ::
        elemsHold filters

/-- Which members hold of the list under a key of a map, if the key is there. -/
def membersUnder (key : String) : FilterElem → Option (Option (List Bool))
  | [] => none
  | (k, v) :: filter => if key == k then some (membersHold v) else membersUnder key filter

/-- Which members hold of what stands under a key, if it is a list. -/
def membersHold : FilterVal → Option (List Bool)
  | .elems filters => some (elemsHold filters)
  | _ => none
end

/-- An entry of a filter holds. -/
def entryHolds (key : String) (value : FilterVal) : Bool :=
  if key = orCondition then (membersHold E s row value).any (·.any id)
  else if key = andCondition then (membersHold E s row value).any (·.all id)
  else if key = boolCondition then boolHolds value
  else propertyHolds E s row key "eq" value

/-- **A filter holds of a row**: each of its entries does. -/
def FilterHolds (filter : GoMap FilterVal) : Prop :=
  ∀ e ∈ filter.toList, entryHolds E s row e.1 e.2 = true

instance (filter : GoMap FilterVal) : Decidable (FilterHolds E s row filter) :=
  inferInstanceAs (Decidable (∀ e ∈ filter.toList, _))

end Meaning

/-! ## What is kept -/

/-- A text is searched for, whatever the type. -/
def keptRestriction (filter : FilterElem) : FilterElem :=
  match filter.lookup "value" with
  | some (.search _) => ("type", .value (.str "eq")) :: filter
  | _ => filter

mutual
/-- Of each map in a list, the kind of entry that is looked for first. -/
def keptElems : List FilterElem → List FilterElem
  | [] => []
  | filter :: filters =>
    (match keptUnder orCondition filter with
      | some v => [(orCondition, v)]
      | none =>
        match keptUnder andCondition filter with
        | some v => [(andCondition, v)]
        | none =>
          match filter.lookup boolCondition with
          | some b => [(boolCondition, b)]
          | none => keptRestriction filter) :: keptElems filters

/-- What is kept under a key of a map, if the key is there. -/
def keptUnder (key : String) : FilterElem → Option FilterVal
  | [] => none
  | (k, v) :: filter => if key == k then some (keptVal v) else keptUnder key filter

/-- What is kept of what stands under a key. -/
def keptVal : FilterVal → FilterVal
  | .elems filters => .elems (keptElems filters)
  | value => value
end

/-- The entries that are kept at the top: with a `__bool__`, none for a property. -/
def isKeptKey (filter : GoMap FilterVal) (key : String) : Bool :=
  key == orCondition || key == andCondition || key == boolCondition ||
    (filter.lookup boolCondition).isNone

/-- **What the query keeps of a filter.** -/
def keptFilter (filter : GoMap FilterVal) : GoMap FilterVal :=
  (filter.filterKeys (isKeptKey filter)).mapValues keptVal

/-! ## The clause says what is kept -/

variable {E : SqlEngine} {s : Schema} {row : Dict}

/-- Which predicates are true of a row. -/
def truths (E : SqlEngine) (row : Dict) (parts : List Sqlizer) : List Bool :=
  parts.map fun part ↦ part.eval E row == .tt

theorem eval_or_iff {parts : List Sqlizer} :
    (Sqlizer.or parts).eval E row = .tt ↔ (truths E row parts).any id = true := by
  simp [eval_or, truths]

theorem eval_and_iff {parts : List Sqlizer} :
    (Sqlizer.and parts).eval E row = .tt ↔ (truths E row parts).all id = true := by
  simp [eval_and, truths]

theorem eval_boolExpr {b : FilterVal} {part : Sqlizer} (h : boolExpr b = .ok part) :
    part.eval E row = .tt ↔ boolHolds b = true := by
  rw [boolExpr.eq_def] at h
  split at h
  · cases h
    rw [eval_expr, boolHolds]
  · simp at h

theorem propertyKey_eq_ok {filter : FilterElem} {key : String} (h : propertyKey filter = .ok key) :
    filter.lookup "property" = some (.value (.str key)) := by
  rw [propertyKey] at h
  split at h
  · next hkey =>
    cases h
    exact hkey
  · simp at h

theorem hasPropertyID_of_ok {key : String} {property : Property}
    (h : s.getPropertyByID key = .ok property) : s.hasPropertyID key = true := by
  rw [← Schema.isOk_getPropertyByID, h]
  rfl

theorem typeOf_of_ok {key : String} {property : Property}
    (h : s.getPropertyByID key = .ok property) : s.typeOf key = property.type := by
  rw [Schema.typeOf, h]

/-- The comparison of a column with a value says what is written. -/
theorem eval_comparison {filter : FilterElem} {key : String} {property : Property} {value : Value}
    {part : Sqlizer} (hproperty : s.getPropertyByID key = .ok property)
    (h : comparison filter key (parseBoolean property.type value) = .ok part) :
    part.eval E row = .tt ↔ propertyHolds E s row key (compOf filter) (.value value) = true := by
  rw [comparison] at h
  split at h
  · next comp hcomp =>
    rw [propertyHolds, hasPropertyID_of_ok hproperty, typeOf_of_ok hproperty, compOf, hcomp]
    split_ifs at h with heq hneq
    · cases h
      simp [Sqlizer.eval, heq]
    · cases h
      simp [Sqlizer.eval, hneq]
    · simp at h
  · simp at h

/-- The restriction in a map says what is kept of it. -/
theorem eval_restriction {filter : FilterElem} {part : Sqlizer}
    (h : restriction s filter = .ok part) :
    part.eval E row = .tt ↔ restrictionHolds E s row (keptRestriction filter) = true := by
  simp only [restriction, Go.bind_eq_ok] at h
  obtain ⟨key, hkey, property, hproperty, h⟩ := h
  have hlookup := propertyKey_eq_ok hkey
  rw [keptRestriction]
  split at h
  · next text htext =>
    cases h
    have htype : compOf (("type", .value (.str "eq")) :: filter) = "eq" := rfl
    have hkept {k : String} (hk : (k == "type") = false) :
        (("type", .value (.str "eq")) :: filter : FilterElem).lookup k = filter.lookup k := by
      rw [List.lookup_cons, hk]
    simp only [htext, restrictionHolds, hkept (k := "property") rfl, hkept (k := "value") rfl,
      hlookup, htype]
    simp [propertyHolds, hasPropertyID_of_ok hproperty, Sqlizer.eval]
  · next value hvalue =>
    simp [hvalue, restrictionHolds, hlookup, eval_comparison hproperty h]
  · simp at h
  · next hnone =>
    have hnil : parseBoolean property.type .nil = .nil := rfl
    rw [← hnil] at h
    simp [hnone, restrictionHolds, hlookup, eval_comparison hproperty h]

theorem membersUnder_eq (key : String) (filter : FilterElem) :
    membersUnder E s row key filter = (filter.lookup key).map (membersHold E s row) := by
  induction filter with
  | nil => rfl
  | cons e filter ih =>
    obtain ⟨k, v⟩ := e
    rw [membersUnder, List.lookup_cons, ih]
    cases key == k <;> rfl

theorem keptUnder_eq (key : String) (filter : FilterElem) :
    keptUnder key filter = (filter.lookup key).map keptVal := by
  induction filter with
  | nil => rfl
  | cons e filter ih =>
    obtain ⟨k, v⟩ := e
    rw [keptUnder, List.lookup_cons, ih]
    cases key == k <;> rfl

/-- What is kept of one map in a list. -/
def keptElem (filter : FilterElem) : FilterElem :=
  match filter.lookup orCondition with
  | some v => [(orCondition, keptVal v)]
  | none =>
    match filter.lookup andCondition with
    | some v => [(andCondition, keptVal v)]
    | none =>
      match filter.lookup boolCondition with
      | some b => [(boolCondition, b)]
      | none => keptRestriction filter

theorem keptElems_cons (filter : FilterElem) (filters : List FilterElem) :
    keptElems (filter :: filters) = keptElem filter :: keptElems filters := by
  rw [keptElems, keptElem, keptUnder_eq, keptUnder_eq]
  cases filter.lookup orCondition with
  | some v => rfl
  | none => cases filter.lookup andCondition <;> rfl

/-- A map in a list holds. -/
def elemHolds (E : SqlEngine) (s : Schema) (row : Dict) (filter : FilterElem) : Bool :=
  (filter.lookup orCondition).all (fun v ↦ (membersHold E s row v).any (·.any id)) &&
    (filter.lookup andCondition).all (fun v ↦ (membersHold E s row v).any (·.all id)) &&
    (filter.lookup boolCondition).all boolHolds && restrictionHolds E s row filter

theorem elemsHold_cons (filter : FilterElem) (filters : List FilterElem) :
    elemsHold E s row (filter :: filters) =
      elemHolds E s row filter :: elemsHold E s row filters := by
  rw [elemsHold, elemHolds, membersUnder_eq, membersUnder_eq, Option.all_map, Option.all_map]

theorem elemHolds_or (v : FilterVal) :
    elemHolds E s row [(orCondition, v)] = (membersHold E s row v).any (·.any id) := by
  have hrest : elemHolds E s row [(orCondition, v)] =
      ((membersHold E s row v).any (·.any id) && true && true && true) := rfl
  rw [hrest, Bool.and_true, Bool.and_true, Bool.and_true]

theorem elemHolds_and (v : FilterVal) :
    elemHolds E s row [(andCondition, v)] = (membersHold E s row v).any (·.all id) := by
  have hrest : elemHolds E s row [(andCondition, v)] =
      (true && (membersHold E s row v).any (·.all id) && true && true) := rfl
  rw [hrest, Bool.true_and, Bool.and_true, Bool.and_true]

theorem elemHolds_bool (b : FilterVal) : elemHolds E s row [(boolCondition, b)] = boolHolds b := by
  have hrest : elemHolds E s row [(boolCondition, b)] = (boolHolds b && true) := rfl
  rw [hrest, Bool.and_true]

theorem lookup_keptRestriction {key : String} (hkey : (key == "type") = false)
    (filter : FilterElem) : (keptRestriction filter).lookup key = filter.lookup key := by
  rw [keptRestriction]
  split
  · rw [List.lookup_cons, hkey]
  · rfl

/-- Without the special keys, what is kept of a map is a restriction. -/
theorem elemHolds_restriction {filter : FilterElem} (hor : filter.lookup orCondition = none)
    (hand : filter.lookup andCondition = none) (hbool : filter.lookup boolCondition = none) :
    elemHolds E s row (keptRestriction filter) =
      restrictionHolds E s row (keptRestriction filter) := by
  rw [elemHolds, lookup_keptRestriction (by decide), lookup_keptRestriction (by decide),
    lookup_keptRestriction (by decide), hor, hand, hbool]
  simp

mutual
/-- **Inside a list**, the predicates are true of a row where what is kept of the filters holds. -/
theorem truths_addToFilter : ∀ {filters : List FilterElem} {parts : List Sqlizer},
    addToFilter s filters = .ok parts →
      truths E row parts = elemsHold E s row (keptElems filters)
  | [], parts, h => by
    rw [addToFilter] at h
    cases h
    rfl
  | filter :: filters, parts, h => by
    rw [addToFilter_cons, Go.bind_eq_ok] at h
    obtain ⟨part, hpart, h⟩ := h
    obtain ⟨rest, hrest, rfl⟩ := Go.map_eq_ok.mp h
    have hhead : (part.eval E row == .tt) = elemHolds E s row (keptElem filter) := by
      rw [Bool.eq_iff_iff, beq_iff_eq]
      rw [partOf] at hpart
      split at hpart
      · next v hv =>
        obtain ⟨members, hmembers, rfl⟩ := Go.map_eq_ok.mp hpart
        rw [keptElem, hv, eval_or_iff, elemHolds_or, truths_addUnder hv hmembers, Option.any_some]
      · next hor =>
        split at hpart
        · next v hv =>
          obtain ⟨members, hmembers, rfl⟩ := Go.map_eq_ok.mp hpart
          rw [keptElem, hor, hv, eval_and_iff, elemHolds_and, truths_addUnder hv hmembers,
            Option.any_some]
        · next hand =>
          split at hpart
          · next b hb => rw [keptElem, hor, hand, hb, eval_boolExpr hpart, elemHolds_bool]
          · next hbool =>
            rw [keptElem, hor, hand, hbool, eval_restriction hpart,
              elemHolds_restriction hor hand hbool]
    rw [keptElems_cons, elemsHold_cons, ← hhead, ← truths_addToFilter hrest]
    rfl

/-- The same of what stands under a key of a map. -/
theorem truths_addUnder {key : String} : ∀ {filter : FilterElem} {v : FilterVal}
    {parts : List Sqlizer}, filter.lookup key = some v → addElems s v = .ok parts →
      membersHold E s row (keptVal v) = some (truths E row parts)
  | [], v, parts, hv, h => by cases hv
  | (k, v') :: filter, v, parts, hv, h => by
    rw [List.lookup_cons] at hv
    cases hk : key == k with
    | true =>
      rw [hk] at hv
      cases hv
      exact truths_addElems h
    | false =>
      rw [hk] at hv
      exact truths_addUnder hv h

/-- The same of a list. -/
theorem truths_addElems : ∀ {v : FilterVal} {parts : List Sqlizer}, addElems s v = .ok parts →
    membersHold E s row (keptVal v) = some (truths E row parts)
  | .elems filters, parts, h => by
    rw [addElems] at h
    rw [keptVal, membersHold, truths_addToFilter h]
  | .value _, _, h | .search _, _, h => by simp [addElems] at h
end

/-! ## The top -/

/-- The loop over the entries, when it is known what each of them turns into. -/
theorem selects_addKeys {filter : GoMap FilterVal} {P : String × FilterVal → Prop}
    {entries : List (String × FilterVal)} {clause : List Sqlizer}
    (hP : ∀ e ∈ entries, ∀ part, addKey s filter e.1 e.2 = .ok part →
      (part.eval E row = .tt ↔ P e)) (h : addKeys s filter entries = .ok clause) :
    Selects E clause row ↔ ∀ e ∈ entries, P e := by
  induction entries generalizing clause with
  | nil =>
    rw [addKeys] at h
    cases h
    simp [Selects]
  | cons e entries ih =>
    obtain ⟨key, value⟩ := e
    rw [List.forall_mem_cons] at hP
    simp only [addKeys, Go.bind_eq_ok] at h
    obtain ⟨part, hpart, rest, hrest, hclause⟩ := h
    cases hclause
    rw [Selects, List.forall_mem_cons, ← Selects, hP.1 part hpart, ih hP.2 hrest,
      List.forall_mem_cons]

theorem mem_keptFilter {filter : GoMap FilterVal} {key : String} {value : FilterVal} :
    (key, value) ∈ (keptFilter filter).toList ↔
      ∃ v, (key, v) ∈ filter.toList ∧ isKeptKey filter key = true ∧ keptVal v = value := by
  simp only [keptFilter, GoMap.mapValues, GoMap.filterKeys, GoMap.toList, List.map_map,
    List.mem_map, List.mem_filter, Function.comp_apply, Prod.mk.injEq]
  constructor
  · rintro ⟨e, ⟨he, hkept⟩, rfl, rfl⟩
    exact ⟨e.2, ⟨e, he, rfl, rfl⟩, hkept, rfl⟩
  · rintro ⟨v, ⟨e, he, rfl, rfl⟩, hkept, rfl⟩
    exact ⟨e, ⟨he, hkept⟩, rfl, rfl⟩

theorem filterHolds_keptFilter {filter : GoMap FilterVal} :
    FilterHolds E s row (keptFilter filter) ↔ ∀ e ∈ filter.toList,
      isKeptKey filter e.1 = true → entryHolds E s row e.1 (keptVal e.2) = true := by
  constructor
  · intro h e he hkept
    exact h _ (mem_keptFilter.mpr ⟨e.2, he, hkept, rfl⟩)
  · rintro h ⟨key, value⟩ he
    obtain ⟨v, hv, hkept, rfl⟩ := mem_keptFilter.mp he
    exact h _ hv hkept

theorem lookup_of_mem_toList {filter : GoMap FilterVal} {e : String × FilterVal}
    (h : e ∈ filter.toList) : filter.lookup e.1 = some e.2 := by
  obtain ⟨e', he', rfl⟩ := List.mem_map.mp h
  exact AList.mem_lookup_iff.mpr he'

theorem mem_toList_of_lookup {filter : GoMap FilterVal} {key : String} {value : FilterVal}
    (h : filter.lookup key = some value) : (key, value) ∈ filter.toList :=
  List.mem_map.mpr ⟨⟨key, value⟩, AList.mem_lookup_iff.mp h, rfl⟩

theorem entryHolds_or (v : FilterVal) :
    entryHolds E s row orCondition v = (membersHold E s row v).any (·.any id) := if_pos rfl

theorem entryHolds_and (v : FilterVal) :
    entryHolds E s row andCondition v = (membersHold E s row v).any (·.all id) := by
  rw [entryHolds, if_neg (by decide), if_pos rfl]

theorem entryHolds_bool (v : FilterVal) : entryHolds E s row boolCondition v = boolHolds v := by
  rw [entryHolds, if_neg (by decide), if_neg (by decide), if_pos rfl]

theorem boolHolds_keptVal (v : FilterVal) : boolHolds (keptVal v) = boolHolds v := by
  cases v <;> rfl

/-- The restriction of a property at the top. -/
theorem eval_addProperty {key : String} (hor : key ≠ orCondition) (hand : key ≠ andCondition)
    (hbool : key ≠ boolCondition) {value : FilterVal} {part : Sqlizer}
    (h : (do
      let property ← s.getPropertyByID key
      match value with
      | .search text => .ok (.like key text)
      | .value value => .ok (.eq key (parseBoolean property.type value))
      | .elems _ => .errorf "sql: converting argument type: unsupported type []map" : Go Sqlizer) =
        .ok part) :
    part.eval E row = .tt ↔ entryHolds E s row key (keptVal value) = true := by
  rw [entryHolds, if_neg hor, if_neg hand, if_neg hbool]
  obtain ⟨property, hproperty, h⟩ := Go.bind_eq_ok.mp h
  cases value with
  | search text =>
    cases h
    simp [propertyHolds, hasPropertyID_of_ok hproperty, Sqlizer.eval, keptVal]
  | value value =>
    cases h
    simp [propertyHolds, hasPropertyID_of_ok hproperty, typeOf_of_ok hproperty, Sqlizer.eval,
      keptVal]
  | elems filters => simp at h

/-- What an entry of a filter turns into: an entry that is kept, into that; an entry for a property
beside a `__bool__`, into the `__bool__`. -/
theorem eval_addKey {filter : GoMap FilterVal} {key : String} {value : FilterVal}
    (he : (key, value) ∈ filter.toList) {part : Sqlizer}
    (h : addKey s filter key value = .ok part) :
    part.eval E row = .tt ↔
      if isKeptKey filter key then entryHolds E s row key (keptVal value) = true
      else (filter.lookup boolCondition).any boolHolds = true := by
  rw [addKey] at h
  split_ifs at h with hor hand
  · subst hor
    obtain ⟨members, hmembers, ⟨⟩⟩ := Go.bind_eq_ok.mp h
    rw [if_pos (by simp [isKeptKey]), entryHolds_or, truths_addElems hmembers, eval_or_iff,
      Option.any_some]
  · subst hand
    obtain ⟨members, hmembers, ⟨⟩⟩ := Go.bind_eq_ok.mp h
    rw [if_pos (by simp [isKeptKey]), entryHolds_and, truths_addElems hmembers, eval_and_iff,
      Option.any_some]
  · have hlookup := lookup_of_mem_toList he
    split at h
    · next b hb =>
      rw [eval_boolExpr h, hb]
      by_cases hbool : key = boolCondition
      · subst hbool
        obtain rfl : b = value := Option.some.inj (hb.symm.trans hlookup)
        rw [if_pos (by simp [isKeptKey]), entryHolds_bool, boolHolds_keptVal]
      · rw [if_neg (by simp [isKeptKey, hor, hand, hbool, hb]), Option.any_some]
    · next hnone =>
      have hbool : key ≠ boolCondition := by
        rintro rfl
        rw [hnone] at hlookup
        cases hlookup
      rw [if_pos (by simp [isKeptKey, hnone]), eval_addProperty hor hand hbool h]

/-- **The clause says what is kept**, for every filter and every order of its entries. -/
theorem addFilterToQuery_means_kept {filter : GoMap FilterVal} {clause : List Sqlizer}
    (h : addFilterToQuery s filter = .ok clause) :
    Selects E clause row ↔ FilterHolds E s row (keptFilter filter) := by
  rw [selects_addKeys (fun e he part hpart ↦ eval_addKey he hpart) h, filterHolds_keptFilter]
  constructor
  · intro hall e he hkept
    have hread := hall e he
    rwa [if_pos hkept] at hread
  · intro hall e he
    split_ifs with hkept
    · exact hall e he hkept
    · cases hb : filter.lookup boolCondition with
      | none => simp [isKeptKey, hb] at hkept
      | some b =>
        have hbool := hall _ (mem_toList_of_lookup hb) (by simp [isKeptKey])
        rw [entryHolds_bool, boolHolds_keptVal] at hbool
        rw [Option.any_some, hbool]

/-! ## When the two are the same -/

/-- The map has at most one kind of entry, and searches only with `eq`. -/
def oneKind (filter : FilterElem) : Bool :=
  ([orCondition, andCondition, boolCondition, "property"].countP fun key ↦
    (filter.lookup key).isSome) ≤ 1 &&
  match filter.lookup "value" with
  | some (.search _) => compOf filter == "eq"
  | _ => true

mutual
/-- In a list of maps, and in the lists in these, every map has one kind of entry. -/
def wholeElems : List FilterElem → Bool
  | [] => true
  | filter :: filters => oneKind filter && wholeUnder orCondition filter &&
      wholeUnder andCondition filter && wholeElems filters

/-- The same of the list under a key of a map. -/
def wholeUnder (key : String) : FilterElem → Bool
  | [] => true
  | (k, v) :: filter => if key == k then wholeVal v else wholeUnder key filter

/-- The same of what stands under a key. -/
def wholeVal : FilterVal → Bool
  | .elems filters => wholeElems filters
  | _ => true
end

/-- Nothing is dropped of a filter: no property stands beside `__bool__: true`, and no map in a list
has entries of two kinds. -/
def WholeFilter (filter : GoMap FilterVal) : Prop :=
  ((filter.lookup boolCondition).any boolHolds = true →
    ∀ key ∈ filter, key = orCondition ∨ key = andCondition ∨ key = boolCondition) ∧
  ∀ e ∈ filter.toList, wholeVal e.2 = true

/-- A search with `eq` is kept as it is. -/
theorem restrictionHolds_kept {filter : FilterElem} (h : oneKind filter = true) :
    restrictionHolds E s row (keptRestriction filter) = restrictionHolds E s row filter := by
  rw [keptRestriction]
  split
  · next text htext =>
    rw [oneKind, Bool.and_eq_true] at h
    have hcomp : compOf filter = "eq" := by simpa [htext] using h.2
    have hkept (key : String) (hk : (key == "type") = false) :
        (("type", .value (.str "eq")) :: filter : FilterElem).lookup key = filter.lookup key := by
      rw [List.lookup_cons, hk]
    have htype : compOf (("type", .value (.str "eq")) :: filter) = "eq" := rfl
    simp only [restrictionHolds, hkept "property" rfl, hkept "value" rfl, htype, hcomp]
  · rfl

/-- A map with one kind of entry says what is kept of it, if its list does. -/
theorem elemHolds_kept {filter : FilterElem} (h : oneKind filter = true)
    (hor : ∀ v, filter.lookup orCondition = some v →
      membersHold E s row (keptVal v) = membersHold E s row v)
    (hand : ∀ v, filter.lookup andCondition = some v →
      membersHold E s row (keptVal v) = membersHold E s row v) :
    elemHolds E s row (keptElem filter) = elemHolds E s row filter := by
  have hcount := h
  rw [oneKind, Bool.and_eq_true] at hcount
  replace hcount := hcount.1
  simp only [List.countP_cons, List.countP_nil, decide_eq_true_eq] at hcount
  rw [keptElem]
  cases ho : filter.lookup orCondition with
  | some v =>
    have hnone : filter.lookup andCondition = none ∧ filter.lookup boolCondition = none ∧
        filter.lookup "property" = none := by
      cases ha : filter.lookup andCondition <;> cases hb : filter.lookup boolCondition <;>
        cases hp : filter.lookup "property" <;> simp [ho, ha, hb, hp] at hcount ⊢
    rw [elemHolds_or, hor v ho, elemHolds, ho, hnone.1, hnone.2.1, restrictionHolds, hnone.2.2]
    simp
  | none =>
    cases ha : filter.lookup andCondition with
    | some v =>
      have hnone : filter.lookup boolCondition = none ∧ filter.lookup "property" = none := by
        cases hb : filter.lookup boolCondition <;> cases hp : filter.lookup "property" <;>
          simp [ho, ha, hb, hp] at hcount ⊢
      rw [elemHolds_and, hand v ha, elemHolds, ho, ha, hnone.1, restrictionHolds, hnone.2]
      simp
    | none =>
      cases hb : filter.lookup boolCondition with
      | some b =>
        have hnone : filter.lookup "property" = none := by
          cases hp : filter.lookup "property" <;> simp [ho, ha, hb, hp] at hcount ⊢
        rw [elemHolds_bool, elemHolds, ho, ha, hb, restrictionHolds, hnone]
        simp
      | none =>
        rw [elemHolds_restriction ho ha hb, restrictionHolds_kept h, elemHolds, ho, ha, hb]
        simp

mutual
theorem elemsHold_kept : ∀ {filters : List FilterElem}, wholeElems filters = true →
    elemsHold E s row (keptElems filters) = elemsHold E s row filters
  | [], _ => rfl
  | filter :: filters, h => by
    rw [wholeElems, Bool.and_eq_true, Bool.and_eq_true, Bool.and_eq_true] at h
    obtain ⟨⟨⟨hkind, hor⟩, hand⟩, hrest⟩ := h
    rw [keptElems_cons, elemsHold_cons, elemsHold_cons, elemsHold_kept hrest,
      elemHolds_kept hkind (fun v hv ↦ membersHold_under hv hor)
        (fun v hv ↦ membersHold_under hv hand)]

theorem membersHold_under {key : String} : ∀ {filter : FilterElem} {v : FilterVal},
    filter.lookup key = some v → wholeUnder key filter = true →
      membersHold E s row (keptVal v) = membersHold E s row v
  | [], v, hv, _ => by cases hv
  | (k, v') :: filter, v, hv, h => by
    rw [List.lookup_cons] at hv
    rw [wholeUnder] at h
    cases hk : key == k with
    | true =>
      rw [hk] at hv h
      cases hv
      exact membersHold_kept h
    | false =>
      rw [hk] at hv h
      exact membersHold_under hv h

theorem membersHold_kept : ∀ {v : FilterVal}, wholeVal v = true →
    membersHold E s row (keptVal v) = membersHold E s row v
  | .elems filters, h => by
    rw [wholeVal] at h
    rw [keptVal, membersHold, membersHold, elemsHold_kept h]
  | .value _, _ | .search _, _ => by rw [keptVal]; simp
end

theorem entryHolds_kept {key : String} {v : FilterVal} (h : wholeVal v = true) :
    entryHolds E s row key (keptVal v) = entryHolds E s row key v := by
  rw [entryHolds, entryHolds, membersHold_kept h, boolHolds_keptVal]
  cases v <;> rfl

/-- A filter of which nothing is dropped says what is kept of it. -/
theorem filterHolds_of_whole {filter : GoMap FilterVal} (h : WholeFilter filter) :
    FilterHolds E s row (keptFilter filter) ↔ FilterHolds E s row filter := by
  obtain ⟨htop, hwhole⟩ := h
  rw [filterHolds_keptFilter, FilterHolds]
  constructor
  · intro hkept e he
    cases hb : filter.lookup boolCondition with
    | none =>
      rw [← entryHolds_kept (hwhole e he)]
      exact hkept e he (by simp [isKeptKey, hb])
    | some b =>
      have hbool := hkept _ (mem_toList_of_lookup hb) (by simp [isKeptKey])
      rw [entryHolds_bool, boolHolds_keptVal] at hbool
      have hkey := htop (by rw [hb, Option.any_some, hbool]) e.1
        (by rw [← AList.lookup_isSome, lookup_of_mem_toList he]; rfl)
      rw [← entryHolds_kept (hwhole e he)]
      exact hkept e he (by rcases hkey with h | h | h <;> simp [isKeptKey, h])
  · intro hall e he _
    rw [entryHolds_kept (hwhole e he)]
    exact hall e he

/-- **When the clause denotes the filter.**  For every schema, filter and order of its entries for
which the query is built, every row and every way the database compares values: the clause selects
the row exactly where the whole filter holds of it, exactly when what is kept of the filter says the
same of this row.  A filter of which nothing is dropped has that for every row. -/
theorem filter_denotes_iff {filter : GoMap FilterVal} {clause : List Sqlizer}
    (h : addFilterToQuery s filter = .ok clause) :
    (∀ E row, (Selects E clause row ↔ FilterHolds E s row filter) ↔
      (FilterHolds E s row (keptFilter filter) ↔ FilterHolds E s row filter)) ∧
    (WholeFilter filter → ∀ E row, Selects E clause row ↔ FilterHolds E s row filter) := by
  refine ⟨fun E row ↦ ?_, fun hwhole E row ↦ ?_⟩
  · rw [addFilterToQuery_means_kept h]
  · rw [addFilterToQuery_means_kept h, filterHolds_of_whole hwhole]

/-- A table with a state. -/
def portSchema : Schema where
  id := "port"
  singular := "port"
  plural := "ports"
  url := "/v2.0/ports"
  properties := [{ id := "id" }, { id := "state" }]

/-- The ports that are up, beside a constant. -/
def upBeside (b : Bool) : GoMap FilterVal :=
  GoMap.ofList [("state", .value (.str "UP")), (boolCondition, .value (.bool b))]

/-- What the clause for a filter with `__bool__: false` denotes. -/
theorem filter_denotes_false : ∃ clause, addFilterToQuery portSchema (upBeside false) = .ok clause ∧
    (∀ E row, (Selects E clause row ↔ FilterHolds E portSchema row (upBeside false)) ↔
      (FilterHolds E portSchema row (keptFilter (upBeside false)) ↔
        FilterHolds E portSchema row (upBeside false))) ∧
    (WholeFilter (upBeside false) →
      ∀ E row, Selects E clause row ↔ FilterHolds E portSchema row (upBeside false)) :=
  ⟨_, rfl, filter_denotes_iff rfl⟩

/-- With `__bool__: true`, the state does not count. -/
theorem not_filter_denotes : ∃ clause, addFilterToQuery portSchema (upBeside true) = .ok clause ∧
    let row : Dict := GoMap.ofList [("id", .str "p1"), ("state", .str "DOWN")]
    Selects exactEngine clause row ∧ ¬ FilterHolds exactEngine portSchema row (upBeside true) :=
  ⟨_, rfl, by decide, by decide⟩

end Gohan
