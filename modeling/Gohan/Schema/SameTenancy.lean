import Gohan.Schema.CustomFilter
import Gohan.Schema.Policy

/-!
# The word that needs a tenancy

Inside a block there is a third word, `same_tenancy`: the resource referred to has the tenant and
domain of the resource that refers to it.  It is meant for the target condition of an attach policy,
where the check knows both; the operations on a single resource expand a block without a tenancy.

The parser takes the word everywhere.  `ConditionFilter.needsTenancy` finds it in a compiled block,
`policyNeedsTenancy` in what is kept of a policy as it is written, and
`addCustomFilters_returns_iff` says that expanding the blocks of a policy comes back exactly where
the word is not found.
-/

set_option autoImplicit false

namespace Gohan

/-! ## In a compiled block -/

mutual
/-- Does the block, or a block in one of its slots, have the word? -/
def ConditionFilter.needsTenancy : ConditionFilter → Bool
  | ⟨_, _, _, sameTenancy, _, orFilters, andFilters⟩ =>
    sameTenancy || slotNeedsTenancy andFilters || slotNeedsTenancy orFilters

/-- The same of the block in a slot. -/
def slotNeedsTenancy : Option ConditionFilter → Bool
  | none => false
  | some child => child.needsTenancy
end

variable {s : Schema} {auth : Authorization}

/-- What dereferencing the missing tenancy ends in. -/
def nilTenancy {α : Type} : Go α :=
  .panicf "runtime error: invalid memory address or nil pointer dereference"

theorem ownFilters_eq (cf : ConditionFilter) : ∃ filters,
    ownFilters s auth none cf = if cf.sameTenancy then nilTenancy else .ok filters := by
  rw [ownFilters]
  cases cf.sameTenancy with
  | true => exact ⟨[], rfl⟩
  | false => exact ⟨_, rfl⟩

mutual
/-- **Expanding without a tenancy**: a panic where the block needs one, filters where not. -/
theorem expand_eq : ∀ cf : ConditionFilter, ∃ filters,
    expand s auth none cf = if cf.needsTenancy then nilTenancy else .ok filters
  | ⟨filterType, isOwner, isDomainOwner, sameTenancy, matchList, orFilters, andFilters⟩ => by
    obtain ⟨own, hown⟩ := @ownFilters_eq s auth
      { filterType, isOwner, isDomainOwner, sameTenancy, matchList }
    obtain ⟨ands, hands⟩ := expandSlot_eq andFilters
    obtain ⟨ors, hors⟩ := expandSlot_eq orFilters
    refine ⟨own ++ ands ++ ors, ?_⟩
    rw [expand, ConditionFilter.needsTenancy, hown, hands, hors]
    cases sameTenancy with
    | true => rfl
    | false =>
      cases slotNeedsTenancy andFilters with
      | true => rfl
      | false => cases slotNeedsTenancy orFilters <;> rfl

theorem expandSlot_eq : ∀ slot : Option ConditionFilter, ∃ filters,
    expandSlot s auth none slot = if slotNeedsTenancy slot then nilTenancy else .ok filters
  | none => ⟨[], rfl⟩
  | some child => by
    obtain ⟨filters, h⟩ := expand_eq child
    refine ⟨[[(child.filterType.key, .elems filters)]], ?_⟩
    rw [expandSlot, slotNeedsTenancy, h]
    cases child.needsTenancy <;> rfl
end

theorem returns_addCustomFilters_iff [RegexpEngine] {rc : ResourceCondition}
    {filters : GoMap FilterVal} :
    Go.Returns (rc.addCustomFilters s filters auth) ↔ slotNeedsTenancy rc.actionFilter = false := by
  rw [ResourceCondition.addCustomFilters]
  cases rc.actionFilter with
  | none => simp [addCustomFilters, slotNeedsTenancy]
  | some block =>
    obtain ⟨fs, h⟩ := @expand_eq s auth block
    simp only [addCustomFilters, slotNeedsTenancy, h]
    cases block.needsTenancy with
    | true => simp [nilTenancy, Go.returns_bind]
    | false => simp

/-! ## In a policy as it is written -/

/-- Where a block being read has the word: in itself, in its `or` child, in its `and` child. -/
structure TenancyUse where
  own : Bool := false
  inOr : Bool := false
  inAnd : Bool := false

/-- Anywhere. -/
def TenancyUse.any (use : TenancyUse) : Bool := use.own || use.inAnd || use.inOr

/-- A dictionary replaces the child of its kind: an `or` if it has one, else an `and`. -/
def TenancyUse.setChild (use : TenancyUse) : Option Bool → Option Bool → TenancyUse
  | some need, _ => { use with inOr := need }
  | none, some need => { use with inAnd := need }
  | none, none => use

mutual
/-- Does a block, as it is written, have the word in what is kept of it? -/
def valueNeedsTenancy : Value → Bool
  | .list conditions => (membersUse {} conditions).any
  | _ => false

/-- Reading on, member by member. -/
def membersUse (use : TenancyUse) : List Value → TenancyUse
  | [] => use
  | condition :: conditions => membersUse (memberUse use condition) conditions

/-- Reading one member. -/
def memberUse (use : TenancyUse) : Value → TenancyUse
  | .str condition => { use with own := use.own || condition == "same_tenancy" }
  | .map conditionObject =>
    use.setChild (needUnder "or" conditionObject) (needUnder "and" conditionObject)
  | _ => use

/-- The same of the block under a key of a dictionary, if the key is there. -/
def needUnder (key : String) : List (String × Value) → Option Bool
  | [] => none
  | (k, v) :: conditionObject =>
    if key == k then some (valueNeedsTenancy v) else needUnder key conditionObject
end

/-- Where a compiled block has the word. -/
def ConditionFilter.use (cf : ConditionFilter) : TenancyUse where
  own := cf.sameTenancy
  inOr := slotNeedsTenancy cf.orFilters
  inAnd := slotNeedsTenancy cf.andFilters

theorem any_use (cf : ConditionFilter) : cf.use.any = cf.needsTenancy := by
  cases cf
  rw [ConditionFilter.needsTenancy, ConditionFilter.use, TenancyUse.any]

/-- What the compiler makes of one member of a block, where it takes it. -/
inductive ReadMember (policyID : String) (af : ConditionFilter) : Value → ConditionFilter → Prop
  | isOwner : ReadMember policyID af (.str "is_owner") { af with isOwner := true }
  | isDomainOwner :
      ReadMember policyID af (.str "is_domain_owner") { af with isDomainOwner := true }
  | sameTenancy : ReadMember policyID af (.str "same_tenancy") { af with sameTenancy := true }
  | or {m : List (String × Value)} {child : ConditionFilter}
      (hor : precomputeUnder policyID .orFilter "or" m = some (.ok child)) :
      ReadMember policyID af (.map m) { af with orFilters := some child }
  | and {m : List (String × Value)} {child : ConditionFilter}
      (hor : precomputeUnder policyID .orFilter "or" m = none)
      (hand : precomputeUnder policyID .andFilter "and" m = some (.ok child)) :
      ReadMember policyID af (.map m) { af with andFilters := some child }
  | matching {m allowed : List (String × Value)}
      (hor : precomputeUnder policyID .orFilter "or" m = none)
      (hand : precomputeUnder policyID .andFilter "and" m = none) :
      ReadMember policyID af (.map m) { af with matchList := af.matchList ++ [allowed] }

theorem readMember_of_precomputeLoop {policyID : String} {condition : Value}
    {conditions : List Value} {af cf : ConditionFilter}
    (h : precomputeLoop policyID af (condition :: conditions) = .ok cf) :
    ∃ af', ReadMember policyID af condition af' ∧
      precomputeLoop policyID af' conditions = .ok cf := by
  rw [precomputeLoop.eq_def] at h
  split at h
  · next heq => cases heq
  · next heq =>
    cases heq
    split at h
    · exact ⟨_, .isOwner, h⟩
    · exact ⟨_, .isDomainOwner, h⟩
    · exact ⟨_, .sameTenancy, h⟩
    · split at h
      · next r hor =>
        obtain ⟨child, rfl, h⟩ := Go.bind_eq_ok.mp h
        exact ⟨_, .or hor, h⟩
      · next hor =>
        split at h
        · next r hand =>
          obtain ⟨child, rfl, h⟩ := Go.bind_eq_ok.mp h
          exact ⟨_, .and hor hand, h⟩
        · next hand =>
          split at h
          · exact ⟨_, .matching hor hand, h⟩
          · simp [Go.bind_eq_ok] at h
          · simp [Go.bind_eq_ok, unknownCondition] at h
    · simp [Go.bind_eq_ok, unknownCondition] at h

mutual
theorem needsTenancy_precomputeCondition {policyID : String} {filterType : ConditionFilterType} :
    ∀ {v : Value} {cf : ConditionFilter}, precomputeCondition policyID filterType v = .ok cf →
      cf.needsTenancy = valueNeedsTenancy v
  | .list conditions, cf, h => by
    rw [precomputeCondition] at h
    rw [← any_use, use_precomputeLoop h, valueNeedsTenancy]
    rfl
  | .nil, _, h | .bool _, _, h | .int _, _, h | .float _, _, h | .str _, _, h | .strs _, _, h
  | .map _, _, h => by simp [precomputeCondition] at h

/-- **The compiler keeps the word where the reading keeps it.** -/
theorem use_precomputeLoop {policyID : String} : ∀ {conditions : List Value}
    {af cf : ConditionFilter}, precomputeLoop policyID af conditions = .ok cf →
      cf.use = membersUse af.use conditions
  | [], af, cf, h => by
    rw [precomputeLoop] at h
    cases h
    rw [membersUse]
  | condition :: conditions, af, cf, h => by
    obtain ⟨af', hread, h⟩ := readMember_of_precomputeLoop h
    rw [use_precomputeLoop h, membersUse]
    congr 1
    cases hread with
    | isOwner => simp [memberUse, ConditionFilter.use]
    | isDomainOwner => simp [memberUse, ConditionFilter.use]
    | sameTenancy => simp [memberUse, ConditionFilter.use]
    | or hor =>
      rw [memberUse, needUnder_precomputeUnder.2 _ hor]
      rfl
    | and hor hand =>
      rw [memberUse, needUnder_precomputeUnder.1 hor, needUnder_precomputeUnder.2 _ hand]
      rfl
    | matching hor hand =>
      rw [memberUse, needUnder_precomputeUnder.1 hor, needUnder_precomputeUnder.1 hand]
      rfl

theorem needUnder_precomputeUnder {policyID : String} {filterType : ConditionFilterType}
    {key : String} : ∀ {conditionObject : List (String × Value)},
      (precomputeUnder policyID filterType key conditionObject = none →
        needUnder key conditionObject = none) ∧
      ∀ cf, precomputeUnder policyID filterType key conditionObject = some (.ok cf) →
        needUnder key conditionObject = some cf.needsTenancy
  | [] => by simp [precomputeUnder, needUnder]
  | (k, v) :: conditionObject => by
    rw [precomputeUnder, needUnder]
    cases key == k with
    | true =>
      refine ⟨by simp, fun cf h ↦ ?_⟩
      rw [if_pos rfl] at h ⊢
      rw [needsTenancy_precomputeCondition (Option.some.inj h)]
    | false => exact needUnder_precomputeUnder
end

/-- Does an entry of a condition list put a block in place, and does that block have the word? -/
def topNeed? : Value → Option Bool
  | .map conditionObject =>
    match conditionObject.lookup "type" with
    | some _ => none
    | none =>
      match conditionObject.lookup "and" with
      | some andType => some (valueNeedsTenancy andType)
      | none => (conditionObject.lookup "or").map valueNeedsTenancy
  | _ => none

/-- Does a condition list have the word in the last of its blocks? -/
def conditionsNeedTenancy (conditions : List Value) : Bool :=
  (conditions.filterMap topNeed?).getLast?.getD false

/-- Does a policy for single resources have the word where it is kept?  The condition of an attach
policy is about the resource referred to, and is not the one looked at here. -/
def policyNeedsTenancy : Value → Bool
  | .map typeData =>
    stringUnder typeData "action" != actionAttach &&
      conditionsNeedTenancy (((typeData.lookup "condition").bind Value.slice?).getD [])
  | _ => false

theorem slotNeedsTenancy_eq (slot : Option ConditionFilter) :
    slotNeedsTenancy slot = (slot.map ConditionFilter.needsTenancy).getD false := by
  cases slot <;> rfl

variable [RegexpEngine]

theorem topNeed?_of_parseEntry {policyID : String} {condition : Value} {e : Entry}
    (h : parseEntry policyID condition = .ok e) :
    e.block?.map ConditionFilter.needsTenancy = topNeed? condition := by
  cases condition with
  | str word =>
    simp only [parseEntry] at h
    split_ifs at h <;> cases h <;> rfl
  | map m =>
    simp only [parseEntry] at h
    split at h
    · next htype =>
      rw [topNeed?, htype]
      split_ifs at h
      · simp only [Go.bind_eq_ok] at h
        obtain ⟨_, _, _, _, ⟨⟩⟩ := h
        rfl
      · simp only [Go.bind_eq_ok] at h
        obtain ⟨_, _, h⟩ := h
        split at h
        · cases h; rfl
        · simp at h
      · simp at h
    · next htype =>
      split at h
      · next hand =>
        obtain ⟨child, hchild, ⟨⟩⟩ := Go.bind_eq_ok.mp h
        rw [topNeed?, htype, hand]
        exact congrArg some (needsTenancy_precomputeCondition hchild)
      · next hand =>
        split at h
        · next hor =>
          obtain ⟨child, hchild, ⟨⟩⟩ := Go.bind_eq_ok.mp h
          rw [topNeed?, htype, hand, hor]
          exact congrArg some (needsTenancy_precomputeCondition hchild)
        · next hor =>
          cases h
          rw [topNeed?, htype, hand, hor]
          rfl
  | _ => simp [parseEntry] at h

/-- The block of a compiled condition has the word where the list does. -/
theorem slotNeedsTenancy_actionFilter {policyID : String} {conditions : List Value}
    {rc : ResourceCondition} (h : newResourceCondition conditions policyID = .ok rc) :
    slotNeedsTenancy rc.actionFilter = conditionsNeedTenancy conditions := by
  obtain ⟨hread, rfl⟩ := addConditions_eq_ok.mp h
  have hneeds : ((conditions.map (entryOf policyID)).filterMap Entry.block?).map
      ConditionFilter.needsTenancy = conditions.filterMap topNeed? := by
    rw [List.filterMap_map, List.map_filterMap]
    refine List.filterMap_congr fun c hc ↦ ?_
    obtain ⟨e, he⟩ := hread c hc
    rw [Function.comp_apply, entryOf_of_parseEntry he, topNeed?_of_parseEntry he]
  rw [slotNeedsTenancy_eq, actionFilter_foldl_add, Option.or_none, ← List.getLast?_map, hneeds,
    conditionsNeedTenancy]

/-- **When expanding the blocks of a policy comes back.**  For every policy that loads, every
schema, caller and filter: exactly when `same_tenancy` is not in what is kept of its condition. -/
theorem addCustomFilters_returns_iff {rawPolicy : Value} {p : Policy}
    (h : newPolicy rawPolicy = .ok p) (s : Schema) (filters : GoMap FilterVal)
    (auth : Authorization) :
    Go.Returns (p.currentResourceCondition.addCustomFilters s filters auth) ↔
      policyNeedsTenancy rawPolicy = false := by
  rw [returns_addCustomFilters_iff]
  cases rawPolicy with
  | map typeData =>
    simp only [newPolicy, Go.bind_eq_ok, Prod.exists] at h
    obtain ⟨resource, -, tenantID, tenantName, -, scope, -, rc, relation, other, hcond, ⟨⟩⟩ := h
    rw [policyNeedsTenancy]
    rw [parseActionAttachOrCondition] at hcond
    split_ifs at hcond with haction
    · split at hcond
      · simp at hcond
      · split at hcond
        · simp at hcond
        · obtain ⟨other', -, ⟨⟩⟩ := Go.bind_eq_ok.mp hcond
          simp [haction, slotNeedsTenancy]
    · obtain ⟨rc', hrc, ⟨⟩⟩ := Go.bind_eq_ok.mp hcond
      rw [slotNeedsTenancy_actionFilter hrc]
      simp [haction]
  | _ => simp [newPolicy] at h

/-- A policy for reading with a block of the given words. -/
def blockPolicy (words : List Value) : Value := .map [("id", .str "member"),
  ("principal", .str "Member"), ("action", .str "read"), ("effect", .str "allow"),
  ("condition", .list [.map [("or", .list words)]])]

omit [RegexpEngine] in
/-- Blocks about owners come back. -/
theorem addCustomFilters_returns_owner : letI := Re2.engine
    ∃ p, newPolicy (blockPolicy [.str "is_owner"]) = .ok p ∧
      (Go.Returns (p.currentResourceCondition.addCustomFilters
          { id := "server", singular := "server", plural := "servers", url := "/v2.0/servers",
            properties := [] } ∅ (.domainScoped ⟨"default", "Default"⟩ [])) ↔
        policyNeedsTenancy (blockPolicy [.str "is_owner"]) = false) := by
  let _ := Re2.engine
  exact ⟨_, rfl, addCustomFilters_returns_iff rfl _ _ _⟩

omit [RegexpEngine] in
/-- The word of the attach policies is taken in a policy for reading, and panics there. -/
theorem addCustomFilters_panics : letI := Re2.engine
    ∃ p, newPolicy (blockPolicy [.str "same_tenancy"]) = .ok p ∧
      ¬ Go.Returns (p.currentResourceCondition.addCustomFilters
        { id := "server", singular := "server", plural := "servers", url := "/v2.0/servers",
          properties := [] } ∅ (.domainScoped ⟨"default", "Default"⟩ [])) := by
  let _ := Re2.engine
  refine ⟨_, rfl, fun hret ↦ ?_⟩
  rw [returns_addCustomFilters_iff] at hret
  exact absurd hret (by decide)

end Gohan
