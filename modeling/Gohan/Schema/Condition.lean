import Gohan.Schema.Basic
import Gohan.Schema.Tenant

/-!
# Resource conditions

The `condition` of a policy is a list in which a few kinds of entry may stand side by side:

* a word — `is_owner`, `is_domain_owner`, `skip_tenant_domain_check`;
* a `belongs_to` dictionary, which lets the caller act on the resources of another tenant;
* a `property` dictionary, which restricts the values the resource may have;
* an `and` or `or` block, a tree of further conditions that goes into the query.

`NewResourceCondition` compiles the list when the policy is loaded.  The words become flags, the
two kinds of dictionary are entered into tables keyed by action, and a block is *precomputed*: it
becomes a `ConditionFilter`, a record with one slot for an `or` child and one for an `and` child.
Requests are answered from the compiled form alone.

The compiler is a loop that reads one entry and adds it.  It is written here as those two
functions, `parseEntry` and `ResourceCondition.add`, so that what an entry contributes to the
tables can be said once: `getSlice_foldl_add_tenants` and `getSlice_foldl_add_properties` say that
the table of an action is the concatenation of what the entries contribute to it.
-/

set_option autoImplicit false

namespace Gohan

/-- `ActionGlob`: it stands for all actions. -/
def actionGlob : String := "*"

/-- `ActionCreate`. -/
def actionCreate : String := "create"

/-- `ActionRead`. -/
def actionRead : String := "read"

/-- `ActionUpdate`. -/
def actionUpdate : String := "update"

/-- `ActionDelete`. -/
def actionDelete : String := "delete"

/-- `ActionAttach`: a resource may be referred to. -/
def actionAttach : String := "__attach__"

/-- The actions an entry is entered for when it names none. -/
def allActions : List String := [actionCreate, actionRead, actionUpdate, actionDelete]

/-! ## Precomputed blocks -/

/-- Is a block a disjunction or a conjunction? -/
inductive ConditionFilterType where
  | orFilter
  | andFilter
  deriving DecidableEq

/-- A precomputed block: what stands in it directly, and one slot for each kind of child. -/
structure ConditionFilter where
  filterType : ConditionFilterType
  isOwner : Bool := false
  isDomainOwner : Bool := false
  sameTenancy : Bool := false
  matchList : List (List (String × Value)) := []
  orFilters : Option ConditionFilter := none
  andFilters : Option ConditionFilter := none

/-- `Unknown condition`, the error of a block. -/
def unknownCondition {α : Type} (condition : Value) (policyID : String) : Go α :=
  .errorf "Unknown condition '%s' for policy '%s'" [condition, .str policyID]

mutual
/-- Compile a block of the given kind. -/
def precomputeCondition (policyID : String) (filterType : ConditionFilterType) :
    Value → Go ConditionFilter
  | .list conditions => precomputeLoop policyID { filterType } conditions
  | _ => .panicf "interface conversion: interface {} is not []interface {}"

/-- The loop over the members of a block. -/
def precomputeLoop (policyID : String) (actionFilter : ConditionFilter) :
    List Value → Go ConditionFilter
  | [] => .ok actionFilter
  | condition :: conditions => do
    let actionFilter ← match condition with
      | .str "is_owner" => .ok { actionFilter with isOwner := true }
      | .str "is_domain_owner" => .ok { actionFilter with isDomainOwner := true }
      | .str "same_tenancy" => .ok { actionFilter with sameTenancy := true }
      | .map conditionObject =>
        match precomputeUnder policyID .orFilter "or" conditionObject with
        | some r => do .ok { actionFilter with orFilters := some (← r) }
        | none =>
          match precomputeUnder policyID .andFilter "and" conditionObject with
          | some r => do .ok { actionFilter with andFilters := some (← r) }
          | none =>
            match conditionObject.lookup "match" with
            | some (.map m) =>
              .ok { actionFilter with matchList := actionFilter.matchList ++ [m] }
            | some _ =>
              .panicf "interface conversion: interface {} is not map[string]interface {}"
            | none => unknownCondition (.map conditionObject) policyID
      | _ => unknownCondition condition policyID
    precomputeLoop policyID actionFilter conditions

/-- The block under a key of a dictionary, if the key is there. -/
def precomputeUnder (policyID : String) (filterType : ConditionFilterType) (key : String) :
    List (String × Value) → Option (Go ConditionFilter)
  | [] => none
  | (k, v) :: conditionObject =>
    if key == k then some (precomputeCondition policyID filterType v)
    else precomputeUnder policyID filterType key conditionObject
end

/-! ## Compiled conditions -/

variable [RegexpEngine]

/-- The compiled condition of a policy. -/
structure ResourceCondition where
  condition : List Value := []
  actionTenantFilter : GoMap (List AllowedTenant) := ∅
  actionPropertyConditionFilter : GoMap (List (List (String × Value))) := ∅
  actionFilter : Option ConditionFilter := none
  requireOwner : Bool := false
  requireDomainOwner : Bool := false
  skipTenantDomainCheck : Bool := false

/-- What one entry of a condition list asks for. -/
inductive Entry where
  | isOwner
  | isDomainOwner
  | skipTenantDomainCheck
  | belongsTo (actions : List String) (tenant : AllowedTenant)
  | property (actions : List String) (allowed : List (String × Value))
  | block (filter : ConditionFilter)
  /-- A dictionary with none of the keys that are looked for. -/
  | ignored

/-- The actions a dictionary is entered for. -/
def actionsOf (conditionObject : List (String × Value)) : Go (List String) :=
  match conditionObject.lookup "action" with
  | none => .ok allActions
  | some (.str action) => .ok (if action = actionGlob then allActions else [action])
  | some _ => .panicf "interface conversion: interface {} is not string"

/-- The tenant a `belongs_to` dictionary gives, by identifier or by name. -/
def belongsToTenant (conditionObject : List (String × Value)) : Go AllowedTenant := do
  let tenantID ← getRegexp ((conditionObject.lookup tenantIDKey).getD .nil).maybeString
  let tenantName ← getRegexp ((conditionObject.lookup "tenant_name").getD .nil).maybeString
  if tenantName.expr ≠ globalRegexp ∧ tenantID.expr ≠ globalRegexp then
    .panicf "Only one of [tenant_id, tenant_name] should be specified"
  else .ok ⟨tenantID, tenantName⟩

/-- Read one entry of a condition list. -/
def parseEntry (policyID : String) : Value → Go Entry
  | .str condition =>
    if condition = "is_owner" then .ok .isOwner
    else if condition = "is_domain_owner" then .ok .isDomainOwner
    else if condition = "skip_tenant_domain_check" then .ok .skipTenantDomainCheck
    else .panicf "Unknown condition '%s' for policy '%s'" [.str condition, .str policyID]
  | .map conditionObject =>
    match conditionObject.lookup "type" with
    | some conditionType =>
      if conditionType = .str "belongs_to" then do
        let actions ← actionsOf conditionObject
        .ok (.belongsTo actions (← belongsToTenant conditionObject))
      else if conditionType = .str "property" then do
        let actions ← actionsOf conditionObject
        match conditionObject.lookup "match" with
        | some (.map allowed) => .ok (.property actions allowed)
        | _ => .panicf "match should be dict"
      else .panicf "Unknown condition type '%s' for policy '%s'" [conditionType, .str policyID]
    | none =>
      match conditionObject.lookup "and" with
      | some andType => do .ok (.block (← precomputeCondition policyID .andFilter andType))
      | none =>
        match conditionObject.lookup "or" with
        | some orType => do .ok (.block (← precomputeCondition policyID .orFilter orType))
        | none => .ok .ignored
  | _ => .panicf "Invalid condition format for policy '%s'" [.str policyID]

namespace ResourceCondition

/-- Enter what one entry asks for. -/
def add (p : ResourceCondition) : Entry → ResourceCondition
  | .isOwner => { p with requireOwner := true }
  | .isDomainOwner => { p with requireDomainOwner := true }
  | .skipTenantDomainCheck => { p with skipTenantDomainCheck := true }
  | .belongsTo actions tenant =>
    { p with actionTenantFilter :=
        actions.foldl (fun t action ↦ t.push action tenant) p.actionTenantFilter }
  | .property actions allowed =>
    { p with actionPropertyConditionFilter :=
        actions.foldl (fun t action ↦ t.push action allowed) p.actionPropertyConditionFilter }
  | .block filter => { p with actionFilter := some filter }
  | .ignored => p

/-- `requireTenantCheck`. -/
def requireTenantCheck (p : ResourceCondition) : Bool := p.requireOwner

/-- `requireDomainCheck`. -/
def requireDomainCheck (p : ResourceCondition) : Bool := p.requireOwner || p.requireDomainOwner

end ResourceCondition

/-- The loop over a condition list. -/
def addConditions (policyID : String) : List Value → ResourceCondition → Go ResourceCondition
  | [], p => .ok p
  | condition :: conditions, p => do
    let entry ← parseEntry policyID condition
    addConditions policyID conditions (p.add entry)

/-- Compile a condition list. -/
def newResourceCondition (rawCondition : List Value) (policyID : String) : Go ResourceCondition :=
  addConditions policyID rawCondition { condition := rawCondition }

/-! ## What the entries contribute -/

/-- The tenants an entry adds to the table of an action. -/
def Entry.tenants (action : String) : Entry → List AllowedTenant
  | .belongsTo actions tenant => List.replicate (actions.count action) tenant
  | _ => []

/-- The property matches an entry adds to the table of an action. -/
def Entry.properties (action : String) : Entry → List (List (String × Value))
  | .property actions allowed => List.replicate (actions.count action) allowed
  | _ => []

/-- The entry a condition is read as, where it is read. -/
def entryOf (policyID : String) (condition : Value) : Entry :=
  (parseEntry policyID condition).toOption.getD .ignored

theorem entryOf_of_parseEntry {policyID : String} {condition : Value} {e : Entry}
    (h : parseEntry policyID condition = .ok e) : entryOf policyID condition = e := by
  rw [entryOf, h]
  rfl

/-- The loop reads every condition and adds what it reads, in order. -/
theorem addConditions_eq_ok {policyID : String} {conditions : List Value}
    {p rc : ResourceCondition} : addConditions policyID conditions p = .ok rc ↔
      (∀ c ∈ conditions, ∃ e, parseEntry policyID c = .ok e) ∧
        rc = (conditions.map (entryOf policyID)).foldl ResourceCondition.add p := by
  induction conditions generalizing p with
  | nil => simp [addConditions, eq_comm]
  | cons c cs ih =>
    rw [addConditions, Go.bind_eq_ok, List.forall_mem_cons, List.map_cons, List.foldl_cons]
    constructor
    · rintro ⟨e, he, h⟩
      obtain ⟨hcs, rfl⟩ := ih.mp h
      exact ⟨⟨⟨e, he⟩, hcs⟩, by rw [entryOf_of_parseEntry he]⟩
    · rintro ⟨⟨⟨e, he⟩, hcs⟩, rfl⟩
      exact ⟨e, he, ih.mpr ⟨hcs, by rw [entryOf_of_parseEntry he]⟩⟩

/-- **The tenants entered for an action** are those of the entries, in order. -/
theorem getSlice_foldl_add_tenants (entries : List Entry) (p : ResourceCondition)
    (action : String) : (entries.foldl ResourceCondition.add p).actionTenantFilter.getSlice action =
      p.actionTenantFilter.getSlice action ++ entries.flatMap (Entry.tenants action) := by
  induction entries generalizing p with
  | nil => simp
  | cons e es ih =>
    rw [List.foldl_cons, ih, List.flatMap_cons, ← List.append_assoc]
    congr 1
    cases e <;> simp [ResourceCondition.add, Entry.tenants, GoMap.getSlice_foldl_push]

/-- **The property matches entered for an action** are those of the entries, in order. -/
theorem getSlice_foldl_add_properties (entries : List Entry) (p : ResourceCondition)
    (action : String) :
    (entries.foldl ResourceCondition.add p).actionPropertyConditionFilter.getSlice action =
      p.actionPropertyConditionFilter.getSlice action ++
        entries.flatMap (Entry.properties action) := by
  induction entries generalizing p with
  | nil => simp
  | cons e es ih =>
    rw [List.foldl_cons, ih, List.flatMap_cons, ← List.append_assoc]
    congr 1
    cases e <;> simp [ResourceCondition.add, Entry.properties, GoMap.getSlice_foldl_push]

theorem oneSided_of_belongsToTenant {conditionObject : List (String × Value)} {t : AllowedTenant}
    (h : belongsToTenant conditionObject = .ok t) : t.OneSided := by
  obtain ⟨tenantID, -, h⟩ := Go.bind_eq_ok.mp h
  obtain ⟨tenantName, -, h⟩ := Go.bind_eq_ok.mp h
  split at h
  · exact absurd h (Go.panicf_ne_ok _ _ _)
  · next hone =>
    obtain rfl := Except.ok.inj h
    exact or_iff_not_imp_left.mpr fun hname ↦ by_contra fun hID ↦ hone ⟨hname, hID⟩

/-- What is printed of the expression of an entry is not empty. -/
theorem expr_ne_of_belongsToTenant {conditionObject : List (String × Value)} {t : AllowedTenant}
    (h : belongsToTenant conditionObject = .ok t) : t.ID.expr ≠ "" := by
  obtain ⟨tenantID, hID, h⟩ := Go.bind_eq_ok.mp h
  obtain ⟨tenantName, -, h⟩ := Go.bind_eq_ok.mp h
  split at h
  · exact absurd h (Go.panicf_ne_ok _ _ _)
  · obtain rfl := Except.ok.inj h
    rw [getRegexp, Regexp.compile] at hID
    split at hID
    · rw [← Except.ok.inj hID]
      dsimp only
      split
      · exact by decide
      · assumption
    · exact absurd hID (Go.errorf_ne_ok _ _ _)

theorem belongsToTenant_of_parseEntry {policyID : String} {v : Value} {e : Entry}
    (h : parseEntry policyID v = .ok e) {action : String} {t : AllowedTenant}
    (ht : t ∈ e.tenants action) : ∃ conditionObject, belongsToTenant conditionObject = .ok t := by
  cases e with
  | belongsTo actions tenant =>
    obtain rfl := List.eq_of_mem_replicate ht
    cases v with
    | map conditionObject =>
      simp only [parseEntry] at h
      split at h
      · split at h
        · obtain ⟨actions', -, h⟩ := Go.bind_eq_ok.mp h
          obtain ⟨tenant', htenant, h⟩ := Go.bind_eq_ok.mp h
          obtain ⟨-, rfl⟩ := Entry.belongsTo.inj (Except.ok.inj h)
          exact ⟨conditionObject, htenant⟩
        · split at h
          · obtain ⟨actions', -, h⟩ := Go.bind_eq_ok.mp h
            split at h
            · cases h
            · exact absurd h (Go.panicf_ne_ok _ _ _)
          · exact absurd h (Go.panicf_ne_ok _ _ _)
      · split at h
        · obtain ⟨_, -, h⟩ := Go.bind_eq_ok.mp h
          cases h
        · split at h
          · obtain ⟨_, -, h⟩ := Go.bind_eq_ok.mp h
            cases h
          · cases h
    | str condition =>
      simp only [parseEntry] at h
      repeat' split at h
      all_goals cases h
    | _ => exact absurd h (Go.panicf_ne_ok _ _ _)
  | _ => cases ht

/-- **The entries of a condition that compiles** are read from dictionaries. -/
theorem belongsToTenant_of_newResourceCondition {rawCondition : List Value} {policyID : String}
    {cond : ResourceCondition} (h : newResourceCondition rawCondition policyID = .ok cond)
    {action : String} {t : AllowedTenant} (ht : t ∈ cond.actionTenantFilter.getSlice action) :
    ∃ conditionObject, belongsToTenant conditionObject = .ok t := by
  obtain ⟨hparses, rfl⟩ := addConditions_eq_ok.mp h
  rw [getSlice_foldl_add_tenants] at ht
  obtain ⟨e, he, ht⟩ := List.mem_flatMap.mp ((List.mem_append.mp ht).resolve_left (by simp))
  obtain ⟨condition, hcondition, rfl⟩ := List.mem_map.mp he
  obtain ⟨e, he⟩ := hparses condition hcondition
  rw [entryOf_of_parseEntry he] at ht
  exact belongsToTenant_of_parseEntry he ht

/-- The block an entry puts in place. -/
def Entry.block? : Entry → Option ConditionFilter
  | .block filter => some filter
  | _ => none

/-- **The block of a compiled condition** is that of the last entry that has one. -/
theorem actionFilter_foldl_add (entries : List Entry) (p : ResourceCondition) :
    (entries.foldl ResourceCondition.add p).actionFilter =
      (entries.filterMap Entry.block?).getLast?.or p.actionFilter := by
  induction entries generalizing p with
  | nil => simp
  | cons e es ih =>
    rw [List.foldl_cons, ih]
    cases e with
    | block filter =>
      rw [List.filterMap_cons_some (by rfl), List.getLast?_cons]
      cases (es.filterMap Entry.block?).getLast? <;> rfl
    | _ => rfl

end Gohan
