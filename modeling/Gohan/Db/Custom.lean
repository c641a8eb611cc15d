import Gohan.Db.BlockMeaning

/-!
# What the custom filters accept

The `and` and `or` entries of a condition list are to hold together, next to whatever else is in the
list.  Of these entries, too, only the last is kept: a compiled condition has one block.

`customFilters_accept_iff` says which rows the query selects for a whole condition list, at any
nesting, and so for which rows that is the boolean meaning of the list.  `Single` is the syntactic
condition that nothing is dropped, and for those lists it is the meaning for every row.
-/

set_option autoImplicit false

namespace Gohan

open Kleene

/-! ## Dropping, and not dropping -/

/-- A condition without what is dropped from it. -/
def Cond.prune : Cond → Cond
  | .and members => .and (kept members)
  | .or members => .or (kept members)
  | c => c

/-- The block is an `and`. -/
def Cond.isAnd : Cond → Bool
  | .and _ => true
  | _ => false

/-- The block is an `or`. -/
def Cond.isOr : Cond → Bool
  | .or _ => true
  | _ => false

mutual
/-- No list of members has two `and` children or two `or` children, at any level. -/
def Cond.Single : Cond → Prop
  | .and members => SingleAll members
  | .or members => SingleAll members
  | _ => True

/-- The same of a list of members. -/
def SingleAll : List Cond → Prop
  | [] => True
  | c :: cs => c.Single ∧ SingleAll cs ∧ (c.isAnd = true → cs.any Cond.isAnd = false) ∧
      (c.isOr = true → cs.any Cond.isOr = false)
end

theorem keptAnd_eq_none {cs : List Cond} (h : cs.any Cond.isAnd = false) : keptAnd cs = none := by
  induction cs with
  | nil => rw [keptAnd]
  | cons c cs ih =>
    rw [List.any_cons, Bool.or_eq_false_iff] at h
    cases c with
    | and ds => simp [Cond.isAnd] at h
    | _ => rw [keptAnd] <;> first | exact ih h.2 | simp

theorem keptOr_eq_none {cs : List Cond} (h : cs.any Cond.isOr = false) : keptOr cs = none := by
  induction cs with
  | nil => rw [keptOr]
  | cons c cs ih =>
    rw [List.any_cons, Bool.or_eq_false_iff] at h
    cases c with
    | or ds => simp [Cond.isOr] at h
    | _ => rw [keptOr] <;> first | exact ih h.2 | simp

theorem kept_cons_leaf {c : Cond} {cs : List Cond} (h : c.isLeaf = true) :
    kept (c :: cs) = c :: kept cs := by
  cases c <;> simp_all [kept, keptAnd, keptOr, Cond.isLeaf, List.filter_cons]

/-- Where there is one child of each kind at most, every member is kept. -/
theorem mem_kept_of_single {cs : List Cond} (h : SingleAll cs) {d : Cond} :
    d ∈ kept cs ↔ ∃ c ∈ cs, c.prune = d := by
  induction cs with
  | nil => simp [kept, keptAnd, keptOr]
  | cons c cs ih =>
    obtain ⟨-, hcs, hand, hor⟩ := h
    rw [List.exists_mem_cons_iff, ← ih hcs]
    cases c with
    | and ds =>
      have hrest := keptAnd_eq_none (hand rfl)
      have hkeep : keptOr (.and ds :: cs) = keptOr cs := by rw [keptOr]; simp
      simp only [kept, keptAnd_and, hrest, hkeep, Cond.prune, Cond.isLeaf, List.filter_cons,
        List.mem_append, Option.none_or, Option.toList_some, List.mem_singleton]
      grind
    | or ds =>
      have hrest := keptOr_eq_none (hor rfl)
      have hkeep : keptAnd (.or ds :: cs) = keptAnd cs := by rw [keptAnd]; simp
      simp only [kept, keptOr_or, hrest, hkeep, Cond.prune, Cond.isLeaf, List.filter_cons,
        List.mem_append, Option.none_or, Option.toList_some, List.mem_singleton]
      grind
    | _ => rw [kept_cons_leaf rfl, List.mem_cons, Cond.prune, @eq_comm _ d] <;> simp

variable {E : SqlEngine} {s : Schema} {auth : Authorization} {row : Dict}

mutual
theorem holds_prune_of_single : ∀ {c : Cond}, c.Single →
    (c.prune.Holds E s auth row ↔ c.Holds E s auth row)
  | .isOwner, _ => Iff.rfl
  | .isDomainOwner, _ => Iff.rfl
  | .matching _ _ _, _ => Iff.rfl
  | .and cs, h => by
    rw [Cond.prune, Cond.Holds, Cond.Holds, allHold_iff, allHold_iff]
    simp only [mem_kept_of_single (show SingleAll cs from h), forall_exists_index, and_imp,
      forall_apply_eq_imp_iff₂]
    exact forall₂_congr fun c hc ↦ holds_prune_of_singleAll h c hc
  | .or cs, h => by
    rw [Cond.prune, Cond.Holds, Cond.Holds, anyHolds_iff, anyHolds_iff]
    simp only [mem_kept_of_single (show SingleAll cs from h), exists_exists_and_eq_and]
    exact exists_congr fun c ↦ and_congr_right fun hc ↦ holds_prune_of_singleAll h c hc

theorem holds_prune_of_singleAll : ∀ {cs : List Cond}, SingleAll cs → ∀ c ∈ cs,
    (c.prune.Holds E s auth row ↔ c.Holds E s auth row)
  | [], _ => by simp
  | _ :: _, h => by
    rw [List.forall_mem_cons]
    exact ⟨holds_prune_of_single h.1, holds_prune_of_singleAll h.2.1⟩
end

/-! ## Condition lists -/

/-- Is a value a block, as an entry of a condition list? -/
def isBlock : Value → Bool
  | .map m => (m.lookup "type").isNone && ((m.lookup "and").isSome || (m.lookup "or").isSome)
  | _ => false

/-- An entry of a condition list: a block, or anything else that may stand in such a list. -/
inductive TopEntry where
  | block (c : Cond) (h : c.isLeaf = false)
  | other (v : Value) (h : isBlock v = false)

namespace TopEntry

/-- The entry, as it stands in the policy. -/
def toValue : TopEntry → Value
  | .block c _ => c.toValue
  | .other v _ => v

/-- The block that the entry is, if it is one. -/
def block? : TopEntry → Option Cond
  | .block c _ => some c
  | .other _ _ => none

end TopEntry

/-- The blocks of a condition list, which are to hold together. -/
def topBlocks (top : List TopEntry) : List Cond := top.filterMap TopEntry.block?

/-- What is kept of them. -/
def topKept (top : List TopEntry) : Option Cond := (topBlocks top).getLast?.map Cond.prune

/-- Nothing is dropped: there is one block at most, and it has one child of each kind at most. -/
def SingleTop (top : List TopEntry) : Prop :=
  (topBlocks top).length ≤ 1 ∧ ∀ c ∈ topBlocks top, c.Single

/-- The precomputed form of a block. -/
def Cond.compiled : Cond → ConditionFilter
  | .or members => blockOf .orFilter members
  | .and members => blockOf .andFilter members
  | _ => blockOf .andFilter []

variable [RegexpEngine] {policyID : String}

/-- A block is read as a block. -/
theorem parseEntry_block {c : Cond} (h : c.isLeaf = false) :
    parseEntry policyID c.toValue = .ok (.block c.compiled) := by
  cases c with
  | and members =>
    simp [Cond.toValue, parseEntry, List.lookup_cons, precomputeCondition, precompute_toValues,
      addAll_start, Cond.compiled, bind, Except.bind]
  | or members =>
    simp [Cond.toValue, parseEntry, List.lookup_cons, precomputeCondition, precompute_toValues,
      addAll_start, Cond.compiled, bind, Except.bind]
  | _ => simp [Cond.isLeaf] at h

/-- Nothing else is. -/
theorem block?_of_not_isBlock {v : Value} (h : isBlock v = false) {e : Entry}
    (he : parseEntry policyID v = .ok e) : e.block? = none := by
  cases v with
  | str condition =>
    simp only [parseEntry] at he
    split at he
    · cases he; rfl
    · split at he
      · cases he; rfl
      · split at he
        · cases he; rfl
        · simp at he
  | map m =>
    simp only [isBlock] at h
    simp only [parseEntry] at he
    split at he
    · split at he
      · simp only [Go.bind_eq_ok] at he
        obtain ⟨_, _, _, _, ⟨⟩⟩ := he
        rfl
      · split at he
        · simp only [Go.bind_eq_ok] at he
          obtain ⟨_, _, he⟩ := he
          split at he
          · cases he; rfl
          · simp at he
        · simp at he
    · next htype =>
      split at he
      · next hand => simp [htype, hand] at h
      · split at he
        · next hor => simp [htype, hor] at h
        · cases he; rfl
  | _ => simp [parseEntry] at he

/-- The compiled condition of a list has the block of its last block entry. -/
theorem actionFilter_of_top {top : List TopEntry} {rc : ResourceCondition}
    (hrc : newResourceCondition (top.map TopEntry.toValue) policyID = .ok rc) :
    rc.actionFilter = (topBlocks top).getLast?.map Cond.compiled := by
  obtain ⟨hread, rfl⟩ := addConditions_eq_ok.mp hrc
  have hblocks : ((top.map TopEntry.toValue).map (entryOf policyID)).filterMap Entry.block? =
      (topBlocks top).map Cond.compiled := by
    clear hrc
    induction top with
    | nil => rfl
    | cons t top ih =>
      rw [List.map_cons, List.forall_mem_cons] at hread
      obtain ⟨⟨e, he⟩, hrest⟩ := hread
      rw [List.map_cons, List.map_cons, entryOf_of_parseEntry he]
      cases t with
      | block c hc =>
        rw [TopEntry.toValue, parseEntry_block hc] at he
        cases he
        rw [List.filterMap_cons_some (by rfl), ih hrest, topBlocks, topBlocks,
          List.filterMap_cons_some (by rfl), List.map_cons]
      | other v hv =>
        rw [List.filterMap_cons_none (block?_of_not_isBlock hv he), ih hrest, topBlocks, topBlocks,
          List.filterMap_cons_none (by rfl)]
  rw [actionFilter_foldl_add, hblocks, List.getLast?_map, Option.or_none]

omit [RegexpEngine] in
theorem toList_insert_empty (key : String) (v : FilterVal) :
    (GoMap.toList ((∅ : GoMap FilterVal).insert key v)) = [(key, v)] := rfl

omit [RegexpEngine] in
/-- The query for one block. -/
theorem block_accepts_iff {c : Cond} (hc : c.isLeaf = false) (hk : c.KnownIn s) :
    ∃ filter clause, addCustomFilters s ∅ auth none (some c.compiled) = .ok filter ∧
      addFilterToQuery s filter = .ok clause ∧
      ∀ E row, Selects E clause row ↔ c.prune.Holds E s auth row := by
  cases c with
  | and members =>
    obtain ⟨filters, hexp, hread⟩ := reads_block .andFilter hk (@reads_andSlot s auth _ hk)
      (@reads_orSlot s auth _ hk)
    obtain ⟨parts, hparts, hall, -⟩ := hread.parts
    refine ⟨_, [.and parts], by simp only [addCustomFilters, Cond.compiled, hexp]; rfl, ?_, ?_⟩
    · rw [addFilterToQuery, toList_insert_empty]
      simp [addKeys, addKey, blockOf, ConditionFilterType.key, andCondition, orCondition, addElems,
        hparts, bind, Except.bind]
    · intro E row
      rw [Selects, List.forall_mem_singleton, eval_and, hall, Cond.prune, Cond.Holds, allHold_iff]
      simp only [List.forall_mem_map, mem_expandedMembers, meaningOf]
  | or members =>
    obtain ⟨filters, hexp, hread⟩ := reads_block .orFilter hk (@reads_andSlot s auth _ hk)
      (@reads_orSlot s auth _ hk)
    obtain ⟨parts, hparts, -, hany⟩ := hread.parts
    refine ⟨_, [.or parts], by simp only [addCustomFilters, Cond.compiled, hexp]; rfl, ?_, ?_⟩
    · rw [addFilterToQuery, toList_insert_empty]
      simp [addKeys, addKey, blockOf, ConditionFilterType.key, orCondition, addElems, hparts, bind,
        Except.bind]
    · intro E row
      rw [Selects, List.forall_mem_singleton, eval_or, hany, Cond.prune, Cond.Holds, anyHolds_iff]
      simp [mem_expandedMembers, meaningOf]
  | _ => simp [Cond.isLeaf] at hc

/-- The query for a whole list accepts what the kept block means. -/
theorem top_accepts_iff {top : List TopEntry} {rc : ResourceCondition}
    (hrc : newResourceCondition (top.map TopEntry.toValue) policyID = .ok rc)
    (hk : ∀ c ∈ topBlocks top, c.KnownIn s) :
    ∃ filter clause, rc.addCustomFilters s ∅ auth = .ok filter ∧
      addFilterToQuery s filter = .ok clause ∧
      ∀ E row, Selects E clause row ↔ ∀ c ∈ topKept top, c.Holds E s auth row := by
  rw [ResourceCondition.addCustomFilters, actionFilter_of_top hrc]
  cases hlast : (topBlocks top).getLast? with
  | none => exact ⟨∅, [], rfl, rfl, by simp [Selects, topKept, hlast]⟩
  | some c =>
    have hmem : c ∈ topBlocks top := List.mem_of_getLast? hlast
    obtain ⟨t, _, ht⟩ := List.mem_filterMap.mp hmem
    have hleaf : c.isLeaf = false := by
      cases t with
      | block d hd => cases ht; exact hd
      | other v hv => simp [TopEntry.block?] at ht
    obtain ⟨filter, clause, hfilter, hclause, hsel⟩ := @block_accepts_iff s auth c hleaf (hk c hmem)
    exact ⟨filter, clause, hfilter, hclause, fun E row ↦ by simp [hsel, topKept, hlast]⟩

omit [RegexpEngine] in
theorem holds_topKept_of_single {top : List TopEntry} (h : SingleTop top) :
    (∀ c ∈ topKept top, c.Holds E s auth row) ↔ ∀ c ∈ topBlocks top, c.Holds E s auth row := by
  obtain ⟨hlen, hsingle⟩ := h
  match hblocks : topBlocks top with
  | [] => simp [topKept, hblocks]
  | [c] =>
    have hc : c.Single := hsingle c (by rw [hblocks]; exact List.mem_singleton_self c)
    simp [topKept, hblocks, holds_prune_of_single hc]
  | c :: d :: cs => simp [hblocks] at hlen

/-- **What the custom filters of a condition list accept.**  For every row, the query for the list
selects it exactly if the blocks of the list hold together, if and only if what is kept of them says
the same about this row as all of them.  Where nothing is dropped, that is so for every row. -/
theorem customFilters_accept_iff {top : List TopEntry} {rc : ResourceCondition}
    (hrc : newResourceCondition (top.map TopEntry.toValue) policyID = .ok rc)
    (hk : ∀ c ∈ topBlocks top, c.KnownIn s) (auth : Authorization) :
    ∃ filter clause, rc.addCustomFilters s ∅ auth = .ok filter ∧
      addFilterToQuery s filter = .ok clause ∧
      (∀ E row, (Selects E clause row ↔ ∀ c ∈ topBlocks top, c.Holds E s auth row) ↔
        ((∀ c ∈ topKept top, c.Holds E s auth row) ↔
          ∀ c ∈ topBlocks top, c.Holds E s auth row)) ∧
      (SingleTop top → ∀ E row, Selects E clause row ↔
        ∀ c ∈ topBlocks top, c.Holds E s auth row) := by
  obtain ⟨filter, clause, hfilter, hclause, hsel⟩ :=
    @top_accepts_iff s auth _ policyID top rc hrc hk
  refine ⟨filter, clause, hfilter, hclause, fun E row ↦ by rw [hsel], fun hsingle E row ↦ ?_⟩
  rw [hsel, holds_topKept_of_single hsingle]

/-! ## An example -/

/-- A database that compares values by equality, and NULL with nothing. -/
def exactEngine : SqlEngine where
  eq a b := if a = .nil then .unknown else .ofBool (a == b)
  like _ _ := .ff

/-- A table with an owner and a state. -/
def serverSchema : Schema where
  id := "server"
  singular := "server"
  plural := "servers"
  url := "/v2.0/servers"
  properties := [{ id := "id" }, { id := tenantIDKey }, { id := "state" }]

/-- The own servers, and only those that are up: two entries of a condition list. -/
def ownAndUp : List TopEntry :=
  [.block (.or [.isOwner]) rfl, .block (.and [.matching "state" false (.str "UP")]) rfl]

/-- A member of a tenant. -/
def member : Authorization := .tenantScoped ⟨"acme-1", "one"⟩ ⟨"default", "Default"⟩ [⟨"Member"⟩]

omit [RegexpEngine] in
/-- What the query for the list accepts, with each entry counted. -/
theorem customFilters_ownAndUp : letI := Re2.engine
    ∃ rc filter clause, newResourceCondition (ownAndUp.map TopEntry.toValue) "p" = .ok rc ∧
      rc.addCustomFilters serverSchema ∅ member = .ok filter ∧
      addFilterToQuery serverSchema filter = .ok clause ∧
      (∀ E row, (Selects E clause row ↔
          ∀ c ∈ topBlocks ownAndUp, c.Holds E serverSchema member row) ↔
        ((∀ c ∈ topKept ownAndUp, c.Holds E serverSchema member row) ↔
          ∀ c ∈ topBlocks ownAndUp, c.Holds E serverSchema member row)) ∧
      (SingleTop ownAndUp → ∀ E row, Selects E clause row ↔
        ∀ c ∈ topBlocks ownAndUp, c.Holds E serverSchema member row) := by
  have hk : ∀ c ∈ topBlocks ownAndUp, c.KnownIn serverSchema := by
    simp [topBlocks, ownAndUp, TopEntry.block?, Cond.KnownIn, AllKnown, serverSchema,
      Schema.hasPropertyID]
  obtain ⟨filter, clause, hfilter, hclause, hsel⟩ :=
    @customFilters_accept_iff serverSchema Re2.engine "p" ownAndUp _ rfl hk member
  exact ⟨_, filter, clause, rfl, hfilter, hclause, hsel⟩

omit [RegexpEngine] in
/-- The first entry is dropped: a server of another tenant is selected as long as it is up. -/
theorem not_customFilters_ownAndUp : letI := Re2.engine
    ∃ rc filter clause, newResourceCondition (ownAndUp.map TopEntry.toValue) "p" = .ok rc ∧
      rc.addCustomFilters serverSchema ∅ member = .ok filter ∧
      addFilterToQuery serverSchema filter = .ok clause ∧
      let row : Dict := GoMap.ofList [(tenantIDKey, .str "acme-2"), ("state", .str "UP")]
      Selects exactEngine clause row ∧
        ¬ ∀ c ∈ topBlocks ownAndUp, c.Holds exactEngine serverSchema member row := by
  refine ⟨_, _, _, rfl, rfl, rfl, by decide, fun h ↦ ?_⟩
  have howner := h (.or [.isOwner]) List.mem_cons_self
  rw [Cond.Holds, anyHolds_iff] at howner
  obtain ⟨c, hc, howned⟩ := howner
  rw [List.mem_singleton.mp hc, Cond.Holds] at howned
  exact absurd (howned.1 _ _ _ rfl rfl) (by decide)

end Gohan
