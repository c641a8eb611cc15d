import Gohan.Schema.Condition

/-!
# Conditions as a syntax

The tree of an `and` or `or` block, as a policy author writes it: words, matches and further blocks,
to any depth.  `Cond.toValue` is the tree as it stands in the policy file.

A precomputed block has one slot for an `or` child and one for an `and` child.  `blockOf` says what
a list of members is compiled to, and `precompute_toValues` that this is what the compiler does: the
words become flags, the matches are collected, and of several children of one kind the last one is
kept.  `kept` is the list without the children that are dropped, at every level.
-/

set_option autoImplicit false

namespace Gohan

/-- A condition inside a block. -/
inductive Cond where
  | isOwner
  | isDomainOwner
  | matching (property : String) (negated : Bool) (value : Value)
  | and (members : List Cond)
  | or (members : List Cond)

/-- `eq` or `neq`. -/
def matchType (negated : Bool) : String := if negated then "neq" else "eq"

mutual
/-- The condition as it is written. -/
def Cond.toValue : Cond → Value
  | .isOwner => .str "is_owner"
  | .isDomainOwner => .str "is_domain_owner"
  | .matching property negated value => .map [("match", .map [("property", .str property),
      ("type", .str (matchType negated)), ("value", value)])]
  | .and members => .map [("and", .list (toValues members))]
  | .or members => .map [("or", .list (toValues members))]

/-- The members of a block as they are written. -/
def toValues : List Cond → List Value
  | [] => []
  | c :: cs => c.toValue :: toValues cs
end

/-! ## What a block is compiled to -/

namespace Cond

/-- The condition is `is_owner`. -/
def isIsOwner : Cond → Bool
  | .isOwner => true
  | _ => false

/-- The condition is `is_domain_owner`. -/
def isIsDomainOwner : Cond → Bool
  | .isDomainOwner => true
  | _ => false

/-- The dictionary of a match. -/
def match? : Cond → Option (List (String × Value))
  | .matching property negated value => some [("property", .str property),
      ("type", .str (matchType negated)), ("value", value)]
  | _ => none

/-- A word or a match. -/
def isLeaf : Cond → Bool
  | .and _ => false
  | .or _ => false
  | _ => true

end Cond

mutual
/-- The `and` slot: the last `and` child. -/
def andSlot : List Cond → Option ConditionFilter
  | [] => none
  | .and ds :: cs => (andSlot cs).or (some {
      filterType := .andFilter
      isOwner := ds.any Cond.isIsOwner
      isDomainOwner := ds.any Cond.isIsDomainOwner
      matchList := ds.filterMap Cond.match?
      orFilters := orSlot ds
      andFilters := andSlot ds })
  | _ :: cs => andSlot cs

/-- The `or` slot: the last `or` child. -/
def orSlot : List Cond → Option ConditionFilter
  | [] => none
  | .or ds :: cs => (orSlot cs).or (some {
      filterType := .orFilter
      isOwner := ds.any Cond.isIsOwner
      isDomainOwner := ds.any Cond.isIsDomainOwner
      matchList := ds.filterMap Cond.match?
      orFilters := orSlot ds
      andFilters := andSlot ds })
  | _ :: cs => orSlot cs
end

/-- The precomputed block of a list of members. -/
def blockOf (filterType : ConditionFilterType) (cs : List Cond) : ConditionFilter where
  filterType
  isOwner := cs.any Cond.isIsOwner
  isDomainOwner := cs.any Cond.isIsDomainOwner
  matchList := cs.filterMap Cond.match?
  orFilters := orSlot cs
  andFilters := andSlot cs

theorem andSlot_and (ds cs : List Cond) :
    andSlot (.and ds :: cs) = (andSlot cs).or (some (blockOf .andFilter ds)) := by
  rw [andSlot, blockOf]

theorem orSlot_or (ds cs : List Cond) :
    orSlot (.or ds :: cs) = (orSlot cs).or (some (blockOf .orFilter ds)) := by
  rw [orSlot, blockOf]

/-- What the members add to a block that is being compiled. -/
def ConditionFilter.addAll (af : ConditionFilter) (cs : List Cond) : ConditionFilter where
  filterType := af.filterType
  isOwner := af.isOwner || cs.any Cond.isIsOwner
  isDomainOwner := af.isDomainOwner || cs.any Cond.isIsDomainOwner
  sameTenancy := af.sameTenancy
  matchList := af.matchList ++ cs.filterMap Cond.match?
  orFilters := (orSlot cs).or af.orFilters
  andFilters := (andSlot cs).or af.andFilters

theorem addAll_start (filterType : ConditionFilterType) (cs : List Cond) :
    ConditionFilter.addAll { filterType } cs = blockOf filterType cs := by
  simp [ConditionFilter.addAll, blockOf]

theorem addAll_nil (af : ConditionFilter) : af.addAll [] = af := by
  cases af
  simp [ConditionFilter.addAll, andSlot, orSlot]

/-- What a single member adds. -/
def ConditionFilter.add (af : ConditionFilter) : Cond → ConditionFilter
  | .isOwner => { af with isOwner := true }
  | .isDomainOwner => { af with isDomainOwner := true }
  | .matching property negated value => { af with matchList := af.matchList ++ [[
      ("property", .str property), ("type", .str (matchType negated)), ("value", value)]] }
  | .and ds => { af with andFilters := some (blockOf .andFilter ds) }
  | .or ds => { af with orFilters := some (blockOf .orFilter ds) }

theorem addAll_cons (af : ConditionFilter) (c : Cond) (cs : List Cond) :
    af.addAll (c :: cs) = (af.add c).addAll cs := by
  cases c with
  | and ds =>
    have hor : orSlot (.and ds :: cs) = orSlot cs := by rw [orSlot]; simp
    simp [ConditionFilter.addAll, ConditionFilter.add, andSlot_and, hor, Cond.isIsOwner,
      Cond.isIsDomainOwner, Cond.match?, List.filterMap_cons]
  | or ds =>
    have hand : andSlot (.or ds :: cs) = andSlot cs := by rw [andSlot]; simp
    simp [ConditionFilter.addAll, ConditionFilter.add, orSlot_or, hand, Cond.isIsOwner,
      Cond.isIsDomainOwner, Cond.match?, List.filterMap_cons]
  | _ =>
    simp [ConditionFilter.addAll, ConditionFilter.add, andSlot, orSlot, Cond.isIsOwner,
      Cond.isIsDomainOwner, Cond.match?, List.filterMap_cons]

/-- **The compiler, on what a policy author writes.**  The loop never fails, and adds the members
one by one. -/
theorem precompute_toValues (policyID : String) : ∀ (cs : List Cond) (af : ConditionFilter),
    precomputeLoop policyID af (toValues cs) = .ok (af.addAll cs)
  | [], af => by rw [toValues, precomputeLoop, addAll_nil]
  | c :: cs, af => by
    rw [toValues, addAll_cons, ← precompute_toValues policyID cs]
    cases c with
    | and ds =>
      have hor : precomputeUnder policyID .orFilter "or" [("and", .list (toValues ds))] = none := by
        simp [precomputeUnder]
      have hand : precomputeUnder policyID .andFilter "and" [("and", .list (toValues ds))] =
          some (.ok (blockOf .andFilter ds)) := by
        simp [precomputeUnder, precomputeCondition, precompute_toValues policyID ds, addAll_start]
      simp only [Cond.toValue, precomputeLoop, hor, hand, bind, Except.bind, ConditionFilter.add]
    | or ds =>
      have hor : precomputeUnder policyID .orFilter "or" [("or", .list (toValues ds))] =
          some (.ok (blockOf .orFilter ds)) := by
        simp [precomputeUnder, precomputeCondition, precompute_toValues policyID ds, addAll_start]
      simp only [Cond.toValue, precomputeLoop, hor, bind, Except.bind, ConditionFilter.add]
    | isOwner => rfl
    | isDomainOwner => rfl
    | matching property negated value =>
      simp [Cond.toValue, precomputeLoop, precomputeUnder, bind, Except.bind, ConditionFilter.add]

/-! ## What is kept -/

mutual
/-- The last `and` child, without what is dropped from it. -/
def keptAnd : List Cond → Option Cond
  | [] => none
  | .and ds :: cs =>
    (keptAnd cs).or (some (.and (ds.filter Cond.isLeaf ++ (keptAnd ds).toList ++
      (keptOr ds).toList)))
  | _ :: cs => keptAnd cs

/-- The last `or` child, without what is dropped from it. -/
def keptOr : List Cond → Option Cond
  | [] => none
  | .or ds :: cs =>
    (keptOr cs).or (some (.or (ds.filter Cond.isLeaf ++ (keptAnd ds).toList ++
      (keptOr ds).toList)))
  | _ :: cs => keptOr cs
end

/-- The members of a block without those that are dropped: all words and matches, and of the `and`
children and the `or` children the last. -/
def kept (cs : List Cond) : List Cond :=
  cs.filter Cond.isLeaf ++ (keptAnd cs).toList ++ (keptOr cs).toList

theorem keptAnd_and (ds cs : List Cond) :
    keptAnd (.and ds :: cs) = (keptAnd cs).or (some (.and (kept ds))) := by
  rw [keptAnd, kept]

theorem keptOr_or (ds cs : List Cond) :
    keptOr (.or ds :: cs) = (keptOr cs).or (some (.or (kept ds))) := by
  rw [keptOr, kept]

theorem isSome_andSlot (cs : List Cond) : (andSlot cs).isSome = (keptAnd cs).isSome := by
  induction cs with
  | nil => rw [andSlot, keptAnd]; rfl
  | cons c cs ih => cases c <;> simp [andSlot, keptAnd, ih]

theorem isSome_orSlot (cs : List Cond) : (orSlot cs).isSome = (keptOr cs).isSome := by
  induction cs with
  | nil => rw [orSlot, keptOr]; rfl
  | cons c cs ih => cases c <;> simp [orSlot, keptOr, ih]

end Gohan
