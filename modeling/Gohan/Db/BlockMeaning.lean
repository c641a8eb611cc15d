import Gohan.Db.Where
import Gohan.Schema.Block
import Gohan.Schema.CustomFilter

/-!
# What a block means, and what the query makes of it

A block has a boolean meaning for a caller and a row: an `and` requires all of its members, an `or`
at least one, `is_owner` that the row belongs to the caller's tenant and domain, as far as the table
has columns for them, and a match that the column compares with the value as it says.

`Reads` relates a filter to the meaning of the predicate it turns into, and is compositional.  The
chain from the policy to the query is then followed once, in `reads_block`: what is compiled from a
list of members, expanded for a caller and turned into predicates means what the *kept* members of
the list mean.  `customFilters_accept_iff` draws the conclusion for a whole condition list.
-/

set_option autoImplicit false

namespace Gohan

open Kleene

/-! ## Meaning -/

section Meaning

variable (E : SqlEngine) (s : Schema) (auth : Authorization) (row : Dict)

/-- The row is of the caller's domain, as far as there is a column to tell. -/
def DomainOwned : Prop :=
  auth.isAdmin = false → s.hasPropertyID domainIDKey = true →
    E.eq (row.get domainIDKey) (.str auth.domainID) = .tt

/-- The row is of the caller's tenant and domain, as far as there are columns to tell. -/
def Owned : Prop :=
  (∀ tenant domain roles, auth = .tenantScoped tenant domain roles →
    s.hasPropertyID tenantIDKey = true →
      E.eq (row.get tenantIDKey) (.str tenant.id) = .tt) ∧
  DomainOwned E s auth row

/-- The type of a property, by its identifier. -/
def Schema.typeOf (s : Schema) (id : String) : String :=
  match s.getPropertyByID id with
  | .ok property => property.type
  | .error _ => ""

/-- The column compares with the value as the match says. -/
def MatchHolds (property : String) (negated : Bool) (value : Value) : Prop :=
  let value := parseBoolean (s.typeOf property) value
  if negated then E.holdsNotEq (row.get property) value = .tt
  else E.holdsEq (row.get property) value = .tt

mutual
/-- The boolean meaning of a condition. -/
def Cond.Holds : Cond → Prop
  | .isOwner => Owned E s auth row
  | .isDomainOwner => DomainOwned E s auth row
  | .matching property negated value => MatchHolds E s row property negated value
  | .and members => AllHold members
  | .or members => AnyHolds members

/-- All members hold. -/
def AllHold : List Cond → Prop
  | [] => True
  | c :: cs => c.Holds ∧ AllHold cs

/-- Some member holds. -/
def AnyHolds : List Cond → Prop
  | [] => False
  | c :: cs => c.Holds ∨ AnyHolds cs
end

end Meaning

variable {E : SqlEngine} {s : Schema} {auth : Authorization} {row : Dict}

theorem allHold_iff {cs : List Cond} :
    AllHold E s auth row cs ↔ ∀ c ∈ cs, c.Holds E s auth row := by
  induction cs with
  | nil => simp [AllHold]
  | cons c cs ih => rw [AllHold, ih, List.forall_mem_cons]

theorem anyHolds_iff {cs : List Cond} :
    AnyHolds E s auth row cs ↔ ∃ c ∈ cs, c.Holds E s auth row := by
  induction cs with
  | nil => simp [AnyHolds]
  | cons c cs ih => simp only [AnyHolds, ih, List.exists_mem_cons_iff]

mutual
/-- Every match of the condition is about a property of the schema. -/
def Cond.KnownIn (s : Schema) : Cond → Prop
  | .matching property _ _ => s.hasPropertyID property = true
  | .and members => AllKnown s members
  | .or members => AllKnown s members
  | _ => True

/-- Every match of the members is about a property of the schema. -/
def AllKnown (s : Schema) : List Cond → Prop
  | [] => True
  | c :: cs => c.KnownIn s ∧ AllKnown s cs
end

/-! ## Filters and their meaning -/

/-- A property of a row, relative to how the database compares values. -/
abbrev Meaning := SqlEngine → Dict → Prop

/-- A filter is turned into a predicate with this meaning. -/
def Reads (s : Schema) (filter : FilterElem) (P : Meaning) : Prop :=
  ∃ part, partOf s filter = .ok part ∧ ∀ E row, part.eval E row = .tt ↔ P E row

/-- Several filters are. -/
def ReadsAll (s : Schema) : List FilterElem → List Meaning → Prop := List.Forall₂ (Reads s)

/-- The predicates of several filters, all of them and any of them. -/
theorem ReadsAll.parts {filters : List FilterElem} {Ps : List Meaning} (h : ReadsAll s filters Ps) :
    ∃ parts, addToFilter s filters = .ok parts ∧
      (∀ E row, (∀ part ∈ parts, part.eval E row = .tt) ↔ ∀ P ∈ Ps, P E row) ∧
      ∀ E row, (∃ part ∈ parts, part.eval E row = .tt) ↔ ∃ P ∈ Ps, P E row := by
  induction h with
  | nil => exact ⟨[], by rw [addToFilter], by simp, by simp⟩
  | cons hread _ ih =>
    obtain ⟨part, hpart, hP⟩ := hread
    obtain ⟨parts, hparts, hall, hany⟩ := ih
    refine ⟨part :: parts, ?_, fun E row ↦ ?_, fun E row ↦ ?_⟩
    · rw [addToFilter_cons, hpart, hparts]
      rfl
    · rw [List.forall_mem_cons, List.forall_mem_cons, hP, hall]
    · rw [List.exists_mem_cons_iff, List.exists_mem_cons_iff, hP, hany]

theorem reads_and {filters : List FilterElem} {Ps : List Meaning} (h : ReadsAll s filters Ps) :
    Reads s (.and filters) fun E row ↦ ∀ P ∈ Ps, P E row := by
  obtain ⟨parts, hparts, hall, _⟩ := h.parts
  exact ⟨.and parts, by rw [partOf_and, hparts]; rfl, fun E row ↦ by rw [eval_and, hall]⟩

theorem reads_or {filters : List FilterElem} {Ps : List Meaning} (h : ReadsAll s filters Ps) :
    Reads s (.or filters) fun E row ↦ ∃ P ∈ Ps, P E row := by
  obtain ⟨parts, hparts, _, hany⟩ := h.parts
  exact ⟨.or parts, by rw [partOf_or, hparts]; rfl, fun E row ↦ by rw [eval_or, hany]⟩

theorem reads_true : Reads s .true fun _ _ ↦ True := ⟨.expr true, partOf_true s, by simp⟩

theorem reads_maybeEmptyAndFilter {filters : List FilterElem} {Ps : List Meaning}
    (h : ReadsAll s filters Ps) :
    Reads s (.maybeEmptyAndFilter filters) fun E row ↦ ∀ P ∈ Ps, P E row := by
  cases h with
  | nil =>
    obtain ⟨part, hpart, hP⟩ := @reads_true s
    exact ⟨part, hpart, by simpa using hP⟩
  | cons hread hrest =>
    cases hrest with
    | nil =>
      obtain ⟨part, hpart, hP⟩ := hread
      exact ⟨part, hpart, by simpa using hP⟩
    | cons hread' hrest => exact reads_and (.cons hread (.cons hread' hrest))

theorem reads_maybeEmptyOrFilter {filters : List FilterElem} {Ps : List Meaning}
    (h : ReadsAll s filters Ps) :
    Reads s (.maybeEmptyOrFilter filters) fun E row ↦ ∃ P ∈ Ps, P E row := by
  cases h with
  | nil => exact ⟨.expr false, rfl, by simp⟩
  | cons hread hrest =>
    cases hrest with
    | nil =>
      obtain ⟨part, hpart, hP⟩ := hread
      exact ⟨part, hpart, by simpa using hP⟩
    | cons hread' hrest => exact reads_or (.cons hread (.cons hread' hrest))

/-- The restriction of a match. -/
theorem reads_match {property : String} {negated : Bool} {value : Value}
    (h : s.hasPropertyID property = true) :
    Reads s (.ofMatch [("property", .str property), ("type", .str (matchType negated)),
      ("value", value)]) fun E row ↦ MatchHolds E s row property negated value := by
  obtain ⟨p, hp, -, -⟩ := Schema.getPropertyByID_of_has h
  have htype : s.typeOf property = p.type := by rw [Schema.typeOf, hp]
  cases negated with
  | true =>
    refine ⟨.notEq property (parseBoolean p.type value), ?_, fun E row ↦ ?_⟩
    · simp [partOf, FilterElem.ofMatch, List.lookup_cons, orCondition, andCondition,
        boolCondition, restriction, propertyKey, hp, comparison, matchType, bind, Except.bind]
    · simp [Sqlizer.eval, MatchHolds, htype]
  | false =>
    refine ⟨.eq property (parseBoolean p.type value), ?_, fun E row ↦ ?_⟩
    · simp [partOf, FilterElem.ofMatch, List.lookup_cons, orCondition, andCondition,
        boolCondition, restriction, propertyKey, hp, comparison, matchType, bind, Except.bind]
    · simp [Sqlizer.eval, MatchHolds, htype]

/-- The restriction of a column that may be missing. -/
theorem readsAll_ifPresent (propertyName text : String) :
    ∃ Ps, ReadsAll s (getFilterByPropertyIfPresent s propertyName (.str text)) Ps ∧
      ∀ E row, (∀ P ∈ Ps, P E row) ↔ (s.hasPropertyID propertyName = true →
        E.eq (row.get propertyName) (.str text) = .tt) := by
  rw [getFilterByPropertyIfPresent]
  split
  · next h =>
    have hread := @reads_match s propertyName false (.str text) h
    exact ⟨[_], .cons hread .nil, fun E row ↦ by
      simp [MatchHolds, parseBoolean, SqlEngine.holdsEq, h]⟩
  · next h => exact ⟨[], .nil, fun E row ↦ by simp [h]⟩

theorem Reads.congr {filter : FilterElem} {P Q : Meaning} (h : Reads s filter P)
    (hPQ : ∀ E row, P E row ↔ Q E row) : Reads s filter Q := by
  obtain ⟨part, hpart, hP⟩ := h
  exact ⟨part, hpart, fun E row ↦ (hP E row).trans (hPQ E row)⟩

/-! ## Words -/

theorem readsAll_domain (auth : Authorization) :
    ∃ Ps, ReadsAll s (auth.getDomainCustomFilter s) Ps ∧
      ∀ E row, (∀ P ∈ Ps, P E row) ↔ DomainOwned E s auth row := by
  cases auth with
  | admin tenant domain roles => exact ⟨[], .nil, by simp [DomainOwned, Authorization.isAdmin]⟩
  | _ =>
    obtain ⟨Ps, hPs, hmean⟩ := @readsAll_ifPresent s domainIDKey (Authorization.domainID _)
    exact ⟨Ps, hPs, fun E row ↦ by simp [hmean, DomainOwned, Authorization.isAdmin]⟩

theorem readsAll_tenant (auth : Authorization) :
    ∃ Ps, ReadsAll s (auth.getTenantCustomFilter s) Ps ∧
      ∀ E row, (∀ P ∈ Ps, P E row) ↔ ∀ tenant domain roles,
        auth = .tenantScoped tenant domain roles → s.hasPropertyID tenantIDKey = true →
          E.eq (row.get tenantIDKey) (.str tenant.id) = .tt := by
  cases auth with
  | tenantScoped tenant domain roles =>
    obtain ⟨Ps, hPs, hmean⟩ := @readsAll_ifPresent s tenantIDKey tenant.id
    exact ⟨Ps, hPs, fun E row ↦ by simp [hmean]⟩
  | _ => exact ⟨[], .nil, by simp⟩

/-- `is_owner`. -/
theorem reads_owner (auth : Authorization) :
    Reads s (.maybeEmptyAndFilter (auth.getTenantCustomFilter s ++ auth.getDomainCustomFilter s))
      fun E row ↦ Owned E s auth row := by
  obtain ⟨Ps, hPs, htenant⟩ := @readsAll_tenant s auth
  obtain ⟨Qs, hQs, hdomain⟩ := @readsAll_domain s auth
  refine (reads_maybeEmptyAndFilter (List.rel_append hPs hQs)).congr fun E row ↦ ?_
  rw [List.forall_mem_append, htenant, hdomain, Owned]

/-- `is_domain_owner`. -/
theorem reads_domainOwner (auth : Authorization) :
    Reads s (.maybeEmptyAndFilter (auth.getDomainCustomFilter s))
      fun E row ↦ DomainOwned E s auth row := by
  obtain ⟨Qs, hQs, hdomain⟩ := @readsAll_domain s auth
  exact (reads_maybeEmptyAndFilter hQs).congr hdomain

/-! ## Blocks -/

/-- The meaning of a condition for a caller. -/
def meaningOf (s : Schema) (auth : Authorization) (c : Cond) : Meaning :=
  fun E row ↦ c.Holds E s auth row

/-- The condition is a `match`. -/
def Cond.isMatching : Cond → Bool
  | .matching _ _ _ => true
  | _ => false

/-- The kept members in the order they are expanded, each word once. -/
def expandedMembers (cs : List Cond) : List Cond :=
  (if cs.any Cond.isIsOwner then [.isOwner] else []) ++
    (if cs.any Cond.isIsDomainOwner then [.isDomainOwner] else []) ++
    cs.filter Cond.isMatching ++ (keptAnd cs).toList ++ (keptOr cs).toList

theorem mem_expandedMembers {cs : List Cond} {c : Cond} : c ∈ expandedMembers cs ↔ c ∈ kept cs := by
  have howner : c ∈ (if cs.any Cond.isIsOwner then [Cond.isOwner] else []) ↔
      c ∈ cs ∧ c = .isOwner := by
    split
    · next h =>
      obtain ⟨d, hd, hdo⟩ := List.any_eq_true.mp h
      cases d <;> simp [Cond.isIsOwner] at hdo
      exact ⟨fun hc ↦ by rw [List.mem_singleton.mp hc]; exact ⟨hd, rfl⟩, fun hc ↦ by simp [hc.2]⟩
    · next h =>
      rw [Bool.not_eq_true, List.any_eq_false] at h
      exact ⟨fun hc ↦ by simp at hc, fun hc ↦ absurd (h c hc.1) (by simp [hc.2, Cond.isIsOwner])⟩
  have hdomain : c ∈ (if cs.any Cond.isIsDomainOwner then [Cond.isDomainOwner] else []) ↔
      c ∈ cs ∧ c = .isDomainOwner := by
    split
    · next h =>
      obtain ⟨d, hd, hdo⟩ := List.any_eq_true.mp h
      cases d <;> simp [Cond.isIsDomainOwner] at hdo
      exact ⟨fun hc ↦ by rw [List.mem_singleton.mp hc]; exact ⟨hd, rfl⟩, fun hc ↦ by simp [hc.2]⟩
    · next h =>
      rw [Bool.not_eq_true, List.any_eq_false] at h
      exact ⟨fun hc ↦ by simp at hc,
        fun hc ↦ absurd (h c hc.1) (by simp [hc.2, Cond.isIsDomainOwner])⟩
  simp only [expandedMembers, kept, List.mem_append, howner, hdomain, List.mem_filter]
  cases c <;> simp [Cond.isMatching, Cond.isLeaf]

theorem readsAll_matches {cs : List Cond} (hk : AllKnown s cs) :
    ReadsAll s ((cs.filterMap Cond.match?).map .ofMatch)
      ((cs.filter Cond.isMatching).map (meaningOf s auth)) := by
  induction cs with
  | nil => exact .nil
  | cons c cs ih =>
    obtain ⟨hc, hcs⟩ := hk
    cases c with
    | matching property negated value => exact .cons (reads_match hc) (ih hcs)
    | _ => exact ih hcs

/-- What a slot is expanded to means what is kept for it. -/
def SlotReads (s : Schema) (auth : Authorization) (slot : Option ConditionFilter)
    (child : Option Cond) : Prop :=
  ∃ filters, expandSlot s auth none slot = .ok filters ∧
    ReadsAll s filters (child.toList.map (meaningOf s auth))

/-- What a block is expanded to means what its kept members mean. -/
theorem reads_block (filterType : ConditionFilterType) {cs : List Cond} (hk : AllKnown s cs)
    (hand : SlotReads s auth (andSlot cs) (keptAnd cs))
    (hor : SlotReads s auth (orSlot cs) (keptOr cs)) :
    ∃ filters, expand s auth none (blockOf filterType cs) = .ok filters ∧
      ReadsAll s filters ((expandedMembers cs).map (meaningOf s auth)) := by
  obtain ⟨ands, hands, hreadAnd⟩ := hand
  obtain ⟨ors, hors, hreadOr⟩ := hor
  refine ⟨_, by simp only [blockOf, expand, ownFilters, hands, hors, bind, Except.bind]; rfl, ?_⟩
  simp only [expandedMembers, List.map_append]
  refine List.rel_append (List.rel_append (List.rel_append ?_ (readsAll_matches hk)) hreadAnd)
    hreadOr
  refine List.rel_append ?_ ?_
  · simp only [List.nil_append]
    split
    · exact .cons (reads_owner auth) .nil
    · exact .nil
  · split
    · exact .cons (reads_domainOwner auth) .nil
    · exact .nil

/-- The last `and` child, expanded. -/
theorem slotReads_and {cs : List Cond} (h : ∃ filters,
      expand s auth none (blockOf .andFilter cs) = .ok filters ∧
        ReadsAll s filters ((expandedMembers cs).map (meaningOf s auth))) :
    SlotReads s auth (some (blockOf .andFilter cs)) (some (.and (kept cs))) := by
  obtain ⟨filters, hexp, hread⟩ := h
  refine ⟨[.and filters], by rw [expandSlot, hexp]; rfl, .cons ?_ .nil⟩
  refine (reads_and hread).congr fun E row ↦ ?_
  rw [meaningOf, Cond.Holds, allHold_iff]
  simp only [List.forall_mem_map, mem_expandedMembers, meaningOf]

/-- The last `or` child, expanded. -/
theorem slotReads_or {cs : List Cond} (h : ∃ filters,
      expand s auth none (blockOf .orFilter cs) = .ok filters ∧
        ReadsAll s filters ((expandedMembers cs).map (meaningOf s auth))) :
    SlotReads s auth (some (blockOf .orFilter cs)) (some (.or (kept cs))) := by
  obtain ⟨filters, hexp, hread⟩ := h
  refine ⟨[.or filters], by rw [expandSlot, hexp]; rfl, .cons ?_ .nil⟩
  refine (reads_or hread).congr fun E row ↦ ?_
  rw [meaningOf, Cond.Holds, anyHolds_iff]
  simp [mem_expandedMembers, meaningOf]

/-- A slot that is already taken keeps what it has. -/
theorem SlotReads.or {slot slot' : Option ConditionFilter} {child child' : Option Cond}
    (h : SlotReads s auth slot child) (hsome : slot.isSome = child.isSome)
    (h' : SlotReads s auth slot' child') : SlotReads s auth (slot.or slot') (child.or child') := by
  cases slot with
  | none =>
    cases child with
    | none => exact h'
    | some c => simp at hsome
  | some f =>
    cases child with
    | none => simp at hsome
    | some c => exact h

mutual
theorem reads_andSlot : ∀ {cs : List Cond}, AllKnown s cs →
    SlotReads s auth (andSlot cs) (keptAnd cs)
  | [], _ => ⟨[], by rw [andSlot, expandSlot], by rw [keptAnd]; exact .nil⟩
  | c :: cs, hk => by
    have hrest : SlotReads s auth (andSlot cs) (keptAnd cs) := reads_andSlot hk.2
    cases c with
    | and ds =>
      rw [andSlot_and, keptAnd_and]
      exact hrest.or (isSome_andSlot cs)
        (slotReads_and (reads_block .andFilter hk.1 (reads_andSlot hk.1) (reads_orSlot hk.1)))
    | _ => rw [andSlot, keptAnd] <;> first | exact hrest | simp

theorem reads_orSlot : ∀ {cs : List Cond}, AllKnown s cs →
    SlotReads s auth (orSlot cs) (keptOr cs)
  | [], _ => ⟨[], by rw [orSlot, expandSlot], by rw [keptOr]; exact .nil⟩
  | c :: cs, hk => by
    have hrest : SlotReads s auth (orSlot cs) (keptOr cs) := reads_orSlot hk.2
    cases c with
    | or ds =>
      rw [orSlot_or, keptOr_or]
      exact hrest.or (isSome_orSlot cs)
        (slotReads_or (reads_block .orFilter hk.1 (reads_andSlot hk.1) (reads_orSlot hk.1)))
    | _ => rw [orSlot, keptOr] <;> first | exact hrest | simp
end

end Gohan
