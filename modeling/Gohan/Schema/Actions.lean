import Gohan.Schema.CustomFilter
import Gohan.Schema.PropertyCondition

/-!
# Conditions for every action

A `belongs_to` or `property` entry may say which action it is for.  One that says `*`, or nothing,
is for all of them, and it is entered in the tables of a compiled condition under each of
`allActions`: create, read, update and delete.

A policy may also be for a custom action of a schema, or for attaching one resource to another, and
those are looked up under names of their own.  `nameAction` rewrites a condition list so that such
an entry names the action instead, and `asIfNamed_iff` says when the two lists come to the same
thing for the action: when it is one of the four, or when there is no such entry to begin with.
-/

set_option autoImplicit false

namespace Gohan

/-! ## Entries without an action -/

/-- Does a dictionary leave its action open? -/
def leavesActionOpen (conditionObject : List (String × Value)) : Bool :=
  match conditionObject.lookup "action" with
  | none => true
  | some (.str action) => action == actionGlob
  | some _ => false

/-- Is the entry a dictionary of the given type that leaves its action open? -/
def isOpen (conditionType : String) : Value → Bool
  | .map m => m.lookup "type" == some (.str conditionType) && leavesActionOpen m
  | _ => false

/-- The dictionary with its action named. -/
def withAction (action : String) (m : List (String × Value)) : List (String × Value) :=
  ("action", .str action) :: m.filter (·.1 != "action")

/-- An entry with its action named, if it is one that leaves it open. -/
def nameAction (tenantAction action : String) : Value → Value
  | .map m =>
    if isOpen "belongs_to" (.map m) then .map (withAction tenantAction m)
    else if isOpen "property" (.map m) then .map (withAction action m)
    else .map m
  | condition => condition

/-- The action under which the tenants allowed for an action are looked up.  When a resource is
attached to another, the other one has to be readable. -/
def tenantAction (action : String) : String :=
  if action = actionAttach then actionRead else action

theorem lookup_withAction {action key : String} {m : List (String × Value)} (h : key ≠ "action") :
    (withAction action m).lookup key = m.lookup key := by
  have hkey : (key == "action") = false := by simpa using h
  rw [withAction, List.lookup_cons, hkey]
  induction m with
  | nil => rfl
  | cons e m ih =>
    obtain ⟨k, v⟩ := e
    by_cases hk : k = "action"
    · have hne : (key == k) = false := by rw [hk, hkey]
      simpa [List.lookup_cons, hk, hne, hkey] using ih
    · simp only [List.filter_cons, bne_iff_ne, ne_eq, hk, not_false_iff, if_true, List.lookup_cons]
      cases key == k <;> simp [ih]

/-- The actions a dictionary is entered for once it names one. -/
def namedActions (action : String) : List String :=
  if action = actionGlob then allActions else [action]

theorem actionsOf_withAction (action : String) (m : List (String × Value)) :
    actionsOf (withAction action m) = .ok (namedActions action) := by
  simp [actionsOf, withAction, namedActions]

theorem actionsOf_of_open {m : List (String × Value)} (h : leavesActionOpen m = true) :
    actionsOf m = .ok allActions := by
  rw [leavesActionOpen] at h
  rw [actionsOf]
  cases hm : m.lookup "action" with
  | none => rfl
  | some v =>
    rw [hm] at h
    cases v with
    | str action =>
      have hglob : action = actionGlob := by simpa using h
      exact congrArg Except.ok (if_pos hglob)
    | _ => cases h

variable [RegexpEngine]

theorem belongsToTenant_withAction (action : String) (m : List (String × Value)) :
    belongsToTenant (withAction action m) = belongsToTenant m := by
  rw [belongsToTenant, belongsToTenant, lookup_withAction (by decide),
    lookup_withAction (by decide)]

/-- An open `belongs_to` entry, as it is and with its action named. -/
theorem parseEntry_open_belongsTo {policyID action : String} {m : List (String × Value)} {e : Entry}
    (hopen : isOpen "belongs_to" (.map m) = true) (h : parseEntry policyID (.map m) = .ok e) :
    ∃ tenant, e = .belongsTo allActions tenant ∧
      parseEntry policyID (.map (withAction action m)) =
        .ok (.belongsTo (namedActions action) tenant) := by
  obtain ⟨htype, hact⟩ := (Bool.and_eq_true _ _).mp hopen
  rw [beq_iff_eq] at htype
  simp only [parseEntry, htype, actionsOf_of_open hact, if_true, Go.bind_eq_ok] at h
  obtain ⟨_, ⟨⟩, tenant, htenant, ⟨⟩⟩ := h
  refine ⟨tenant, rfl, ?_⟩
  simp only [parseEntry, lookup_withAction (show "type" ≠ "action" by decide), htype,
    actionsOf_withAction, belongsToTenant_withAction, htenant, if_true]
  rfl

/-- An open `property` entry, as it is and with its action named. -/
theorem parseEntry_open_property {policyID action : String} {m : List (String × Value)} {e : Entry}
    (hopen : isOpen "property" (.map m) = true) (h : parseEntry policyID (.map m) = .ok e) :
    ∃ allowed, e = .property allActions allowed ∧
      parseEntry policyID (.map (withAction action m)) =
        .ok (.property (namedActions action) allowed) := by
  obtain ⟨htype, hact⟩ := (Bool.and_eq_true _ _).mp hopen
  rw [beq_iff_eq] at htype
  have hne : Value.str "property" ≠ .str "belongs_to" := by decide
  simp only [parseEntry, htype, actionsOf_of_open hact, if_neg hne, if_true, Go.bind_eq_ok] at h
  obtain ⟨_, ⟨⟩, h⟩ := h
  simp only [parseEntry, lookup_withAction (show "type" ≠ "action" by decide), htype,
    actionsOf_withAction, if_neg hne, if_true,
    lookup_withAction (show "match" ≠ "action" by decide)]
  split at h
  · next allowed hmatch =>
    cases h
    exact ⟨allowed, rfl, rfl⟩
  · simp at h

/-! ## The two tables -/

/-- An action an entry for all actions is entered for, if only because naming `*` is no different
from naming none. -/
def Listed (action : String) : Prop := action = actionGlob ∨ action ∈ allActions

omit [RegexpEngine] in
theorem count_allActions_of_listed {action : String} (h : Listed action) :
    allActions.count action = (namedActions action).count action := by
  unfold namedActions
  split
  · rfl
  · next hne =>
    rw [List.count_eq_one_of_mem (by decide) (h.resolve_left hne), List.count_singleton_self]

omit [RegexpEngine] in
theorem count_allActions_of_not_listed {action : String} (h : ¬ Listed action) :
    allActions.count action = 0 ∧ (namedActions action).count action = 1 := by
  obtain ⟨hne, hmem⟩ := not_or.mp h
  exact ⟨List.count_eq_zero_of_not_mem hmem, by
    rw [namedActions, if_neg hne, List.count_singleton_self]⟩

section Parts

variable {α β : Type} {f g : α → List β} {l : List α}

omit [RegexpEngine] in
theorem length_flatMap_le (h : ∀ x ∈ l, f x = g x ∨ f x = []) :
    (l.flatMap f).length ≤ (l.flatMap g).length := by
  induction l with
  | nil => simp
  | cons x l ih =>
    rw [List.forall_mem_cons] at h
    simp only [List.flatMap_cons, List.length_append]
    have hx : (f x).length ≤ (g x).length := by
      rcases h.1 with heq | hnil
      · rw [heq]
      · simp [hnil]
    exact Nat.add_le_add hx (ih h.2)

omit [RegexpEngine] in
/-- Two lists put together from parts, where a part of the first is the part of the second or is
missing, are equal exactly when no part is missing. -/
theorem flatMap_eq_flatMap_iff (h : ∀ x ∈ l, f x = g x ∨ f x = []) :
    l.flatMap f = l.flatMap g ↔ ∀ x ∈ l, f x = g x := by
  induction l with
  | nil => simp
  | cons x l ih =>
    rw [List.forall_mem_cons] at h ⊢
    rw [List.flatMap_cons, List.flatMap_cons]
    constructor
    · intro heq
      have hx : f x = g x := by
        by_contra hne
        have hnil := h.1.resolve_left hne
        have hpos : 0 < (g x).length := List.length_pos_iff.mpr fun hg ↦ hne (hnil.trans hg.symm)
        have hlen := congrArg List.length heq
        have hle := length_flatMap_le h.2
        simp only [hnil, List.nil_append, List.length_append] at hlen
        omega
      rw [hx, List.append_cancel_left_eq] at heq
      exact ⟨hx, (ih h.2).mp heq⟩
    · rintro ⟨hx, hl⟩
      rw [hx, (ih h.2).mpr hl]

end Parts

/-! ## As if the action were named -/

variable {policyID : String} {tenantAct act : String}

/-- What naming the action makes of an entry that can be read. -/
inductive NamedEntry (tenantAct act : String) (c : Value) : Entry → Entry → Prop
  | tenant (tenant : AllowedTenant) (hopen : isOpen "belongs_to" c = true) :
      NamedEntry tenantAct act c (.belongsTo allActions tenant)
        (.belongsTo (namedActions tenantAct) tenant)
  | property (allowed : List (String × Value)) (hopen : isOpen "property" c = true) :
      NamedEntry tenantAct act c (.property allActions allowed)
        (.property (namedActions act) allowed)
  | same (e : Entry) (htenant : isOpen "belongs_to" c = false)
      (hproperty : isOpen "property" c = false) : NamedEntry tenantAct act c e e

/-- Naming the action leaves an entry readable. -/
theorem parseEntry_nameAction {c : Value} {e : Entry} (h : parseEntry policyID c = .ok e) :
    ∃ e', parseEntry policyID (nameAction tenantAct act c) = .ok e' ∧
      NamedEntry tenantAct act c e e' := by
  cases c with
  | map m =>
    cases hten : isOpen "belongs_to" (.map m) with
    | true =>
      obtain ⟨tenant, rfl, h'⟩ := parseEntry_open_belongsTo hten h
      exact ⟨_, by rw [nameAction, if_pos hten]; exact h', .tenant tenant hten⟩
    | false =>
      cases hprop : isOpen "property" (.map m) with
      | true =>
        obtain ⟨allowed, rfl, h'⟩ := parseEntry_open_property hprop h
        exact ⟨_, by simp only [nameAction, hten, hprop]; exact h', .property allowed hprop⟩
      | false =>
        exact ⟨e, by simp only [nameAction, hten, hprop]; exact h, .same e hten hprop⟩
  | _ => exact ⟨e, h, .same e rfl rfl⟩

/-- What the conditions of a list and of the list with the action named are read as. -/
theorem namedEntry_entryOf {c : Value} (h : ∃ e, parseEntry policyID c = .ok e) :
    (∃ e', parseEntry policyID (nameAction tenantAct act c) = .ok e') ∧
      NamedEntry tenantAct act c (entryOf policyID c)
        (entryOf policyID (nameAction tenantAct act c)) := by
  obtain ⟨e, he⟩ := h
  obtain ⟨e', he', hnamed⟩ := parseEntry_nameAction he
  exact ⟨⟨e', he'⟩, by rwa [entryOf_of_parseEntry he, entryOf_of_parseEntry he']⟩

omit [RegexpEngine] in
theorem isOpen_property_of_belongsTo {c : Value} (h : isOpen "belongs_to" c = true) :
    isOpen "property" c = false := by
  cases c <;> simp_all [isOpen]

/-- What naming the action does to the tenants an entry adds. -/
theorem NamedEntry.tenants {c : Value} {e e' : Entry} (h : NamedEntry tenantAct act c e e') :
    (e.tenants tenantAct = e'.tenants tenantAct ∨ e.tenants tenantAct = []) ∧
      (e.tenants tenantAct = e'.tenants tenantAct ↔
        Listed tenantAct ∨ isOpen "belongs_to" c = false) := by
  cases h with
  | tenant tenant hopen =>
    by_cases hl : Listed tenantAct
    · simp [Entry.tenants, count_allActions_of_listed hl, hl]
    · simp [Entry.tenants, count_allActions_of_not_listed hl, hl, hopen]
  | property allowed hopen =>
    have : isOpen "belongs_to" c = false := by
      by_contra hne
      have := isOpen_property_of_belongsTo (Bool.of_not_eq_false hne)
      simp_all
    simp [Entry.tenants, this]
  | same e hten hprop => simp [hten]

/-- What naming the action does to the property matches an entry adds. -/
theorem NamedEntry.properties {c : Value} {e e' : Entry} (h : NamedEntry tenantAct act c e e') :
    (e.properties act = e'.properties act ∨ e.properties act = []) ∧
      (e.properties act = e'.properties act ↔ Listed act ∨ isOpen "property" c = false) := by
  cases h with
  | tenant tenant hopen => simp [Entry.properties, isOpen_property_of_belongsTo hopen]
  | property allowed hopen =>
    by_cases hl : Listed act
    · simp [Entry.properties, count_allActions_of_listed hl, hl]
    · simp [Entry.properties, count_allActions_of_not_listed hl, hl, hopen]
  | same e hten hprop => simp [hprop]

/-- The entries for an action, as the check of that action finds them: the tenants allowed and the
property matches enforced are the same in both compiled conditions. -/
def SameEffect (action : String) (p p' : ResourceCondition) : Prop :=
  p.actionTenantFilter.getSlice (tenantAction action) =
      p'.actionTenantFilter.getSlice (tenantAction action) ∧
    p.actionPropertyConditionFilter.getSlice action =
      p'.actionPropertyConditionFilter.getSlice action

/-- **When an entry without an action is as good as one that names it.**  Its tenants are allowed,
and its matches enforced, when the name the check looks them up under is one of the four. -/
theorem asIfNamed_iff {conditions : List Value} {p : ResourceCondition} (action : String)
    (h : newResourceCondition conditions policyID = .ok p) :
    ∃ p', newResourceCondition (conditions.map (nameAction (tenantAction action) action))
        policyID = .ok p' ∧
      (SameEffect action p p' ↔
        (Listed (tenantAction action) ∨ ∀ c ∈ conditions, isOpen "belongs_to" c = false) ∧
        (Listed action ∨ ∀ c ∈ conditions, isOpen "property" c = false)) := by
  obtain ⟨hread, rfl⟩ := addConditions_eq_ok.mp h
  have hnamed := fun c hc ↦
    @namedEntry_entryOf _ policyID (tenantAction action) action c (hread c hc)
  refine ⟨_, addConditions_eq_ok.mpr ⟨?_, rfl⟩, ?_⟩
  · simpa using fun c hc ↦ (hnamed c hc).1
  · simp only [SameEffect, getSlice_foldl_add_tenants, getSlice_foldl_add_properties,
      GoMap.getSlice_empty, List.nil_append, List.flatMap_map]
    rw [flatMap_eq_flatMap_iff fun c hc ↦ (hnamed c hc).2.tenants.1,
      flatMap_eq_flatMap_iff fun c hc ↦ (hnamed c hc).2.properties.1,
      forall₂_congr fun c hc ↦ (hnamed c hc).2.tenants.2,
      forall₂_congr fun c hc ↦ (hnamed c hc).2.properties.2]
    simp only [forall_or_left]

/-- A condition that names no action. -/
def activeOnly : List Value :=
  [.map [("type", .str "property"), ("match", .map [("status", .str "ACTIVE")])]]

omit [RegexpEngine] in
/-- In a policy for creating, it need not. -/
theorem asIfNamed_create : letI := Re2.engine
    ∃ p p', newResourceCondition activeOnly "member" = .ok p ∧
      newResourceCondition (activeOnly.map (nameAction (tenantAction "create") "create"))
        "member" = .ok p' ∧
      (SameEffect "create" p p' ↔
        (Listed (tenantAction "create") ∨ ∀ c ∈ activeOnly, isOpen "belongs_to" c = false) ∧
        (Listed "create" ∨ ∀ c ∈ activeOnly, isOpen "property" c = false)) := by
  obtain ⟨p', hp', hiff⟩ := @asIfNamed_iff Re2.engine "member" activeOnly _ "create" rfl
  exact ⟨_, p', rfl, hp', hiff⟩

omit [RegexpEngine] in
/-- In a policy for a custom action `reboot`, as the policy documentation has it, the condition is
entered for four other actions and not for this one. -/
theorem not_asIfNamed_reboot : letI := Re2.engine
    ∃ p p', newResourceCondition activeOnly "member" = .ok p ∧
      newResourceCondition (activeOnly.map (nameAction (tenantAction "reboot") "reboot"))
        "member" = .ok p' ∧
      ¬ SameEffect "reboot" p p' := by
  refine ⟨_, _, rfl, rfl, fun h ↦ ?_⟩
  exact absurd h.2 (by decide)

/-! ## What else the checks read

Beside the two tables, a check reads the words of a condition and its block.  Naming the action
leaves those alone, so where the tables are the same for an action, so is every check of it. -/

/-- The two conditions have the same words and the same block. -/
structure SameWords (p p' : ResourceCondition) : Prop where
  requireOwner : p.requireOwner = p'.requireOwner
  requireDomainOwner : p.requireDomainOwner = p'.requireDomainOwner
  skipTenantDomainCheck : p.skipTenantDomainCheck = p'.skipTenantDomainCheck
  actionFilter : p.actionFilter = p'.actionFilter

variable {p p' : ResourceCondition} {action : String}

theorem SameWords.add {c : Value} {e e' : Entry} (hw : SameWords p p')
    (h : NamedEntry tenantAct act c e e') : SameWords (p.add e) (p'.add e') := by
  cases h with
  | tenant tenant hopen => exact ⟨hw.1, hw.2, hw.3, hw.4⟩
  | property allowed hopen => exact ⟨hw.1, hw.2, hw.3, hw.4⟩
  | same e hten hprop =>
    cases e with
    | isOwner => exact ⟨rfl, hw.2, hw.3, hw.4⟩
    | isDomainOwner => exact ⟨hw.1, rfl, hw.3, hw.4⟩
    | skipTenantDomainCheck => exact ⟨hw.1, hw.2, rfl, hw.4⟩
    | block filter => exact ⟨hw.1, hw.2, hw.3, rfl⟩
    | _ => exact ⟨hw.1, hw.2, hw.3, hw.4⟩

/-- **Naming the action leaves the words and the block alone.** -/
theorem sameWords_of_named {conditions : List Value}
    (h : newResourceCondition conditions policyID = .ok p)
    (h' : newResourceCondition (conditions.map (nameAction tenantAct act)) policyID = .ok p') :
    SameWords p p' := by
  obtain ⟨hread, rfl⟩ := addConditions_eq_ok.mp h
  obtain ⟨-, rfl⟩ := addConditions_eq_ok.mp h'
  have hfold : ∀ (cs : List Value), (∀ c ∈ cs, ∃ e, parseEntry policyID c = .ok e) →
      ∀ p p', SameWords p p' → SameWords ((cs.map (entryOf policyID)).foldl ResourceCondition.add p)
        (((cs.map (nameAction tenantAct act)).map (entryOf policyID)).foldl
          ResourceCondition.add p') := by
    intro cs
    induction cs with
    | nil => exact fun _ p p' hw ↦ hw
    | cons c cs ih =>
      intro hcs p p' hw
      rw [List.forall_mem_cons] at hcs
      exact ih hcs.2 _ _ (hw.add (namedEntry_entryOf hcs.1).2)
  exact hfold conditions hread _ _ ⟨rfl, rfl, rfl, rfl⟩

theorem SameWords.requireTenantCheck (hw : SameWords p p') :
    p.requireTenantCheck = p'.requireTenantCheck := hw.requireOwner

theorem SameWords.requireDomainCheck (hw : SameWords p p') :
    p.requireDomainCheck = p'.requireDomainCheck := by
  rw [ResourceCondition.requireDomainCheck, hw.requireOwner, hw.requireDomainOwner]
  rfl

theorem SameWords.isTenantAllowed (hw : SameWords p p')
    (ht : p.actionTenantFilter.getSlice action = p'.actionTenantFilter.getSlice action)
    (owner tenant : TenantMatcher) :
    p.isTenantAllowed action owner tenant = p'.isTenantAllowed action owner tenant := by
  have hfilter : p.getTenantFilter action tenant = p'.getTenantFilter action tenant := by
    rw [ResourceCondition.getTenantFilter, hw.requireOwner, ht]
    rfl
  rw [ResourceCondition.isTenantAllowed, hfilter]
  rfl

theorem SameWords.checkAccessToResource (hw : SameWords p p')
    (ht : p.actionTenantFilter.getSlice action = p'.actionTenantFilter.getSlice action)
    (auth : Authorization) (resource : Dict) :
    auth.checkAccessToResource p action resource =
      auth.checkAccessToResource p' action resource := by
  cases auth with
  | tenantScoped tenant domain roles =>
    have htenant : checkTenantAccess p action tenant resource =
        checkTenantAccess p' action tenant resource := by
      rw [checkTenantAccess, checkTenantAccess]
      simp only [hw.isTenantAllowed ht]
    rw [Authorization.checkAccessToResource, hw.requireTenantCheck, hw.requireDomainCheck, htenant]
    rfl
  | domainScoped domain roles =>
    rw [Authorization.checkAccessToResource, hw.requireDomainCheck]
    rfl
  | admin tenant domain roles => rfl

theorem SameWords.getTenantAndDomainFilters (hw : SameWords p p')
    (ht : p.actionTenantFilter.getSlice action = p'.actionTenantFilter.getSlice action)
    (auth : Authorization) :
    p.getTenantAndDomainFilters action auth = p'.getTenantAndDomainFilters action auth := by
  have hauth : auth.getTenantAndDomainFilters p action =
      auth.getTenantAndDomainFilters p' action := by
    cases auth <;> simp only [Authorization.getTenantAndDomainFilters, ht]
  rw [ResourceCondition.getTenantAndDomainFilters, hw.requireTenantCheck, hw.requireDomainCheck,
    hauth]
  rfl

theorem SameWords.addCustomFilters (hw : SameWords p p') (s : Schema) (filters : GoMap FilterVal)
    (auth : Authorization) :
    p.addCustomFilters s filters auth = p'.addCustomFilters s filters auth := by
  rw [ResourceCondition.addCustomFilters, ResourceCondition.addCustomFilters, hw.actionFilter]

theorem SameWords.addCustomFiltersWithTenancy (hw : SameWords p p') (s : Schema)
    (filters : GoMap FilterVal) (auth : Authorization) (tenancy : Option Tenancy) :
    p.addCustomFiltersWithTenancy s filters auth tenancy =
      p'.addCustomFiltersWithTenancy s filters auth tenancy := by
  rw [ResourceCondition.addCustomFiltersWithTenancy,
    ResourceCondition.addCustomFiltersWithTenancy, hw.actionFilter]

end Gohan
