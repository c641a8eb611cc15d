import Gohan.Logic.Visit
import Gohan.Schema.Condition

/-!
# Property conditions

A `property` entry of a policy restricts the values a resource may have.  Its `match` is a map from
property to *allowed value*, and there are three shapes of allowed value: a single value, a list of
values, and a dictionary from the present value to the value an update may change it to.

`applyPropertyConditionFilter` is the check: it runs over the matches entered for an action, over
the keys of each match in whatever order Go visits them, and stops at the first key that rejects.
This file says what the check decides.

* `KeyHolds R` is what *one* key requires, relative to a test `R` of an allowed value against an
  actual one.  With `R := Admits` it is the documented meaning of the key; with `R := Passes` it is
  the test the code performs, `util.Match`.
* `applyFilter_cons_eq_ok` says how the loop over one match goes on after a key.  A dictionary key
  that accepts ends the loop at once when there is no candidate to look at (`ShortCircuits`), so
  what comes after it in that order is not looked at.
* `decidesAsDocumented_iff` is the result: over all iteration orders, the check is the documented
  one exactly when `util.Match` decides the keys that accept as documented, and a rejection is not
  hidden behind a short-circuiting key.
-/

set_option autoImplicit false

namespace Gohan

/-! ## `util.Match` -/

/-- The loop of `Match` over a list. -/
def matchAny : List Value → Value → Go Bool
  | [], _ => .ok false
  | item :: items, b => do
    if ← item.ifaceEq b then .ok true else matchAny items b

/-- `util.Match`: a string by `==`, a list by membership, and nothing else. -/
def utilMatch : Value → Value → Go Bool
  | .str s, b => .ok (b == .str s)
  | .list items, b => matchAny items b
  | _, _ => .ok false

/-! ## What an allowed value means -/

/-- The two values are the same JSON value: numbers are compared as numbers, whatever Go type holds
them, and the entries of a dictionary have no order. -/
inductive Value.Same : Value → Value → Prop
  | refl (v : Value) : Same v v
  | intFloat (n : ℤ) : Same (.int n) (.float n)
  | floatInt (n : ℤ) : Same (.float n) (.int n)
  | strsList (ss : List String) : Same (.strs ss) (.list (ss.map .str))
  | listStrs (ss : List String) : Same (.list (ss.map .str)) (.strs ss)
  | list {as bs : List Value} (h : List.Forall₂ Same as bs) : Same (.list as) (.list bs)
  | map {m n : List (String × Value)} (hkeys : ∀ k, (m.lookup k).isSome = (n.lookup k).isSome)
      (h : ∀ k v w, m.lookup k = some v → n.lookup k = some w → Same v w) : Same (.map m) (.map n)

theorem Value.same_str {s : String} {v : Value} : Value.Same (.str s) v ↔ v = .str s := by
  constructor
  · rintro ⟨⟩
    rfl
  · rintro rfl
    exact .refl _

/-- A list admits its members, any other value admits itself. -/
def Admits : Value → Value → Prop
  | .list items, v => ∃ item ∈ items, item.Same v
  | a, v => a.Same v

/-- Can Go compare the value to another one of the same type? -/
def Value.comparable : Value → Bool
  | .strs _ => false
  | .list _ => false
  | .map _ => false
  | _ => true

/-- What `util.Match` accepts: a string accepts the same string, and a list accepts its own members
of a comparable type. -/
def Passes : Value → Value → Prop
  | .str s, v => v = .str s
  | .list items, v => v ∈ items ∧ v.comparable = true
  | _, _ => False

instance (allowed v : Value) : Decidable (Passes allowed v) := by
  cases allowed <;> unfold Passes <;> infer_instance

/-- **Nothing passes that is not admitted.** -/
theorem Passes.admits {allowed v : Value} (h : Passes allowed v) : Admits allowed v := by
  cases allowed with
  | str s =>
    rw [show v = .str s from h]
    exact .refl _
  | list items => exact ⟨v, h.1, .refl v⟩
  | _ => exact h.elim

theorem ifaceEq_of_comparable {a v : Value} (h : v.comparable = true) :
    a.ifaceEq v = .ok (a == v) := by
  cases v <;> cases a <;> first | rfl | simp [Value.comparable] at h

theorem comparable_of_ifaceEq {a v : Value} (h : a.ifaceEq v = .ok true) :
    v.comparable = true := by
  have hav : a = v := Value.eq_of_ifaceEq h
  subst hav
  cases a <;> first | rfl | simp [Value.ifaceEq] at h

/-- A panic inside `Match` is not an acceptance: only a member of a comparable type is found. -/
theorem matchAny_eq_ok {items : List Value} {v : Value} :
    matchAny items v = .ok true ↔ v ∈ items ∧ v.comparable = true := by
  induction items with
  | nil => simp [matchAny]
  | cons item items ih =>
    rw [matchAny, Go.bind_eq_ok, List.mem_cons]
    constructor
    · rintro ⟨eq, heq, h⟩
      cases eq with
      | true => exact ⟨.inl (Value.eq_of_ifaceEq heq).symm, comparable_of_ifaceEq heq⟩
      | false => exact ⟨.inr (ih.mp h).1, (ih.mp h).2⟩
    · rintro ⟨hmem, hv⟩
      refine ⟨item == v, ifaceEq_of_comparable hv, ?_⟩
      by_cases heq : item = v
      · simp [heq]
      · have : v ∈ items := hmem.resolve_left (Ne.symm heq)
        simpa [heq] using ih.mpr ⟨this, hv⟩

theorem utilMatch_eq_ok {allowed v : Value} :
    utilMatch allowed v = .ok true ↔ Passes allowed v := by
  cases allowed with
  | str s => simp [utilMatch, Passes]
  | list items => exact matchAny_eq_ok
  | _ => simp [utilMatch, Passes]

/-- What one key of a match requires of the data, and of the candidate when there is one, relative
to a test of an allowed value against an actual one. -/
def KeyHolds (R : Value → Value → Prop) (data : Dict) (candidate : Option Dict)
    (e : String × Value) : Prop :=
  match e.2 with
  | .map dict => ∃ s next, data.get e.1 = .str s ∧ dict.lookup s = some next ∧
      ∀ c, candidate = some c → R next (c.get e.1)
  | allowed => R allowed (data.get e.1)

/-- A dictionary key whose dictionary has the present value of the property. -/
def ShortCircuits (data : Dict) (e : String × Value) : Prop :=
  ∃ dict s next, e.2 = .map dict ∧ data.get e.1 = .str s ∧ dict.lookup s = some next

/-! ## The check -/

/-- The loop over one match, in the order its entries are given. -/
def applyFilter (data : Dict) (updateCandidateData : Option Dict) :
    List (String × Value) → Go Unit
  | [] => .ok ()
  | (key, rawAllowedValue) :: filter =>
    let value := data.get key
    match rawAllowedValue with
    | .map allowedValueMap =>
      match value with
      | .str stringValue =>
        match allowedValueMap.lookup stringValue with
        | none => .errorf "Rejected by property filter %s %s" [.map allowedValueMap, value]
        | some allowedNextValue =>
          match updateCandidateData with
          -- `continue FilterLoop`: the remaining keys of this match are not visited
          | none => .ok ()
          | some candidate => do
            if ← utilMatch allowedNextValue (candidate.get key) then
              applyFilter data updateCandidateData filter
            else
              .errorf "Rejected by property filter %s %s"
                [allowedNextValue, candidate.get stringValue]
      | _ => .errorf "Rejected by property filter"
    | _ => do
      if ← utilMatch rawAllowedValue value then applyFilter data updateCandidateData filter
      else .errorf "Rejected by property filter %s %s" [rawAllowedValue, value]

/-- The loop over the matches. -/
def applyFilters (data : Dict) (updateCandidateData : Option Dict) :
    List (List (String × Value)) → Go Unit
  | [] => .ok ()
  | filter :: filters => do
    applyFilter data updateCandidateData filter
    applyFilters data updateCandidateData filters

/-- `ApplyPropertyConditionFilter`. -/
def ResourceCondition.applyPropertyConditionFilter [RegexpEngine] (p : ResourceCondition)
    (action : String) (data : Dict) (updateCandidateData : Option Dict) : Go Unit :=
  applyFilters data updateCandidateData (p.actionPropertyConditionFilter.getSlice action)

variable {data : Dict} {candidate : Option Dict}

/-- A test of the code that ends in an error when it fails. -/
theorem bind_utilMatch_eq_ok {allowed v : Value} {rest fail : Go Unit} (hfail : fail ≠ .ok ()) :
    (utilMatch allowed v >>= fun b ↦ if b = true then rest else fail) = .ok () ↔
      Passes allowed v ∧ rest = .ok () := by
  rw [Go.bind_eq_ok, ← utilMatch_eq_ok]
  constructor
  · rintro ⟨b, hb, h⟩
    cases b with
    | true => exact ⟨hb, h⟩
    | false => exact absurd h hfail
  · rintro ⟨hp, h⟩
    exact ⟨true, hp, h⟩

/-- Whether the loop goes on after a key, and how, is decided by the key alone. -/
theorem applyFilter_cons_eq_ok {e : String × Value} {filter : List (String × Value)} :
    applyFilter data candidate (e :: filter) = .ok () ↔ KeyHolds Passes data candidate e ∧
      (candidate = none ∧ ShortCircuits data e ∨ applyFilter data candidate filter = .ok ()) := by
  obtain ⟨key, allowed⟩ := e
  cases allowed with
  | map dict =>
    cases hv : data.get key with
    | str s =>
      cases hl : dict.lookup s with
      | none => simp [applyFilter, KeyHolds, hv, hl]
      | some next =>
        cases candidate with
        | none => simp [applyFilter, KeyHolds, ShortCircuits, hv, hl]
        | some c => simp [applyFilter, KeyHolds, hv, hl, bind_utilMatch_eq_ok]
    | _ => simp [applyFilter, KeyHolds, hv]
  | _ => simp [applyFilter, KeyHolds, ShortCircuits, bind_utilMatch_eq_ok]

/-! ## Over all iteration orders -/

/-- In the worst order a match accepts only if every key does: a key that rejects may come first. -/
theorem forall_perm_applyFilter {filter : List (String × Value)} :
    (∀ visit, filter.Perm visit → applyFilter data candidate visit = .ok ()) ↔
      ∀ e ∈ filter, KeyHolds Passes data candidate e := by
  constructor
  · intro h e he
    obtain ⟨before, after, rfl⟩ := List.append_of_mem he
    exact (applyFilter_cons_eq_ok.mp (h _ List.perm_middle)).1
  · intro h visit hperm
    replace h : ∀ e ∈ visit, KeyHolds Passes data candidate e :=
      fun e he ↦ h e (hperm.mem_iff.mpr he)
    clear hperm
    induction visit with
    | nil => rfl
    | cons e visit ih =>
      rw [List.forall_mem_cons] at h
      exact applyFilter_cons_eq_ok.mpr ⟨h.1, .inr (ih h.2)⟩

/-- In the best order a match accepts as soon as one key ends the loop: that key may come first. -/
theorem exists_perm_applyFilter {filter : List (String × Value)} :
    (∃ visit, filter.Perm visit ∧ applyFilter data candidate visit = .ok ()) ↔
      (∀ e ∈ filter, KeyHolds Passes data candidate e) ∨
        candidate = none ∧ ∃ e ∈ filter, ShortCircuits data e := by
  constructor
  · rintro ⟨visit, hperm, h⟩
    simp only [hperm.mem_iff]
    clear hperm
    induction visit with
    | nil => simp
    | cons e visit ih =>
      obtain ⟨he, ⟨hnone, hshort⟩ | hrest⟩ := applyFilter_cons_eq_ok.mp h
      · exact .inr ⟨hnone, e, List.mem_cons_self, hshort⟩
      · rcases ih hrest with hall | ⟨hnone, e', he', hshort⟩
        · exact .inl (List.forall_mem_cons.mpr ⟨he, hall⟩)
        · exact .inr ⟨hnone, e', List.mem_cons_of_mem _ he', hshort⟩
  · rintro (hall | ⟨rfl, e, he, hshort⟩)
    · exact ⟨filter, .refl _, forall_perm_applyFilter.mpr hall _ (.refl _)⟩
    · obtain ⟨before, after, rfl⟩ := List.append_of_mem he
      refine ⟨_, List.perm_middle, applyFilter_cons_eq_ok.mpr ⟨?_, .inl ⟨rfl, hshort⟩⟩⟩
      obtain ⟨dict, s, next, hdict, hs, hnext⟩ := hshort
      simp [KeyHolds, hdict, hs, hnext]

/-- A match rejects in every order when some key rejects and no key can hide it. -/
theorem forall_perm_rejects {filter : List (String × Value)} :
    (∀ visit, filter.Perm visit → applyFilter data candidate visit ≠ .ok ()) ↔
      (∃ e ∈ filter, ¬ KeyHolds Passes data candidate e) ∧
        (candidate = none → ∀ e ∈ filter, ¬ ShortCircuits data e) := by
  have h := not_congr (@exists_perm_applyFilter data candidate filter)
  push Not at h
  exact h

theorem applyFilters_eq_ok {filters : List (List (String × Value))} :
    applyFilters data candidate filters = .ok () ↔
      ∀ filter ∈ filters, applyFilter data candidate filter = .ok () := by
  induction filters with
  | nil => simp [applyFilters]
  | cons filter filters ih =>
    rw [applyFilters, Go.andThen_eq_ok, List.forall_mem_cons, ih]

namespace ResourceCondition

variable [RegexpEngine]

/-- `p'` is `p` with the matches of an action visited in other orders. -/
def Reordered (action : String) (p p' : ResourceCondition) : Prop :=
  Visit.Orders (p.actionPropertyConditionFilter.getSlice action)
    (p'.actionPropertyConditionFilter.getSlice action)

/-- Every key of every match entered for an action accepts, relative to a test of an allowed value
against an actual one. -/
def EveryKeyHolds (R : Value → Value → Prop) (p : ResourceCondition) (action : String)
    (data : Dict) (candidate : Option Dict) : Prop :=
  ∀ filter ∈ p.actionPropertyConditionFilter.getSlice action,
    ∀ e ∈ filter, KeyHolds R data candidate e

/-- Some match has a key that rejects, and no key that ends the loop before it. -/
def HasDecisiveRejection (p : ResourceCondition) (action : String) (data : Dict)
    (candidate : Option Dict) : Prop :=
  ∃ filter ∈ p.actionPropertyConditionFilter.getSlice action,
    (∃ e ∈ filter, ¬ KeyHolds Passes data candidate e) ∧
      (candidate = none → ∀ e ∈ filter, ¬ ShortCircuits data e)

/-- The check decides as the policy documentation has it, whatever the iteration order. -/
def DecidesAsDocumented (p : ResourceCondition) (action : String) (data : Dict)
    (candidate : Option Dict) : Prop :=
  ∀ p', Reordered action p p' →
    (p'.applyPropertyConditionFilter action data candidate = .ok () ↔
      EveryKeyHolds Admits p action data candidate)

variable {p : ResourceCondition} {action : String}

theorem applyPropertyConditionFilter_eq_ok :
    p.applyPropertyConditionFilter action data candidate = .ok () ↔
      ∀ filter ∈ p.actionPropertyConditionFilter.getSlice action,
        applyFilter data candidate filter = .ok () := applyFilters_eq_ok

/-- Every list of visits is the table of some reordered condition. -/
theorem forall_reordered_iff {P : List (List (String × Value)) → Prop} :
    (∀ p', Reordered action p p' → P (p'.actionPropertyConditionFilter.getSlice action)) ↔
      ∀ visits, Visit.Orders (p.actionPropertyConditionFilter.getSlice action) visits →
        P visits := by
  refine ⟨fun h visits hv ↦ ?_, fun h p' hp' ↦ h _ hp'⟩
  have := h { p with actionPropertyConditionFilter :=
    p.actionPropertyConditionFilter.insert action visits }
  simpa [Reordered, GoMap.getSlice] using this (by simpa [Reordered, GoMap.getSlice] using hv)

/-- The check accepts in every order exactly when every key passes. -/
theorem forall_reordered_accepts :
    (∀ p', Reordered action p p' → p'.applyPropertyConditionFilter action data candidate = .ok ()) ↔
      EveryKeyHolds Passes p action data candidate := by
  simp only [applyPropertyConditionFilter_eq_ok]
  rw [forall_reordered_iff (P := fun visits ↦
    ∀ visit ∈ visits, applyFilter data candidate visit = .ok ()), Visit.forall_orders_iff]
  simp only [forall_perm_applyFilter, EveryKeyHolds]

/-- The check rejects in every order exactly when there is a decisive rejection. -/
theorem forall_reordered_rejects :
    (∀ p', Reordered action p p' → p'.applyPropertyConditionFilter action data candidate ≠ .ok ()) ↔
      HasDecisiveRejection p action data candidate := by
  simp only [ne_eq, applyPropertyConditionFilter_eq_ok]
  rw [forall_reordered_iff (P := fun visits ↦
    ¬ ∀ visit ∈ visits, applyFilter data candidate visit = .ok ())]
  simp only [HasDecisiveRejection, ← forall_perm_rejects]
  rw [← not_iff_not]
  push Not
  exact Visit.exists_orders_iff (P := fun visit ↦ applyFilter data candidate visit = .ok ())

/-- **When the check of a property condition is the documented one.**  If every key accepts, each
of them has to be one that `util.Match` knows how to accept; if some key rejects, there has to be a
rejection that no iteration order can hide. -/
theorem decidesAsDocumented_iff : DecidesAsDocumented p action data candidate ↔
    (EveryKeyHolds Admits p action data candidate →
      EveryKeyHolds Passes p action data candidate) ∧
    (¬ EveryKeyHolds Admits p action data candidate →
      HasDecisiveRejection p action data candidate) := by
  rw [← forall_reordered_accepts, ← forall_reordered_rejects]
  by_cases h : EveryKeyHolds Admits p action data candidate <;>
    simp [DecidesAsDocumented, h]

omit [RegexpEngine] in
/-- Two conditions the check does not decide as documented.  `level: 2` rejects a resource whose
level is 2, since `util.Match` knows no numbers.  And a dictionary that has the status ends the loop
when nothing is being updated, so that the wrong name next to it goes unnoticed if it is later. -/
theorem decidesAsDocumented_fails :
    (∃ p, @newResourceCondition Re2.engine
        [.map [("type", .str "property"), ("match", .map [("level", .int 2)])]] "p" = .ok p ∧
      ¬ @DecidesAsDocumented Re2.engine p actionUpdate (GoMap.ofList [("level", .int 2)]) none) ∧
    ∃ p, @newResourceCondition Re2.engine
        [.map [("type", .str "property"), ("match",
          .map [("status", .map [("ACTIVE", .str "ERROR")]), ("name", .str "blue")])]] "p" = .ok p ∧
      ¬ @DecidesAsDocumented Re2.engine p actionRead
        (GoMap.ofList [("status", .str "ACTIVE"), ("name", .str "red")]) none := by
  let _ := Re2.engine
  constructor
  · refine ⟨_, rfl, fun h ↦ ?_⟩
    have hrej := not_congr (h _ (Visit.Orders.refl _))
    refine hrej.mp (by decide) ?_
    intro filter hf e he
    have hfilter : filter ∈ [[("level", Value.int 2)]] := hf
    obtain rfl := List.mem_singleton.mp hfilter
    obtain rfl := List.mem_singleton.mp he
    exact Value.Same.refl _
  · refine ⟨_, rfl, fun h ↦ ?_⟩
    have hacc := (h _ (Visit.Orders.refl _)).mp rfl
    have hname : Admits (.str "blue") (.str "red") :=
      hacc _ List.mem_cons_self ("name", .str "blue") (by simp)
    simp [Admits, Value.same_str] at hname

end ResourceCondition

end Gohan
