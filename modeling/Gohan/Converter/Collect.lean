import Gohan.Lang.Value
import Mathlib.Algebra.Ring.Int.Defs
import Mathlib.Algebra.Ring.Nat
import Mathlib.Data.Set.Lattice

/-!
# Collecting the objects and the properties of an item

`CollectObjects` and `CollectProperties` walk down a tree of items with two counters, of which both
go down by one at every object or property.  The first one ends the walk when it is zero; below zero
it does not end it.  From where the second one is not positive, everything is collected, into a set
of pointers under their names.  An error tells that a name is taken.

`collectObjects_eq` and `collectProperties_eq` say what the counters make of a tree: the elements at
depths that are `Reached`.  These are depths of the window that `limit` and `offset` are about
(`reached_subset_window`), and they are all of them unless a counter passes the least integer.
-/

set_option autoImplicit false

namespace Gohan.Converter.Collect

variable {π : Type}

/-! ## Items -/

mutual
/-- An item, with the pointers to its objects and properties. -/
inductive Item (π : Type) where
  | array (arrayItem : Item π)
  | object (pointer : π) (objectType : String) (properties : List (Property π))
  | plain

/-- A property: a pointer, its name and its item. -/
inductive Property (π : Type) where
  | property (pointer : π) (name : String) (item : Item π)
end

/-- `set.Set`: pointers under their names.  A nil set is an empty one. -/
abbrev ElementSet (π : Type) := GoMap π

section Program

variable [DecidableEq π]

namespace ElementSet

/-- Another element has the name. -/
def safeContains (set : ElementSet π) (name : String) (element : π) : Bool :=
  match set.lookup name with
  | some other => decide (other ≠ element)
  | none => false

/-- `SafeInsert`. -/
def safeInsert (set : ElementSet π) (name : String) (element : π) : Go (ElementSet π) :=
  if set.safeContains name element then
    .errorf "the element with the name %s already in the set" [.str name]
  else .ok (set.insert name element)

/-- `SafeInsertAll`. -/
def safeInsertAll (set other : ElementSet π) : Go (ElementSet π) :=
  match (GoMap.toList other).find? fun e ↦ set.safeContains e.1 e.2 with
  | some value => .errorf "the element with the name %s already in the set" [.str value.1]
  | none => .ok (other ∪ set)

end ElementSet

mutual
/-- `CollectObjects` of an item. -/
def Item.collectObjects (limit offset : Int64) : Item π → Go (ElementSet π)
  | .array arrayItem => arrayItem.collectObjects limit offset
  | .object pointer objectType properties =>
    if limit = 0 then .ok ∅
    else
      let result : ElementSet π :=
        if offset ≤ 0 then (∅ : ElementSet π).insert objectType pointer else ∅
      collectObjectsFrom (limit - 1) (offset - 1) objectType properties result
  | .plain => .ok ∅

/-- `CollectObjects` of a property. -/
def Property.collectObjects (limit offset : Int64) : Property π → Go (ElementSet π)
  | .property _ _ item => item.collectObjects limit offset

/-- The loop over the properties of an object. -/
def collectObjectsFrom (limit offset : Int64) (objectType : String) :
    List (Property π) → ElementSet π → Go (ElementSet π)
  | [], result => .ok result
  | property :: properties, result => do
    let other ← property.collectObjects limit offset
    match result.safeInsertAll other with
    | .ok result => collectObjectsFrom limit offset objectType properties result
    | .error _ => .errorf "multiple objects with the same type at object %s" [.str objectType]
end

mutual
/-- `CollectProperties` of an item. -/
def Item.collectProperties (limit offset : Int64) : Item π → Go (ElementSet π)
  | .array arrayItem => arrayItem.collectProperties limit offset
  | .object _ objectType properties => collectPropertiesFrom limit offset objectType properties ∅
  | .plain => .ok ∅

/-- `CollectProperties` of a property. -/
def Property.collectProperties (limit offset : Int64) : Property π → Go (ElementSet π)
  | .property pointer name item =>
    if limit = 0 then .ok ∅
    else do
      let result ← item.collectProperties (limit - 1) (offset - 1)
      if offset ≤ 0 then
        match result.safeInsert name pointer with
        | .ok result => .ok result
        | .error _ => .errorf "multiple properties with the same name: %s" [.str name]
      else .ok result

/-- The loop over the properties of an object. -/
def collectPropertiesFrom (limit offset : Int64) (objectType : String) :
    List (Property π) → ElementSet π → Go (ElementSet π)
  | [], result => .ok result
  | property :: properties, result => do
    let other ← property.collectProperties limit offset
    match result.safeInsertAll other with
    | .ok result => collectPropertiesFrom limit offset objectType properties result
    | .error _ => .errorf "multiple properties with the same name at object %s" [.str objectType]
end

end Program

/-! ## What is at a depth -/

/-- Pointers with their names. -/
abbrev Elements (π : Type) := Set (String × π)

mutual
/-- The objects of an item at a depth. -/
def Item.objectsAt : Item π → ℕ → Elements π
  | .array arrayItem, depth => arrayItem.objectsAt depth
  | .object pointer objectType _, 0 => {(objectType, pointer)}
  | .object _ _ properties, depth + 1 => objectsBelow properties depth
  | .plain, _ => ∅

/-- The objects of a property at a depth. -/
def Property.objectsAt : Property π → ℕ → Elements π
  | .property _ _ item, depth => item.objectsAt depth

/-- The objects at a depth below some properties. -/
def objectsBelow : List (Property π) → ℕ → Elements π
  | [], _ => ∅
  | property :: properties, depth => property.objectsAt depth ∪ objectsBelow properties depth
end

mutual
/-- The properties of an item at a depth. -/
def Item.propertiesAt : Item π → ℕ → Elements π
  | .array arrayItem, depth => arrayItem.propertiesAt depth
  | .object _ _ properties, depth => propertiesBelow properties depth
  | .plain, _ => ∅

/-- The properties at a depth, from a property on. -/
def Property.propertiesAt : Property π → ℕ → Elements π
  | .property pointer name _, 0 => {(name, pointer)}
  | .property _ _ item, depth + 1 => item.propertiesAt depth

/-- The properties at a depth, from some properties on. -/
def propertiesBelow : List (Property π) → ℕ → Elements π
  | [], _ => ∅
  | property :: properties, depth => property.propertiesAt depth ∪ propertiesBelow properties depth
end

/-- What is at depths from an offset on and, where the limit is not negative, before the limit. -/
def window (found : ℕ → Elements π) (limit offset : ℤ) : Elements π :=
  {e | ∃ depth : ℕ, e ∈ found depth ∧ offset ≤ depth ∧ (0 ≤ limit → depth < limit)}

/-- Two different elements have one name. -/
def Conflict (elements : Elements π) : Prop :=
  ∃ name p q, (name, p) ∈ elements ∧ (name, q) ∈ elements ∧ p ≠ q

/-- The result is the set of some elements, or an error if two of them have one name. -/
def Collects (result : Go (ElementSet π)) (elements : Elements π) : Prop :=
  (Conflict elements ∧ ∃ format args, result = .error (.error format args)) ∨
    (¬ Conflict elements ∧ ∃ set, result = .ok set ∧
      ∀ name p, set.lookup name = some p ↔ (name, p) ∈ elements)

/-! ## Sets of elements -/

section Sets

/-- A set holds some elements. -/
def ElementSet.Holds (set : ElementSet π) (elements : Elements π) : Prop :=
  ∀ name p, set.lookup name = some p ↔ (name, p) ∈ elements

variable {set other : ElementSet π} {P Q R : Elements π}

theorem Conflict.mono (h : Conflict P) (hle : P ⊆ Q) : Conflict Q := by
  obtain ⟨name, p, q, hp, hq, hne⟩ := h
  exact ⟨name, p, q, hle hp, hle hq, hne⟩

theorem ElementSet.Holds.not_conflict (h : set.Holds P) : ¬ Conflict P := by
  rintro ⟨name, p, q, hp, hq, hne⟩
  exact hne (Option.some.inj (((h name p).mpr hp).symm.trans ((h name q).mpr hq)))

theorem ElementSet.Holds.collects (h : set.Holds P) : Collects (.ok set) P :=
  .inr ⟨h.not_conflict, set, rfl, h⟩

theorem ElementSet.holds_empty : (∅ : ElementSet π).Holds ∅ := by
  intro name p
  simp

theorem ElementSet.holds_singleton (name : String) (p : π) :
    ElementSet.Holds ((∅ : ElementSet π).insert name p) {(name, p)} := by
  intro name' q
  rw [Set.mem_singleton_iff, Prod.mk.injEq]
  by_cases heq : name' = name
  · subst heq
    rw [AList.lookup_insert, Option.some.injEq]
    exact ⟨fun h ↦ ⟨rfl, h.symm⟩, fun h ↦ h.2.symm⟩
  · rw [AList.lookup_insert_ne heq, AList.lookup_empty]
    simp [heq]

theorem Collects.ok_iff : Collects (.ok set) P ↔ set.Holds P := by
  refine ⟨?_, ElementSet.Holds.collects⟩
  rintro (⟨-, format, args, h⟩ | ⟨-, set', h, hset⟩)
  · cases h
  · obtain rfl := Except.ok.inj h
    exact hset

theorem collects_errorf {format : String} {args : List Value} (h : Conflict P) :
    Collects (.errorf format args) P := .inl ⟨h, format, args, rfl⟩

/-- Where less is collected than there is, the result is still right for a conflict. -/
theorem Collects.iff_of_subset {result : Go (ElementSet π)} (h : Collects result P) (hle : P ⊆ Q) :
    Collects result Q ↔ Q ⊆ P ∨ Conflict P := by
  constructor
  · intro hQ
    rcases h with ⟨hconflict, -⟩ | ⟨-, set, rfl, hset⟩
    · exact .inr hconflict
    · have hheld := Collects.ok_iff.mp hQ
      exact .inl fun e he ↦ (hset e.1 e.2).mp ((hheld e.1 e.2).mpr he)
  · rintro (hback | hconflict)
    · rwa [hback.antisymm hle]
    · rcases h with ⟨-, hresult⟩ | ⟨hnot, -⟩
      · exact .inl ⟨hconflict.mono hle, hresult⟩
      · exact absurd hconflict hnot

variable [DecidableEq π]

theorem ElementSet.safeContains_eq_true {name : String} {p : π} :
    set.safeContains name p = true ↔ ∃ q, set.lookup name = some q ∧ q ≠ p := by
  rw [safeContains]
  cases set.lookup name <;> simp

theorem ElementSet.Holds.safeInsert (h : set.Holds P) (name : String) (p : π) :
    (∃ all, set.safeInsert name p = .ok all ∧ all.Holds (insert (name, p) P)) ∨
      (Conflict (insert (name, p) P) ∧ ∃ fault, set.safeInsert name p = .error fault) := by
  rw [ElementSet.safeInsert]
  split
  · next htaken =>
    obtain ⟨q, hq, hne⟩ := safeContains_eq_true.mp htaken
    exact .inr ⟨⟨name, q, p, .inr ((h name q).mp hq), .inl rfl, hne⟩, _, rfl⟩
  · next hfree =>
    refine .inl ⟨_, rfl, fun name' p' ↦ ?_⟩
    rw [Set.mem_insert_iff, Prod.mk.injEq, ← h name' p']
    by_cases heq : name' = name
    · subst heq
      rw [AList.lookup_insert]
      constructor
      · rintro ⟨⟩
        exact .inl ⟨rfl, rfl⟩
      · rintro (⟨-, rfl⟩ | hp')
        · rfl
        · by_contra hne
          exact hfree (safeContains_eq_true.mpr ⟨p', hp', fun heq ↦ hne (by rw [heq])⟩)
    · rw [AList.lookup_insert_ne heq]
      simp [heq]

theorem ElementSet.Holds.safeInsertAll (h : set.Holds P) (hother : other.Holds Q) :
    (∃ all, set.safeInsertAll other = .ok all ∧ all.Holds (P ∪ Q)) ∨
      (Conflict (P ∪ Q) ∧ ∃ fault, set.safeInsertAll other = .error fault) := by
  rw [ElementSet.safeInsertAll]
  split
  · next e hfind =>
    have htaken := List.find?_some (p := fun e : String × π ↦ set.safeContains e.1 e.2) hfind
    obtain ⟨q, hq, hne⟩ := safeContains_eq_true.mp htaken
    have hmem := GoMap.mem_toList.mp (List.mem_of_find?_eq_some hfind)
    exact .inr ⟨⟨e.1, q, e.2, .inl ((h _ _).mp hq), .inr ((hother _ _).mp hmem), hne⟩, _, rfl⟩
  · next hnone =>
    refine .inl ⟨_, rfl, fun name p ↦ ?_⟩
    rw [Set.mem_union, ← h name p, ← hother name p, GoMap.lookup_union]
    cases hlookup : other.lookup name with
    | none => simp
    | some q =>
      rw [Option.some_or]
      refine ⟨.inr, ?_⟩
      rintro (hp | hp)
      · by_contra hne
        refine List.find?_eq_none.mp hnone (name, q) (GoMap.mem_toList.mpr hlookup)
          (safeContains_eq_true.mpr ⟨p, hp, fun heq ↦ hne (by rw [heq])⟩)
      · exact hp

/-- A round of a loop: what is collected is inserted, or there is a conflict. -/
theorem Collects.round {result : Go (ElementSet π)} (hset : set.Holds P) (h : Collects result Q)
    {next : ElementSet π → Go (ElementSet π)} {format : String} {args : List Value}
    (hle : P ∪ Q ⊆ R) (hnext : ∀ all, ElementSet.Holds all (P ∪ Q) → Collects (next all) R) :
    Collects (do
      let other ← result
      match set.safeInsertAll other with
      | .ok all => next all
      | .error _ => .errorf format args) R := by
  rcases h with ⟨hconflict, format', args', rfl⟩ | ⟨-, other, rfl, hother⟩
  · exact .inl ⟨hconflict.mono (Set.subset_union_right.trans hle), format', args', rfl⟩
  · rw [Go.ok_bind]
    rcases hset.safeInsertAll hother with ⟨all, hall, hholds⟩ | ⟨hconflict, fault, hfault⟩
    · rw [hall]
      exact hnext all hholds
    · rw [hfault]
      exact collects_errorf (hconflict.mono hle)

end Sets

/-! ## What the counters reach -/

/-- Depths that two counters reach: the first one has not been zero, and the second one is not
positive. -/
def Reaches : Int64 → Int64 → ℕ → Prop
  | limit, offset, 0 => limit ≠ 0 ∧ offset ≤ 0
  | limit, offset, depth + 1 => limit ≠ 0 ∧ Reaches (limit - 1) (offset - 1) depth

/-- What is at depths that are reached. -/
def reached (found : ℕ → Elements π) (limit offset : Int64) : Elements π :=
  {e | ∃ depth, e ∈ found depth ∧ Reaches limit offset depth}

theorem reached_empty (limit offset : Int64) :
    reached (fun _ ↦ (∅ : Elements π)) limit offset = ∅ := by
  ext e
  simp [reached]

theorem reached_union (found found' : ℕ → Elements π) (limit offset : Int64) :
    reached (fun depth ↦ found depth ∪ found' depth) limit offset =
      reached found limit offset ∪ reached found' limit offset := by
  ext e
  simp only [reached, Set.mem_union, Set.mem_ofPred_eq, or_and_right, exists_or]

theorem reached_zero (found : ℕ → Elements π) (offset : Int64) : reached found 0 offset = ∅ := by
  ext e
  refine iff_of_false ?_ (Set.notMem_empty e)
  rintro ⟨depth, -, hreaches⟩
  cases depth <;> exact hreaches.1 rfl

/-- One step down. -/
theorem reached_of_ne_zero (found : ℕ → Elements π) {limit : Int64} (h : limit ≠ 0)
    (offset : Int64) : reached found limit offset =
      (if offset ≤ 0 then found 0 else ∅) ∪
        reached (fun depth ↦ found (depth + 1)) (limit - 1) (offset - 1) := by
  ext e
  constructor
  · rintro ⟨depth, he, hreaches⟩
    cases depth with
    | zero => exact .inl (by rwa [if_pos hreaches.2])
    | succ depth => exact .inr ⟨depth, he, hreaches.2⟩
  · rintro (he | ⟨depth, he, hreaches⟩)
    · split at he
      · next hoffset => exact ⟨0, he, h, hoffset⟩
      · exact absurd he (Set.notMem_empty e)
    · exact ⟨depth + 1, he, h, hreaches⟩

/-! ## What is collected -/

section Collected

variable {set : ElementSet π} {P : Elements π}

/-- A loop has come to its end. -/
theorem ElementSet.Holds.collects_last (h : set.Holds P) (limit offset : Int64) :
    Collects (.ok set) (P ∪ reached (fun _ ↦ ∅) limit offset) := by
  rw [reached_empty, Set.union_empty]
  exact h.collects

variable [DecidableEq π]

/-- A loop goes on with the next property. -/
theorem ElementSet.Holds.collects_next {limit offset : Int64} {found below : ℕ → Elements π}
    {result : Go (ElementSet π)} {next : ElementSet π → Go (ElementSet π)} {format : String}
    {args : List Value} (h : set.Holds P) (hresult : Collects result (reached found limit offset))
    (hnext : ∀ all, ElementSet.Holds all (P ∪ reached found limit offset) →
      Collects (next all) (P ∪ reached found limit offset ∪ reached below limit offset)) :
    Collects (do
      let other ← result
      match set.safeInsertAll other with
      | .ok all => next all
      | .error _ => .errorf format args)
      (P ∪ reached (fun depth ↦ found depth ∪ below depth) limit offset) := by
  rw [reached_union, ← Set.union_assoc]
  exact Collects.round h hresult Set.subset_union_left hnext

mutual
/-- **`CollectObjects` collects the objects that the counters reach.** -/
theorem Item.collects_objects (item : Item π) (limit offset : Int64) :
    Collects (item.collectObjects limit offset) (reached item.objectsAt limit offset) := by
  cases item with
  | array arrayItem => exact arrayItem.collects_objects limit offset
  | object pointer objectType properties =>
    rw [Item.collectObjects]
    split
    · next hzero =>
      subst hzero
      rw [reached_zero]
      exact ElementSet.holds_empty.collects
    · next hne =>
      rw [reached_of_ne_zero _ hne]
      refine collects_objectsFrom objectType properties (limit - 1) (offset - 1) ?_
      split
      · exact ElementSet.holds_singleton objectType pointer
      · exact ElementSet.holds_empty
  | plain =>
    show Collects (.ok ∅) (reached (fun _ ↦ ∅) limit offset)
    rw [reached_empty]
    exact ElementSet.holds_empty.collects

theorem Property.collects_objects (property : Property π) (limit offset : Int64) :
    Collects (property.collectObjects limit offset) (reached property.objectsAt limit offset) := by
  cases property with
  | property pointer name item => exact item.collects_objects limit offset

theorem collects_objectsFrom (objectType : String) (properties : List (Property π))
    (limit offset : Int64) {result : ElementSet π} {P : Elements π} (h : result.Holds P) :
    Collects (collectObjectsFrom limit offset objectType properties result)
      (P ∪ reached (objectsBelow properties) limit offset) := by
  cases properties with
  | nil => exact h.collects_last limit offset
  | cons property properties =>
    exact h.collects_next (property.collects_objects limit offset) fun all hall ↦
      collects_objectsFrom objectType properties limit offset hall
end

mutual
/-- **`CollectProperties` collects the properties that the counters reach.** -/
theorem Item.collects_properties (item : Item π) (limit offset : Int64) :
    Collects (item.collectProperties limit offset) (reached item.propertiesAt limit offset) := by
  cases item with
  | array arrayItem => exact arrayItem.collects_properties limit offset
  | object pointer objectType properties =>
    have h := collects_propertiesFrom objectType properties limit offset ElementSet.holds_empty
    rwa [Set.empty_union] at h
  | plain =>
    show Collects (.ok ∅) (reached (fun _ ↦ ∅) limit offset)
    rw [reached_empty]
    exact ElementSet.holds_empty.collects

theorem Property.collects_properties (property : Property π) (limit offset : Int64) :
    Collects (property.collectProperties limit offset)
      (reached property.propertiesAt limit offset) := by
  cases property with
  | property pointer name item =>
    rw [Property.collectProperties]
    split
    · next hzero =>
      subst hzero
      rw [reached_zero]
      exact ElementSet.holds_empty.collects
    · next hne =>
      rw [reached_of_ne_zero _ hne]
      show Collects _ ((if offset ≤ 0 then {(name, pointer)} else ∅) ∪
        reached item.propertiesAt (limit - 1) (offset - 1))
      rcases item.collects_properties (limit - 1) (offset - 1) with
        ⟨hconflict, format, args, herror⟩ | ⟨-, result, hresult, hholds⟩
      · rw [herror]
        exact .inl ⟨hconflict.mono Set.subset_union_right, format, args, rfl⟩
      · rw [hresult, Go.ok_bind]
        split
        · rcases ElementSet.Holds.safeInsert hholds name pointer with
            ⟨all, hall, hholds⟩ | ⟨hconflict, fault, hfault⟩
          · rw [hall]
            exact hholds.collects
          · rw [hfault]
            exact collects_errorf hconflict
        · rw [Set.empty_union]
          exact ElementSet.Holds.collects hholds

theorem collects_propertiesFrom (objectType : String) (properties : List (Property π))
    (limit offset : Int64) {result : ElementSet π} {P : Elements π} (h : result.Holds P) :
    Collects (collectPropertiesFrom limit offset objectType properties result)
      (P ∪ reached (propertiesBelow properties) limit offset) := by
  cases properties with
  | nil => exact h.collects_last limit offset
  | cons property properties =>
    exact h.collects_next (property.collects_properties limit offset) fun all hall ↦
      collects_propertiesFrom objectType properties limit offset hall
end

end Collected

/-! ## The window -/

/-- Where the counters are at a depth: the first one has not been zero before or there, and the
second one is not positive.  A counter that passes the least integer goes on from the greatest. -/
def InReach (limit offset : ℤ) (depth : ℕ) : Prop :=
  depth < limit % 2 ^ 64 ∧ (offset - depth).bmod (2 ^ 64) ≤ 0

theorem bmod_emod (n : ℤ) (m : ℕ) : n.bmod m % m = n % m :=
  Int.emod_eq_emod_iff_emod_sub_eq_zero.mpr (Int.emod_eq_zero_of_dvd Int.dvd_bmod_sub_self)

theorem toInt_sub_one (n : Int64) : (n - 1).toInt = (n.toInt - 1).bmod (2 ^ 64) := by
  rw [Int64.toInt_sub]
  rfl

/-- One step down. -/
theorem inReach_succ {limit : ℤ} (h : -2 ^ 63 ≤ limit ∧ limit < 2 ^ 63) (offset : ℤ) (depth : ℕ) :
    InReach limit offset (depth + 1) ↔
      limit ≠ 0 ∧ InReach ((limit - 1).bmod (2 ^ 64)) ((offset - 1).bmod (2 ^ 64)) depth := by
  have hlimit : (limit - 1).bmod (2 ^ 64) % 2 ^ 64 = (limit - 1) % 2 ^ 64 := bmod_emod _ (2 ^ 64)
  have hoffset : offset - ((depth + 1 : ℕ) : ℤ) = offset - 1 - depth := by omega
  rw [InReach, InReach, hlimit, Int.bmod_sub_bmod, hoffset, ← and_assoc]
  refine and_congr_left fun _ ↦ ?_
  omega

theorem reaches_iff (limit offset : Int64) (depth : ℕ) :
    Reaches limit offset depth ↔ InReach limit.toInt offset.toInt depth := by
  have hne : ∀ n : Int64, n ≠ 0 ↔ n.toInt ≠ 0 := fun n ↦ by
    rw [Ne, ← Int64.toInt_inj]
    rfl
  induction depth generalizing limit offset with
  | zero =>
    have hoffset : (offset.toInt - ((0 : ℕ) : ℤ)).bmod (2 ^ 64) = offset.toInt := by
      rw [Int.natCast_zero, Int.sub_zero]
      exact offset.toInt_bmod
    have hlow := limit.le_toInt
    have hhigh := limit.toInt_lt
    rw [Reaches, InReach, hoffset, hne, Int64.le_iff_toInt_le]
    refine and_congr_left fun _ ↦ ?_
    omega
  | succ depth ih =>
    have hdown := ih (limit - 1) (offset - 1)
    rw [toInt_sub_one, toInt_sub_one] at hdown
    rw [inReach_succ ⟨limit.le_toInt, limit.toInt_lt⟩]
    exact and_congr (hne limit) hdown

theorem window_of_inReach {limit offset : Int64} {depth : ℕ}
    (h : InReach limit.toInt offset.toInt depth) :
    offset.toInt ≤ depth ∧ (0 ≤ limit.toInt → (depth : ℤ) < limit.toInt) := by
  obtain ⟨hlimit, hoffset⟩ := h
  have hhigh := limit.toInt_lt
  have hoffset' := offset.toInt_lt
  refine ⟨?_, fun hpos ↦ by omega⟩
  by_contra hlt
  rw [Int.bmod_eq_of_le (by omega) (by omega)] at hoffset
  omega

/-- What is reached is in the window. -/
theorem reached_subset_window (found : ℕ → Elements π) (limit offset : Int64) :
    reached found limit offset ⊆ window found limit.toInt offset.toInt := by
  rintro e ⟨depth, he, hreaches⟩
  exact ⟨depth, he, window_of_inReach ((reaches_iff limit offset depth).mp hreaches)⟩

/-- The window is collected: the counters reach all elements of it at one depth or another, or come
upon a conflict. -/
def Covered (found : ℕ → Elements π) (limit offset : ℤ) : Prop :=
  (∀ e ∈ window found limit offset, ∃ depth, e ∈ found depth ∧ InReach limit offset depth) ∨
    Conflict {e | ∃ depth, e ∈ found depth ∧ InReach limit offset depth}

theorem collects_window_iff {result : Go (ElementSet π)} {found : ℕ → Elements π}
    {limit offset : Int64} (h : Collects result (reached found limit offset)) :
    Collects result (window found limit.toInt offset.toInt) ↔
      Covered found limit.toInt offset.toInt := by
  rw [h.iff_of_subset (reached_subset_window found limit offset), Covered]
  have hreached : reached found limit offset =
      {e | ∃ depth, e ∈ found depth ∧ InReach limit.toInt offset.toInt depth} := by
    ext e
    simp only [reached, reaches_iff]
  rw [hreached]
  rfl

/-- **When the window is what is collected.**  It is so for the objects and the properties of items
and of properties, exactly where the counters cover it. -/
theorem collect_spec [DecidableEq π] (limit offset : Int64) :
    (∀ item : Item π,
      (Collects (item.collectObjects limit offset)
          (window item.objectsAt limit.toInt offset.toInt) ↔
        Covered item.objectsAt limit.toInt offset.toInt) ∧
      (Collects (item.collectProperties limit offset)
          (window item.propertiesAt limit.toInt offset.toInt) ↔
        Covered item.propertiesAt limit.toInt offset.toInt)) ∧
    ∀ property : Property π,
      (Collects (property.collectObjects limit offset)
          (window property.objectsAt limit.toInt offset.toInt) ↔
        Covered property.objectsAt limit.toInt offset.toInt) ∧
      (Collects (property.collectProperties limit offset)
          (window property.propertiesAt limit.toInt offset.toInt) ↔
        Covered property.propertiesAt limit.toInt offset.toInt) :=
  ⟨fun item ↦ ⟨collects_window_iff (item.collects_objects limit offset),
    collects_window_iff (item.collects_properties limit offset)⟩,
   fun property ↦ ⟨collects_window_iff (property.collects_objects limit offset),
    collects_window_iff (property.collects_properties limit offset)⟩⟩

/-- An object in an object, with the names of their types for pointers. -/
def nestedItem : Item String :=
  .object "A" "A" [.property "p" "p" (.object "B" "B" [])]

/-- From the least integer on, the inner object is not collected. -/
theorem not_collects_nested :
    ¬ Collects (nestedItem.collectObjects (-1) Int64.minValue)
      (window nestedItem.objectsAt (-1) (-2 ^ 63)) := by
  intro h
  have hresult : nestedItem.collectObjects (-1) Int64.minValue =
      .ok ((∅ : ElementSet String).insert "A" "A") := by decide +kernel
  rw [hresult, Collects.ok_iff] at h
  have hB := (h "B" "B").mpr ⟨1, .inl rfl, by omega, by omega⟩
  revert hB
  decide

end Gohan.Converter.Collect
