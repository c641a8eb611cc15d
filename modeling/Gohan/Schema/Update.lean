import Gohan.Lang.Value

/-!
# Merging an update into a resource

The body of an update request need not be the whole resource.  `CloneWithUpdate` enters it into a
copy of the resource's data, and where both have an object it does so property by property, at any
depth.  What the request does not set stays what it was (`under_cloneWithUpdate`).
-/

set_option autoImplicit false

namespace Gohan

/-- `m[key] = value`, in a map inside a value. -/
def setKey (key : String) (value : Value) : List (String × Value) → List (String × Value)
  | [] => [(key, value)]
  | e :: m => if key == e.1 then (key, value) :: m else e :: setKey key value m

theorem lookup_setKey (key k : String) (value : Value) (m : List (String × Value)) :
    (setKey key value m).lookup k = if k = key then some value else m.lookup k := by
  induction m with
  | nil =>
    rw [setKey, List.lookup_cons]
    by_cases hk : k = key
    · simp [hk]
    · rw [beq_eq_false_iff_ne.mpr hk, if_neg hk]
  | cons e m ih =>
    obtain ⟨l, v⟩ := e
    rw [setKey]
    by_cases hl : key = l
    · subst hl
      rw [if_pos (beq_self_eq_true _), List.lookup_cons, List.lookup_cons]
      by_cases hk : k = key
      · simp [hk]
      · rw [beq_eq_false_iff_ne.mpr hk, if_neg hk]
    · have hne : (key == l) = false := by simpa using hl
      rw [hne, if_neg (by simp), List.lookup_cons, List.lookup_cons, ih]
      by_cases hk : k = key
      · subst hk
        simp [hne]
      · simp [hk]

mutual
/-- `updateResourceRecursion`. -/
def updateResourceRecursion (updateData sourceData : Value) : Go Value :=
  match updateData, sourceData with
  | updateData, .nil => .ok updateData
  | .map newUpdate, .map newSource => do
    .ok (.map (← updateEntries newUpdate newSource))
  | .map _, _ =>
    .panicf "interface conversion: interface {} is not map[string]interface {}"
  | updateData, _ => .ok updateData

/-- The loop of `updateResourceRecursion` over an object. -/
def updateEntries : List (String × Value) → List (String × Value) → Go (List (String × Value))
  | [], newSource => .ok newSource
  | (key, val) :: newUpdate, newSource => do
    let value ← updateResourceRecursion val ((newSource.lookup key).getD .nil)
    updateEntries newUpdate (setKey key value newSource)
end

/-- The same loop over the request, where the source is the copy of the resource's data. -/
def updateData : List (String × Value) → Dict → Go Dict
  | [], data => .ok data
  | (key, val) :: dataMap, data => do
    let value ← updateResourceRecursion val (data.get key)
    updateData dataMap (data.insert key value)

/-- `CloneWithUpdate`. -/
def cloneWithUpdate (resource dataMap : Dict) : Go Dict := updateData dataMap.toList resource

/-! ## What an update leaves alone -/

/-- What stands under a path. -/
def Value.under : List String → Value → Value
  | [], v => v
  | key :: path, .map m => under path ((m.lookup key).getD .nil)
  | _ :: _, _ => .nil

/-- The update sets what stands under a path: it has a value for it, or for a part of the path that
is no object. -/
def Sets : List String → Value → Prop
  | [], _ => True
  | key :: path, .map m => ∃ e ∈ m, e.1 = key ∧ Sets path e.2
  | _ :: _, _ => True

/-- The same for a path into the resource. -/
def SetsIn (dataMap : Dict) (key : String) (path : List String) : Prop :=
  ∃ value, dataMap.lookup key = some value ∧ Sets path value

@[simp] theorem Value.under_nil (path : List String) : Value.under path .nil = .nil := by
  cases path <;> rfl

theorem under_of_not_sets {path : List String} {v : Value} (h : ¬ Sets path v) :
    Value.under path v = .nil := by
  induction path generalizing v with
  | nil => exact absurd trivial h
  | cons key path ih =>
    cases v with
    | map m =>
      rw [Value.under]
      cases hkey : m.lookup key with
      | none => simp
      | some w =>
        refine ih fun hsets ↦ h ?_
        obtain ⟨l, l', hm, -⟩ := List.lookup_eq_some_iff.mp hkey
        exact ⟨(key, w), by simp [hm], rfl, hsets⟩
    | _ => exact absurd trivial h

/-- The loop over an object, given what the merge of the values does. -/
theorem under_updateEntries {key : String} {path : List String}
    (ih : ∀ {u v w : Value}, updateResourceRecursion u v = .ok w → ¬ Sets path u →
      Value.under path w = Value.under path v)
    {newUpdate newSource merged : List (String × Value)}
    (h : updateEntries newUpdate newSource = .ok merged)
    (hsets : ¬ Sets (key :: path) (.map newUpdate)) :
    Value.under path ((merged.lookup key).getD .nil) =
      Value.under path ((newSource.lookup key).getD .nil) := by
  induction newUpdate generalizing newSource with
  | nil =>
    rw [updateEntries] at h
    cases h
    rfl
  | cons e newUpdate ihList =>
    obtain ⟨k, val⟩ := e
    rw [updateEntries, Go.bind_eq_ok] at h
    obtain ⟨value, hvalue, h⟩ := h
    have hrest : ¬ Sets (key :: path) (.map newUpdate) := by
      rintro ⟨e, he, hsets'⟩
      exact hsets ⟨e, List.mem_cons_of_mem _ he, hsets'⟩
    rw [ihList h hrest, lookup_setKey]
    by_cases hk : key = k
    · subst hk
      rw [if_pos rfl]
      exact ih hvalue fun hsets' ↦ hsets ⟨_, List.mem_cons_self, rfl, hsets'⟩
    · rw [if_neg hk]

/-- **What an update does not set, merging leaves as it was.** -/
theorem under_updateResourceRecursion {path : List String} {u v w : Value}
    (h : updateResourceRecursion u v = .ok w) (hsets : ¬ Sets path u) :
    Value.under path w = Value.under path v := by
  induction path generalizing u v w with
  | nil => exact absurd trivial hsets
  | cons key path ih =>
    rw [updateResourceRecursion.eq_def] at h
    split at h
    · cases h
      rw [under_of_not_sets hsets, Value.under_nil]
    · obtain ⟨merged, hmerged, ⟨⟩⟩ := Go.bind_eq_ok.mp h
      exact under_updateEntries ih hmerged hsets
    · exact absurd h (Go.panicf_ne_ok _ _ _)
    · next hmap _ _ =>
      cases u with
      | map m => exact absurd rfl (hmap m)
      | _ => exact absurd trivial hsets

theorem under_updateData {key : String} {path : List String} {dataMap : List (String × Value)}
    {data merged : Dict} (h : updateData dataMap data = .ok merged)
    (hsets : ∀ e ∈ dataMap, e.1 = key → ¬ Sets path e.2) :
    Value.under path (merged.get key) = Value.under path (data.get key) := by
  induction dataMap generalizing data with
  | nil => cases h; rfl
  | cons e dataMap ih =>
    obtain ⟨k, val⟩ := e
    rw [List.forall_mem_cons] at hsets
    rw [updateData, Go.bind_eq_ok] at h
    obtain ⟨value, hvalue, h⟩ := h
    rw [ih h hsets.2]
    by_cases hk : key = k
    · subst hk
      rw [GoMap.get_insert_self]
      exact under_updateResourceRecursion hvalue (hsets.1 rfl)
    · rw [GoMap.get, AList.lookup_insert_ne hk, GoMap.get]

/-- **What a request does not set stays.** -/
theorem under_cloneWithUpdate {resource dataMap merged : Dict} {key : String} {path : List String}
    (h : cloneWithUpdate resource dataMap = .ok merged) (hsets : ¬ SetsIn dataMap key path) :
    Value.under path (merged.get key) = Value.under path (resource.get key) := by
  refine under_updateData h ?_
  rintro ⟨k, val⟩ he rfl hval
  obtain ⟨e, hmem, hkey⟩ := List.mem_map.mp he
  cases hkey
  exact hsets ⟨_, AList.mem_lookup_iff.mpr hmem, hval⟩

/-- Where a text is read there is one. -/
theorem lookup_of_get_eq_str {data : Dict} {key text : String} (h : data.get key = .str text) :
    data.lookup key = some (.str text) := by
  rw [GoMap.get] at h
  cases hkey : data.lookup key with
  | none =>
    rw [hkey] at h
    cases h
  | some value =>
    rw [hkey] at h
    exact congrArg some h

/-- A text that is requested is entered as it is. -/
theorem get_updateData {key text : String} {dataMap : List (String × Value)} {data merged : Dict}
    (h : updateData dataMap data = .ok merged)
    (htext : ∀ e ∈ dataMap, e.1 = key → e.2 = .str text)
    (hkey : data.get key = .str text ∨ ∃ e ∈ dataMap, e.1 = key) : merged.get key = .str text := by
  induction dataMap generalizing data with
  | nil =>
    cases h
    rcases hkey with hkey | ⟨e, he, -⟩
    · exact hkey
    · cases he
  | cons e dataMap ih =>
    obtain ⟨k, val⟩ := e
    rw [List.forall_mem_cons] at htext
    rw [updateData, Go.bind_eq_ok] at h
    obtain ⟨value, hvalue, h⟩ := h
    refine ih h htext.2 ?_
    by_cases hk : k = key
    · subst hk
      obtain rfl : val = .str text := htext.1 rfl
      have hstr : updateResourceRecursion (.str text) (data.get k) = .ok (.str text) := by
        cases data.get k <;> rfl
      cases hvalue.symm.trans hstr
      exact .inl (GoMap.get_insert_self _ _ _)
    · rcases hkey with hkey | ⟨e, he, hek⟩
      · left
        rwa [GoMap.get, AList.lookup_insert_ne (Ne.symm hk), ← GoMap.get]
      · rcases List.mem_cons.mp he with rfl | he
        · exact absurd hek hk
        · exact .inr ⟨e, he, hek⟩

theorem get_cloneWithUpdate {resource dataMap merged : Dict} {key text : String}
    (h : cloneWithUpdate resource dataMap = .ok merged)
    (htext : dataMap.lookup key = some (.str text)) : merged.get key = .str text := by
  refine get_updateData h (fun e he hkey ↦ ?_) (.inr ⟨(key, .str text), ?_, rfl⟩)
  · obtain ⟨e', he', rfl⟩ := List.mem_map.mp he
    have hlookup := AList.mem_lookup_iff.mpr he'
    rw [show e'.1 = key from hkey, htext] at hlookup
    exact (Option.some.inj hlookup).symm
  · exact List.mem_map.mpr ⟨⟨key, .str text⟩, AList.mem_lookup_iff.mp htext, rfl⟩

end Gohan
