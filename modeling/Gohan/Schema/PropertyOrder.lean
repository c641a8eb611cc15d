import Gohan.Schema.Init
import Gohan.Logic.Sorting
import Mathlib.Data.Prod.Lex
import Mathlib.Data.String.Basic

/-!
# The order of the properties

`Init` ranges over a map, so it meets the properties in any order, and sorts them by
`PropertyOrder.Less`: first those of `propertiesOrder`, then `id`, the indexed ones, the relations
and the others by name.

`Less` looks for `id` on its left only.  When `id` is a property that `propertiesOrder` does not
have, it is smaller than itself, and smaller than an indexed property which is smaller than it.

* `less_iff_rank_lt` — without that, `Less` compares ranks.
* `strictTotalOn_less_iff` — `Less` is a strict total order of the properties exactly then.
-/

set_option autoImplicit false

namespace Gohan

namespace Loading

open Sorting (StrictTotalOn SortedBy insertionSort insertionSort_perm sortedBy_insertionSort)

/-! ## The comparison -/

/-- `PropertyOrder.Less`, of two properties. -/
def PropertyOrder.less (propertiesOrder : List String) (lhv rhv : Property) : Bool :=
  match propertiesOrder.idxOf? lhv.id, propertiesOrder.idxOf? rhv.id with
  | some _, none => true
  | none, some _ => false
  | some iIdx, some jIdx => iIdx < jIdx
  | none, none =>
    if lhv.id = "id" then true
    else if lhv.indexed && !rhv.indexed then true
    else if !lhv.indexed && rhv.indexed then false
    else if lhv.relation != "" && rhv.relation == "" then true
    else if lhv.relation == "" && rhv.relation != "" then false
    else lhv.id < rhv.id

namespace PropertyOrder

variable {propertiesOrder : List String} {p q : Property}

/-- What the comparison goes by, one after the other: the place in `propertiesOrder`, which is its
length for what is not there, an index, a relation and the name. -/
def rank (propertiesOrder : List String) (p : Property) : ℕ ×ₗ Bool ×ₗ Bool ×ₗ String :=
  toLex (propertiesOrder.idxOf p.id, toLex (!p.indexed, toLex (p.relation == "", p.id)))

/-- `id` is not left out of `propertiesOrder`. -/
def KeepsID (propertiesOrder : List String) (p : Property) : Prop :=
  p.id = "id" → "id" ∈ propertiesOrder

theorem idxOf?_of_mem {id : String} (h : id ∈ propertiesOrder) :
    propertiesOrder.idxOf? id = some (propertiesOrder.idxOf id) := by
  obtain ⟨i, hi⟩ := Option.isSome_iff_exists.mp (List.isSome_idxOf?.mpr h)
  rw [List.idxOf_eq_getD_idxOf?, hi, Option.getD_some]

theorem idxOf?_of_notMem {id : String} (h : id ∉ propertiesOrder) :
    propertiesOrder.idxOf? id = none := List.idxOf?_eq_none_iff.mpr h

/-- What comes after the place, for properties that `propertiesOrder` does not have. -/
theorem less_unlisted (hp : p.id ∉ propertiesOrder) (hq : q.id ∉ propertiesOrder)
    (hid : p.id ≠ "id") : less propertiesOrder p q = true ↔
      toLex (!p.indexed, toLex (p.relation == "", p.id)) <
        toLex (!q.indexed, toLex (q.relation == "", q.id)) := by
  rw [less, idxOf?_of_notMem hp, idxOf?_of_notMem hq, Prod.Lex.toLex_lt_toLex,
    Prod.Lex.toLex_lt_toLex]
  simp only [if_neg hid, bne]
  obtain hr | hr := Bool.eq_false_or_eq_true (p.relation == "") <;>
    obtain hs | hs := Bool.eq_false_or_eq_true (q.relation == "") <;>
    simp only [hr, hs] <;> cases p.indexed <;> cases q.indexed <;> simp

/-- **`Less` compares ranks**, where `id` is not left out and different properties have different
names. -/
theorem less_iff_rank_lt (hp : KeepsID propertiesOrder p) (hne : p.id ≠ q.id) :
    less propertiesOrder p q = true ↔ rank propertiesOrder p < rank propertiesOrder q := by
  rw [rank, rank, Prod.Lex.toLex_lt_toLex]
  by_cases hpl : p.id ∈ propertiesOrder <;> by_cases hql : q.id ∈ propertiesOrder
  · have hidx : propertiesOrder.idxOf p.id ≠ propertiesOrder.idxOf q.id :=
      fun heq ↦ hne ((List.idxOf_inj hpl).mp heq)
    rw [less, idxOf?_of_mem hpl, idxOf?_of_mem hql]
    simp [hidx]
  · have hlt := List.idxOf_lt_length_of_mem hpl
    rw [less, idxOf?_of_mem hpl, idxOf?_of_notMem hql, List.idxOf_eq_length hql]
    simp [hlt]
  · have hlt := List.idxOf_lt_length_of_mem hql
    rw [less, idxOf?_of_notMem hpl, idxOf?_of_mem hql, List.idxOf_eq_length hpl]
    simp only [Bool.false_eq_true, false_iff]
    omega
  · rw [less_unlisted hpl hql fun hid ↦ hpl (hid ▸ hp hid), List.idxOf_eq_length hpl,
      List.idxOf_eq_length hql]
    simp

theorem less_self (hp : KeepsID propertiesOrder p) : less propertiesOrder p p = false := by
  by_cases hpl : p.id ∈ propertiesOrder
  · rw [less, idxOf?_of_mem hpl]
    simp
  · refine Bool.eq_false_iff.mpr fun h ↦ ?_
    exact lt_irrefl _ ((less_unlisted hpl hpl fun hid ↦ hpl (hid ▸ hp hid)).mp h)

/-- An `id` that is left out is smaller than all that is left out. -/
theorem less_of_id (hp : p.id ∉ propertiesOrder) (hq : q.id ∉ propertiesOrder)
    (hid : p.id = "id") : less propertiesOrder p q = true := by
  rw [less, idxOf?_of_notMem hp, idxOf?_of_notMem hq]
  exact if_pos hid

/-- An `id` that is left out is smaller than itself. -/
theorem less_self_of_not_keepsID (hp : ¬KeepsID propertiesOrder p) :
    less propertiesOrder p p = true := by
  obtain ⟨hid, hmem⟩ := Classical.not_imp.mp hp
  exact less_of_id (hid ▸ hmem) (hid ▸ hmem) hid

end PropertyOrder

/-- `Less` of the properties of a schema. -/
def lessProperty (propertiesOrder : List String) (p q : NestedProperty) : Bool :=
  PropertyOrder.less propertiesOrder p.own q.own

/-- **`Less` is a strict total order exactly when `id` is not left out of `propertiesOrder`.** -/
theorem strictTotalOn_less_iff {propertiesOrder : List String} {properties : List NestedProperty}
    (hnodup : (properties.map (·.own.id)).Nodup) :
    StrictTotalOn (·.own.id) (lessProperty propertiesOrder) properties ↔
      ("id" ∈ properties.map (·.own.id) → "id" ∈ propertiesOrder) := by
  constructor
  · intro h hmem
    obtain ⟨p, hp, hid⟩ := List.mem_map.mp hmem
    by_contra hleft
    have hless := PropertyOrder.less_self_of_not_keepsID fun hkeeps : PropertyOrder.KeepsID
      propertiesOrder p.own ↦ hleft (hkeeps hid)
    have hirrefl : PropertyOrder.less propertiesOrder p.own p.own = false := h.irrefl p hp
    rw [hless] at hirrefl
    cases hirrefl
  · intro h
    have hkeeps : ∀ p ∈ properties, PropertyOrder.KeepsID propertiesOrder p.own :=
      fun p hp hid ↦ h (List.mem_map.mpr ⟨p, hp, hid⟩)
    refine StrictTotalOn.of_rank (fun p ↦ PropertyOrder.rank propertiesOrder p.own)
      (fun p hp q hq ↦ ?_) (fun p _ q _ heq ↦ ?_)
    · by_cases hne : p.own.id = q.own.id
      · obtain rfl := List.inj_on_of_nodup_map hnodup hp hq hne
        simp [lessProperty, PropertyOrder.less_self (hkeeps p hp)]
      · exact PropertyOrder.less_iff_rank_lt (hkeeps p hp) hne
    · simp only [PropertyOrder.rank, EmbeddingLike.apply_eq_iff_eq, Prod.mk.injEq] at heq
      exact heq.2.2.2

/-! ## What `Init` sorts -/

/-- The properties as the results of the calls that made them. -/
theorem parseProperties_map_eq {required : List String} {definitions : List (String × Value)}
    {properties : List NestedProperty} (h : parseProperties required definitions = .ok properties) :
    definitions.map (fun e ↦ newPropertyFromObj e.1 (required.contains e.1) e.2) =
      properties.map Except.ok := by
  have hmade := List.forall₂_map_left_iff.mpr (List.forall₂_map_right_iff.mpr
    (parseProperties_eq_ok h))
  rwa [List.forall₂_eq_eq_eq] at hmade

/-- The same schema, whose properties a `range` meets in another order. -/
structure Reiterated (s s' : SchemaObj) : Prop where
  properties : ∀ name, s'.properties.lookup name = s.properties.lookup name
  JSONSchema : ∀ key, key ≠ "properties" → s'.JSONSchema.get key = s.JSONSchema.get key
  rest : s' = { s with JSONSchema := s'.JSONSchema }

namespace Reiterated

variable {s s' : SchemaObj} {properties properties' : List NestedProperty}

theorem Parent (h : Reiterated s s') : s'.Parent = s.Parent := by rw [h.rest]

theorem addsParent (h : Reiterated s s') : s'.addsParent = s.addsParent := by
  rw [SchemaObj.addsParent, SchemaObj.addsParent, SchemaObj.lacksParentID, SchemaObj.lacksParentID,
    h.Parent, GoMap.get, GoMap.get, h.properties]

theorem withParentID (h : Reiterated s s') (ids : List String) :
    s'.withParentID ids = s.withParentID ids := by
  rw [SchemaObj.withParentID, SchemaObj.withParentID, h.addsParent, h.Parent]

theorem sortOrder (h : Reiterated s s') : s'.sortOrder = s.sortOrder := by
  rw [SchemaObj.sortOrder, SchemaObj.sortOrder, h.withParentID, SchemaObj.propertiesOrder,
    SchemaObj.propertiesOrder, h.JSONSchema _ (by decide)]

theorem initRequired (h : Reiterated s s') : s'.initRequired = s.initRequired := by
  rw [SchemaObj.initRequired, SchemaObj.initRequired, h.withParentID, SchemaObj.required,
    SchemaObj.required, h.JSONSchema _ (by decide)]

theorem definitions (h : Reiterated s s') (name : String) :
    s'.definitions.lookup name = s.definitions.lookup name := by
  have hadds : s'.lacksParentID s'.properties = s.lacksParentID s.properties := h.addsParent
  rw [SchemaObj.definitions, SchemaObj.definitions, hadds, h.Parent]
  split
  · by_cases hname : name = formatParentID s.Parent
    · rw [hname, AList.lookup_insert, AList.lookup_insert]
    · rw [AList.lookup_insert_ne hname, AList.lookup_insert_ne hname, h.properties]
  · exact h.properties name

/-- The properties are made from the same definitions, in another order. -/
theorem unsorted (h : Reiterated s s') (hs : s.unsorted = .ok properties)
    (hs' : s'.unsorted = .ok properties') : properties'.Perm properties := by
  rw [SchemaObj.unsorted, h.initRequired] at hs'
  have hperm := (GoMap.toList_perm h.definitions).map
    fun e ↦ newPropertyFromObj e.1 (s.initRequired.contains e.1) e.2
  rw [parseProperties_map_eq hs, parseProperties_map_eq hs'] at hperm
  exact (List.map_perm_map_iff fun _ _ ↦ Except.ok.inj).mp hperm

end Reiterated

/-- What `sort.Sort` promises. -/
def SortsByLess [Files] : Prop := ∀ propertiesOrder properties,
  (properties.map (·.own.id)).Nodup →
    StrictTotalOn (·.own.id) (lessProperty propertiesOrder) properties →
      SortedBy (lessProperty propertiesOrder) (Files.sortProperties propertiesOrder properties)

/-- Two ways to go through the map end in the same properties. -/
theorem Reiterated.init_eq [Files] (hsort : SortsByLess) {s s' t t' : SchemaObj}
    {properties : List NestedProperty} (h : Reiterated s s') (hconcrete : s.isAbstract = false)
    (hs : s.unsorted = .ok properties) (hnodup : (properties.map (·.own.id)).Nodup)
    (htotal : StrictTotalOn (·.own.id) (lessProperty s.sortOrder) properties)
    (hinit : s.init = .ok t) (hinit' : s'.init = .ok t') : t'.Properties = t.Properties ∧
      t'.JSONSchema.get "propertiesOrder" = t.JSONSchema.get "propertiesOrder" := by
  have hconcrete' : s'.isAbstract = false := by
    rw [h.rest]
    exact hconcrete
  have hresult := SchemaObj.initResult hconcrete hinit
  have hresult' := SchemaObj.initResult hconcrete' hinit'
  obtain ⟨_, hunsorted, hsorted⟩ := hresult.sorted
  obtain rfl := Except.ok.inj (hs.symm.trans hunsorted)
  obtain ⟨properties', hs', hsorted'⟩ := hresult'.sorted
  have hperm : properties'.Perm properties := h.unsorted hs hs'
  have hnodup' : (properties'.map (·.own.id)).Nodup := (hperm.map _).nodup_iff.mpr hnodup
  have hpromise := hsort _ _ hnodup htotal
  have hpromise' := hsort _ _ hnodup' (htotal.of_subset hperm.subset)
  have hresorted := Files.sortProperties_perm s.sortOrder properties
  have heq : t'.Properties = t.Properties := by
    rw [hsorted, hsorted', h.sortOrder]
    refine (htotal.of_subset hresorted.subset).eq_of_sortedBy ?_ ?_ hpromise hpromise'
    · exact (Files.sortProperties_perm _ _).trans (hperm.trans hresorted.symm)
    · exact (hresorted.map _).nodup_iff.mpr hnodup
  exact ⟨heq, by rw [hresult.propertiesOrder, hresult'.propertiesOrder, heq, h.sortOrder]⟩

/-- **The order of the properties is settled exactly when `id` is not left out of the list that they
are sorted by.** -/
theorem properties_ordered_iff [Files] (hsort : SortsByLess) {propertiesOrder : List String}
    {properties : List NestedProperty} (hnodup : (properties.map (·.own.id)).Nodup) :
    (StrictTotalOn (·.own.id) (lessProperty propertiesOrder) properties ∧
      ∀ s s' t t' : SchemaObj, Reiterated s s' → s.isAbstract = false →
        s.sortOrder = propertiesOrder → s.unsorted = .ok properties →
        s.init = .ok t → s'.init = .ok t' → t'.Properties = t.Properties ∧
          t'.JSONSchema.get "propertiesOrder" = t.JSONSchema.get "propertiesOrder") ↔
      ("id" ∈ properties.map (·.own.id) → "id" ∈ propertiesOrder) := by
  rw [← strictTotalOn_less_iff hnodup]
  refine and_iff_left_of_imp fun htotal s s' t t' hsame hconcrete horder hs hinit hinit' ↦ ?_
  subst horder
  exact hsame.init_eq hsort hconcrete hs hnodup htotal hinit hinit'

/-! ## Examples -/

/-- `sort.Sort`, which for no more than twelve elements is insertion sort. -/
abbrev insertionSorting : Files :=
  { ofContents [] with
    sortProperties := fun propertiesOrder ↦ insertionSort (lessProperty propertiesOrder)
    sortProperties_perm := fun _ ↦ insertionSort_perm }

theorem sortsByLess_insertionSorting : letI := insertionSorting
    SortsByLess :=
  fun _ _ hnodup h ↦ sortedBy_insertionSort h hnodup

/-- An indexed property and the identifier, in this order. -/
def nameAndID (name : String) : List NestedProperty := [
  .mk { id := name, indexed := true } [] none, .mk { id := "id" } [] none]

theorem properties_ordered_name :
    StrictTotalOn (·.own.id) (lessProperty ["id"]) (nameAndID "name") :=
  letI := insertionSorting
  ((properties_ordered_iff sortsByLess_insertionSorting (by decide)).mpr (by decide)).1

/-- The same two properties, in the two orders that a `range` can go through them. -/
def indexedAndID (reversed : Bool) : SchemaObj :=
  let properties : List (String × Value) := [("id", .map [("type", .str "string")]),
    ("name", .map [("type", .str "string"), ("indexed", .bool true)])]
  bareSchema "network" [] (GoMap.ofList [("properties",
    .map (if reversed then properties.reverse else properties))])

theorem reiterated_indexedAndID : Reiterated (indexedAndID false) (indexedAndID true) where
  properties name := by
    have hperm : (GoMap.toList (indexedAndID true).properties).Perm
        (GoMap.toList (indexedAndID false).properties) := by decide +kernel
    refine Option.ext fun v ↦ ?_
    rw [← GoMap.mem_toList, ← GoMap.mem_toList, hperm.mem_iff]
  JSONSchema key hkey := by
    show GoMap.get (AList.insert "properties" _ ∅) key =
      GoMap.get (AList.insert "properties" _ ∅) key
    rw [SchemaObj.get_insert_of_ne _ hkey, SchemaObj.get_insert_of_ne _ hkey]
  rest := rfl

/-- **An indexed property and `id` are each smaller than the other**, and which of them comes first
depends on which the `range` meets first. -/
theorem indexed_and_id_unordered : letI := insertionSorting
    ¬StrictTotalOn (·.own.id) (lessProperty []) (nameAndID "name") ∧
    ∃ s s' t t' : SchemaObj, Reiterated s s' ∧ s.init = .ok t ∧ s'.init = .ok t' ∧
      t.Properties.map (·.own.id) = ["id", "name"] ∧
      t'.Properties.map (·.own.id) = ["name", "id"] := by
  let files := insertionSorting
  refine ⟨fun h ↦ ?_, indexedAndID false, indexedAndID true, ?_⟩
  · have hfirst : lessProperty [] ((nameAndID "name").get ⟨0, by decide⟩)
        ((nameAndID "name").get ⟨1, by decide⟩) = true := by decide
    have hsecond := h.asymm _ (List.get_mem _ _) _ (List.get_mem _ _) hfirst
    exact absurd hsecond (by decide)
  · have hids : (indexedAndID false).init.map (·.Properties.map (·.own.id)) =
        .ok ["id", "name"] := by decide +kernel
    have hids' : (indexedAndID true).init.map (·.Properties.map (·.own.id)) =
        .ok ["name", "id"] := by decide +kernel
    obtain ⟨t, ht, hproperties⟩ := Go.map_eq_ok.mp hids
    obtain ⟨t', ht', hproperties'⟩ := Go.map_eq_ok.mp hids'
    exact ⟨t, t', reiterated_indexedAndID, ht, ht', hproperties, hproperties'⟩

end Loading

end Gohan
