import Gohan.Schema.Basic
import Mathlib.Data.List.Dedup

/-!
# Nested properties

A property that is an object has properties of its own, and one that is an array has a property for
its items, so the properties of a schema are trees.  `Reaches` says what of a resource's data is
stored at which of them.

A policy names a property by its fully qualified name: the identifiers on the way to it, with dots
between them, where that of an item is `[]`.  `GetAllPropertiesFullyQualifiedMap` collects the
names of all the properties of a schema, and `fullyQualified_mem` says that the name of every
property that some data is stored at is among them.
-/

set_option autoImplicit false

namespace Gohan

/-- `ItemPropertyID`: how the items of an array are named. -/
def itemPropertyID : String := "[]"

/-- A property with the properties under it. -/
inductive NestedProperty where
  | mk (own : Property) (properties : List NestedProperty) (items : Option NestedProperty)

namespace NestedProperty

/-- The property itself. -/
def own : NestedProperty → Property
  | mk own _ _ => own

/-- The properties of an object. -/
def properties : NestedProperty → List NestedProperty
  | mk _ properties _ => properties

/-- The items of an array. -/
def items : NestedProperty → Option NestedProperty
  | mk _ _ items => items

mutual
/-- The names that `gather` stores for one of the properties: for its own, for those under it, and
so on for its items. -/
def gatherOne (currPrefix : String) : NestedProperty → List String
  | mk own properties items =>
    (currPrefix ++ own.id) :: gather (currPrefix ++ own.id ++ ".") properties ++
      gatherItems (currPrefix ++ own.id ++ ".") items

/-- The paths to the properties in the items. -/
def gatherItems (currPrefix : String) : Option NestedProperty → List String
  | none => []
  | some items => gatherOne currPrefix items

/-- The paths to some properties and to those in them. -/
def gather (currPrefix : String) : List NestedProperty → List String
  | [] => []
  | property :: properties => gatherOne currPrefix property ++ gather currPrefix properties
end

mutual
/-- The identifiers of properties have no dots and are not that of an item, which is the one that
`NewPropertyFromObj` gives to the items of an array. -/
def wellNamed : NestedProperty → Bool
  | mk _ properties items => wellNamedAll properties && wellNamedItems items

/-- The items have the name that items have. -/
def wellNamedItems : Option NestedProperty → Bool
  | none => true
  | some items => items.own.id == itemPropertyID && items.wellNamed

/-- No property has the name of items or a dot in its name. -/
def wellNamedAll : List NestedProperty → Bool
  | [] => true
  | property :: properties =>
    !property.own.id.toList.contains '.' && property.own.id != itemPropertyID &&
      property.wellNamed && wellNamedAll properties
end

/-- The property of an identifier. -/
def find (properties : List NestedProperty) (key : String) : Option NestedProperty :=
  properties.find? (·.own.id == key)

end NestedProperty

open NestedProperty

/-- A schema with its properties as trees. -/
structure NestedSchema where
  schema : Schema
  properties : List NestedProperty
  own_eq : properties.map own = schema.properties

/-- The keys of `GetAllPropertiesFullyQualifiedMap`. -/
def NestedSchema.getAllPropertiesFullyQualified (s : NestedSchema) : List String :=
  (gather "" s.properties).dedup

/-- `Reaches properties data path property value`: in the data of a resource, `value` is stored at
`property`, and `path` are the identifiers on the way to it. -/
inductive Reaches (properties : List NestedProperty) (data : Dict) :
    List String → NestedProperty → Value → Prop
  | top {key : String} {property : NestedProperty} {value : Value} :
      find properties key = some property → data.lookup key = some value →
        Reaches properties data [key] property value
  | key {path : List String} {outer : NestedProperty} {m : List (String × Value)} {key : String}
      {property : NestedProperty} {value : Value} :
      Reaches properties data path outer (.map m) →
        find outer.properties key = some property → m.lookup key = some value →
          Reaches properties data (path ++ [key]) property value
  | item {path : List String} {outer : NestedProperty} {vs : List Value}
      {property : NestedProperty} {value : Value} :
      Reaches properties data path outer (.list vs) → outer.items = some property → value ∈ vs →
        Reaches properties data (path ++ [itemPropertyID]) property value

/-! ## Names -/

/-- `strings.Split(path, ".")`. -/
def splitDots (path : String) : List String := (path.toList.splitOn '.').map String.ofList

/-- The fully qualified name. -/
def fullyQualified (path : List String) : String :=
  String.ofList (List.intercalate ['.'] (path.map String.toList))

theorem splitDots_fullyQualified {path : List String} (hne : path ≠ [])
    (h : ∀ key ∈ path, '.' ∉ key.toList) : splitDots (fullyQualified path) = path := by
  have hmap : ∀ key ∈ path.map String.toList, '.' ∉ key := by simpa using h
  rw [splitDots, fullyQualified, String.toList_ofList,
    List.splitOn_intercalate '.' hmap (by simpa using hne), List.map_map]
  simp [Function.comp_def]

@[simp]
theorem fullyQualified_singleton (key : String) : fullyQualified [key] = key := by
  simp [fullyQualified]

theorem fullyQualified_append {path : List String} (hne : path ≠ []) (key : String) :
    fullyQualified (path ++ [key]) = fullyQualified path ++ "." ++ key := by
  apply String.toList_inj.mp
  simp only [fullyQualified, String.toList_ofList, String.toList_append, List.map_append]
  induction path with
  | nil => exact absurd rfl hne
  | cons first path ih =>
    cases path with
    | nil => simp [List.intercalate]
    | cons second path =>
      have ih := ih (List.cons_ne_nil _ _)
      simp only [List.intercalate, List.map_cons, List.cons_append, List.intersperse_cons_cons,
        List.flatten_cons, List.append_assoc] at ih ⊢
      rw [ih]

/-! ## What is under a property -/

theorem find_eq_some {properties : List NestedProperty} {key : String} {property : NestedProperty}
    (h : find properties key = some property) : property ∈ properties ∧ property.own.id = key := by
  rw [find] at h
  have hkey := List.find?_some h
  exact ⟨List.mem_of_find?_eq_some h, beq_iff_eq.mp hkey⟩

theorem wellNamedAll_iff {properties : List NestedProperty} :
    wellNamedAll properties = true ↔ ∀ property ∈ properties,
      '.' ∉ property.own.id.toList ∧ property.own.id ≠ itemPropertyID ∧
        property.wellNamed = true := by
  induction properties with
  | nil => simp [wellNamedAll]
  | cons property properties ih =>
    rw [wellNamedAll, Bool.and_eq_true, ih, List.forall_mem_cons]
    simp [and_assoc]

theorem find_ne_item {properties : List NestedProperty} {key : String} {property : NestedProperty}
    (hnames : wellNamedAll properties = true) (h : find properties key = some property) :
    key ≠ itemPropertyID := by
  obtain ⟨hmem, rfl⟩ := find_eq_some h
  exact (wellNamedAll_iff.mp hnames _ hmem).2.1

theorem wellNamed_items {outer items : NestedProperty} (h : outer.wellNamed = true)
    (hitems : outer.items = some items) :
    items.own.id = itemPropertyID ∧ items.wellNamed = true := by
  obtain ⟨own, properties, _⟩ := outer
  obtain rfl : _ = some items := hitems
  rw [NestedProperty.wellNamed, wellNamedItems] at h
  simpa using (Bool.and_eq_true_iff.mp h).2

theorem wellNamed_properties {outer : NestedProperty} (h : outer.wellNamed = true) :
    wellNamedAll outer.properties = true := by
  obtain ⟨own, properties, items⟩ := outer
  rw [NestedProperty.wellNamed] at h
  exact (Bool.and_eq_true_iff.mp h).1

theorem gatherOne_subset {currPrefix : String} {properties : List NestedProperty}
    {property : NestedProperty} (h : property ∈ properties) :
    gatherOne currPrefix property ⊆ gather currPrefix properties := by
  induction properties with
  | nil => cases h
  | cons first properties ih =>
    rw [gather]
    rcases List.mem_cons.mp h with rfl | h
    · exact List.subset_append_left _ _
    · exact List.Subset.trans (ih h) (List.subset_append_right _ _)

theorem gather_properties_subset (currPrefix : String) (outer : NestedProperty) :
    gather (currPrefix ++ outer.own.id ++ ".") outer.properties ⊆ gatherOne currPrefix outer := by
  obtain ⟨own, properties, items⟩ := outer
  rw [gatherOne]
  intro name hname
  exact List.mem_append_left _ (List.mem_cons_of_mem _ hname)

theorem gatherOne_items_subset (currPrefix : String) {outer items : NestedProperty}
    (h : outer.items = some items) :
    gatherOne (currPrefix ++ outer.own.id ++ ".") items ⊆ gatherOne currPrefix outer := by
  obtain ⟨own, properties, _⟩ := outer
  obtain rfl : _ = some items := h
  rw [gatherOne, gatherItems]
  exact List.subset_append_right _ _

theorem mem_gatherOne (currPrefix : String) (property : NestedProperty) :
    currPrefix ++ property.own.id ∈ gatherOne currPrefix property := by
  obtain ⟨own, properties, items⟩ := property
  rw [gatherOne]
  exact List.mem_append_left _ List.mem_cons_self

/-! ## What some data is stored at -/

namespace Reaches

variable {properties : List NestedProperty} {data : Dict} {path : List String}
  {property : NestedProperty} {value : Value}

theorem path_ne_nil (h : Reaches properties data path property value) : path ≠ [] := by
  cases h <;> simp

theorem wellNamed (h : Reaches properties data path property value)
    (hnames : wellNamedAll properties = true) : property.wellNamed = true := by
  induction h with
  | top hfind _ => exact (wellNamedAll_iff.mp hnames _ (find_eq_some hfind).1).2.2
  | key _ hfind _ ih =>
    exact (wellNamedAll_iff.mp (wellNamed_properties ih) _ (find_eq_some hfind).1).2.2
  | item _ hitems _ ih => exact (wellNamed_items ih hitems).2

theorem no_dots (h : Reaches properties data path property value)
    (hnames : wellNamedAll properties = true) : ∀ key ∈ path, '.' ∉ key.toList := by
  have hfound {properties : List NestedProperty} {key : String} {property : NestedProperty}
      (hnames : wellNamedAll properties = true) (hfind : find properties key = some property) :
      '.' ∉ key.toList := by
    obtain ⟨hmem, rfl⟩ := find_eq_some hfind
    exact (wellNamedAll_iff.mp hnames _ hmem).1
  induction h with
  | top hfind _ => simpa using hfound hnames hfind
  | key hreaches hfind _ ih =>
    rw [List.forall_mem_append, List.forall_mem_singleton]
    exact ⟨ih, hfound (wellNamed_properties (hreaches.wellNamed hnames)) hfind⟩
  | item _ _ _ ih =>
    rw [List.forall_mem_append, List.forall_mem_singleton]
    exact ⟨ih, by decide⟩

/-- Under what `currPrefix` the property is visited. -/
theorem gatherOne_subset (h : Reaches properties data path property value)
    (hnames : wellNamedAll properties = true) :
    ∃ currPrefix, currPrefix ++ property.own.id = fullyQualified path ∧
      gatherOne currPrefix property ⊆ gather "" properties := by
  induction h with
  | top hfind _ =>
    obtain ⟨hmem, rfl⟩ := find_eq_some hfind
    exact ⟨"", by simp, Gohan.gatherOne_subset hmem⟩
  | @key path outer m key property value hreaches hfind _ ih =>
    obtain ⟨currPrefix, hprefix, hsubset⟩ := ih
    obtain ⟨hmem, rfl⟩ := find_eq_some hfind
    refine ⟨fullyQualified path ++ ".", ?_, ?_⟩
    · rw [fullyQualified_append hreaches.path_ne_nil]
    · rw [← hprefix]
      exact List.Subset.trans (List.Subset.trans (Gohan.gatherOne_subset hmem)
        (gather_properties_subset _ _)) hsubset
  | @item path outer vs property value hreaches hitems _ ih =>
    obtain ⟨currPrefix, hprefix, hsubset⟩ := ih
    refine ⟨fullyQualified path ++ ".", ?_, ?_⟩
    · rw [fullyQualified_append hreaches.path_ne_nil,
        (wellNamed_items (hreaches.wellNamed hnames) hitems).1]
    · rw [← hprefix]
      exact List.Subset.trans (gatherOne_items_subset _ hitems) hsubset

end Reaches

/-- **The name of every property that some data is stored at is collected.** -/
theorem fullyQualified_mem {s : NestedSchema} {data : Dict} {path : List String}
    {property : NestedProperty} {value : Value}
    (h : Reaches s.properties data path property value)
    (hnames : wellNamedAll s.properties = true) :
    fullyQualified path ∈ s.getAllPropertiesFullyQualified := by
  obtain ⟨currPrefix, hprefix, hsubset⟩ := h.gatherOne_subset hnames
  rw [NestedSchema.getAllPropertiesFullyQualified, List.mem_dedup, ← hprefix]
  exact hsubset (mem_gatherOne currPrefix property)

end Gohan
