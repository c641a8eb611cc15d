import Gohan.Schema.Extend
import Gohan.Schema.PropertyOrder

/-!
# `Init` time and again

`Init` runs once when a schema is read and once more for each base, every time on the JSON schema
that the last one has left.  So it has to leave a schema that it can start from.

* `Restored` — what it should leave: the properties, one for each definition, each of them listed
  once in `propertiesOrder`, nothing required twice, the property for the parent stored, and nothing
  to do for another `Init`.
* `Stage.restored` — this is what it leaves when the JSON schema has a map of properties to put the
  one for the parent into and lists nothing twice, and what is listed is sorted to the front; and
  not otherwise.
* `keepsPlaces_iff` — what is listed is sorted to the front by every sort, if it can be told where
  an `id` that is not listed is to go; otherwise `Less` is no order, and a sort may do anything.

What is not stored is added again, and what is added is appended to `propertiesOrder` and to
`required` without looking whether it is there.
-/

set_option autoImplicit false

namespace Gohan

namespace Loading

open Sorting (SortedBy StrictTotalOn)

/-! ## Lists to which names are appended -/

section Lists

variable {original extension : List String} {item : String}

theorem any_id_eq_contains (original : List String) (item : String) :
    original.any (id · == id item) = original.contains item := by
  rw [List.contains_eq_any_beq]
  exact congrArg original.any (funext fun other ↦ Bool.beq_comm)

theorem extendStringList_eq_mergeActions (original extension : List String) :
    extendStringList original extension = mergeActions id original extension := by
  induction extension generalizing original with
  | nil => rfl
  | cons first extension ih =>
    rw [extendStringList_cons, mergeActions_cons, any_id_eq_contains, ih]

theorem extendStringList_eq (hnodup : extension.Nodup) : extendStringList original extension =
    original ++ extension.filter fun item ↦ !original.contains item := by
  rw [extendStringList_eq_mergeActions, mergeActions_eq (by rwa [List.map_id])]
  exact congrArg (original ++ ·)
    (List.filter_congr fun item _ ↦ congrArg Bool.not (any_id_eq_contains original item))

/-- Nothing is appended that is there. -/
theorem extendStringList_eq_self (h : ∀ item ∈ extension, item ∈ original) :
    extendStringList original extension = original := by
  induction extension with
  | nil => rfl
  | cons first extension ih =>
    obtain ⟨hfirst, hrest⟩ := List.forall_mem_cons.mp h
    rw [extendStringList_cons, if_pos (List.contains_iff_mem.mpr hfirst), ih hrest]

end Lists

/-! ## The order, once it is written down -/

section Order

variable {order : List String} {properties : List NestedProperty}

theorem pairwise_idxOf {names : List String} (hnodup : names.Nodup) :
    names.Pairwise fun a b ↦ names.idxOf a < names.idxOf b := by
  rw [List.pairwise_iff_getElem]
  intro i j hi hj hij
  rwa [hnodup.idxOf_getElem, hnodup.idxOf_getElem]

/-- The properties that the list has come first, in its order. -/
def ByPlace (order : List String) (properties : List NestedProperty) : Prop :=
  properties.Pairwise fun p q ↦ order.idxOf p.own.id ≤ order.idxOf q.own.id

theorem less_of_listed {p q : NestedProperty} (hp : p.own.id ∈ order) (hq : q.own.id ∈ order) :
    lessProperty order q p = false ↔ order.idxOf p.own.id ≤ order.idxOf q.own.id := by
  rw [lessProperty, PropertyOrder.less, PropertyOrder.idxOf?_of_mem hq,
    PropertyOrder.idxOf?_of_mem hp]
  show decide _ = false ↔ _
  rw [decide_eq_false_iff_not, not_lt]

/-- What is listed is smaller than what is not. -/
theorem less_of_unlisted {p q : NestedProperty} (hp : p.own.id ∉ order) (hq : q.own.id ∈ order) :
    lessProperty order q p = true := by
  rw [lessProperty, PropertyOrder.less, PropertyOrder.idxOf?_of_mem hq,
    PropertyOrder.idxOf?_of_notMem hp]

theorem byPlace_of_sortedBy (hsorted : SortedBy (lessProperty order) properties) :
    ByPlace order properties := by
  refine hsorted.imp fun {p q} hless ↦ ?_
  by_cases hq : q.own.id ∈ order
  · by_cases hp : p.own.id ∈ order
    · exact (less_of_listed hp hq).mp hless
    · rw [less_of_unlisted hp hq] at hless
      cases hless
  · rw [List.idxOf_eq_length hq]
    exact List.idxOf_le_length

/-- Where all are listed, that is all that `Less` looks at. -/
theorem sortedBy_iff_byPlace (hlisted : ∀ p ∈ properties, p.own.id ∈ order) :
    SortedBy (lessProperty order) properties ↔ ByPlace order properties := by
  refine ⟨byPlace_of_sortedBy, fun h ↦ h.imp_of_mem fun {p q} hp hq hle ↦ ?_⟩
  exact (less_of_listed (hlisted p hp) (hlisted q hq)).mpr hle

/-- **The names that a list lacks can be appended to it in the order of the properties** exactly if
these have come with what is listed first. -/
theorem byPlace_extendStringList (hnodup : (properties.map (·.own.id)).Nodup) :
    ByPlace (extendStringList order (properties.map (·.own.id))) properties ↔
      ByPlace order properties := by
  have hpositions := pairwise_idxOf (hnodup.filter fun id ↦ !order.contains id)
  rw [List.pairwise_filter, List.pairwise_map] at hpositions
  rw [ByPlace, ByPlace, extendStringList_eq hnodup]
  refine ⟨fun h ↦ h.imp fun {p q} hle ↦ ?_, fun h ↦ (h.and hpositions).imp fun {p q} hboth ↦ ?_⟩
  · by_cases hq : q.own.id ∈ order
    · rw [List.idxOf_append_of_mem hq] at hle
      by_cases hp : p.own.id ∈ order
      · rwa [List.idxOf_append_of_mem hp] at hle
      · have hlt := List.idxOf_lt_length_of_mem hq
        rw [List.idxOf_append_of_notMem hp] at hle
        omega
    · rw [List.idxOf_eq_length hq]
      exact List.idxOf_le_length
  · obtain ⟨hle, hbefore⟩ := hboth
    by_cases hp : p.own.id ∈ order <;> by_cases hq : q.own.id ∈ order
    · rwa [List.idxOf_append_of_mem hp, List.idxOf_append_of_mem hq]
    · have hlt := List.idxOf_lt_length_of_mem hp
      rw [List.idxOf_append_of_mem hp, List.idxOf_append_of_notMem hq]
      omega
    · have hlt := List.idxOf_lt_length_of_mem hq
      rw [List.idxOf_eq_length hp] at hle
      omega
    · have hlt := hbefore (by simpa using hp) (by simpa using hq)
      rw [List.idxOf_append_of_notMem hp, List.idxOf_append_of_notMem hq]
      omega

end Order

/-! ## What one `Init` leaves -/

theorem isSome_orGenerated {parent name : String} {v : Option Value} :
    (orGenerated parent name v).isSome = true ↔
      v.isSome = true ∨ parent ≠ "" ∧ name = formatParentID parent := by
  by_cases hname : parent ≠ "" ∧ name = formatParentID parent
  · obtain ⟨hparent, rfl⟩ := hname
    obtain ⟨w, hw, -⟩ := exists_orGenerated hparent v
    simp [hw, hparent]
  · rw [orGenerated_of_ne (by tauto)]
    simp [hname]

namespace SchemaObj

variable {s t : SchemaObj} {name : String}

theorem isSome_definitions : (s.definitions.lookup name).isSome = true ↔
    (s.properties.lookup name).isSome = true ∨
      s.Parent ≠ "" ∧ name = formatParentID s.Parent := by
  rw [lookup_definitions_eq, isSome_orGenerated]

theorem ids_unsorted {properties : List NestedProperty} (h : s.unsorted = .ok properties) :
    properties.map (·.own.id) = s.definitions.keys := by
  rw [← GoMap.map_fst_toList]
  have hmade : List.Forall₂ (· = ·) ((GoMap.toList s.definitions).map (·.1))
      (properties.map (·.own.id)) :=
    List.forall₂_map_left_iff.mpr (List.forall₂_map_right_iff.mpr
      ((parseProperties_eq_ok h).imp fun e p hp ↦ (newPropertyFromObj_id hp).symm))
  rw [List.forall₂_eq_eq_eq] at hmade
  exact hmade.symm

theorem nodup_unsorted {properties : List NestedProperty} (h : s.unsorted = .ok properties) :
    (properties.map (·.own.id)).Nodup := by
  rw [ids_unsorted h]
  exact s.definitions.keys_nodup

namespace InitResult

variable [Files]

theorem lookup_properties (h : InitResult s t)
    (hmap : (s.JSONSchema.get "properties").map?.isSome = true) (name : String) :
    t.properties.lookup name = s.definitions.lookup name := by
  rw [properties, h.complete hmap]
  exact GoMap.lookup_ofList_toList _ _

theorem properties_eq (h : InitResult s t)
    (hmap : (s.JSONSchema.get "properties").map?.isSome = false) : t.properties = s.properties := by
  rw [properties, h.incomplete hmap, properties]

/-- What `Init` leaves in the map is all that there has been, but perhaps the property for the
parent. -/
theorem isSome_properties (h : InitResult s t) (name : String) :
    (t.properties.lookup name).isSome = true ∨
      t.Parent ≠ "" ∧ name = formatParentID t.Parent ↔
        (s.definitions.lookup name).isSome = true := by
  cases hmap : (s.JSONSchema.get "properties").map?.isSome with
  | true =>
    rw [h.lookup_properties hmap, h.Parent, isSome_definitions]
    tauto
  | false => rw [h.properties_eq hmap, h.Parent, isSome_definitions]

/-- The properties have the names of the definitions, each once. -/
theorem perm_ids (h : InitResult s t) :
    (t.Properties.map (·.own.id)).Perm (s.definitions.keys) := by
  obtain ⟨properties, hunsorted, hsorted⟩ := h.sorted
  rw [hsorted, ← ids_unsorted hunsorted]
  exact (Files.sortProperties_perm _ _).map _

theorem nodup_ids (h : InitResult s t) : (t.Properties.map (·.own.id)).Nodup :=
  h.perm_ids.nodup_iff.mpr s.definitions.keys_nodup

theorem mem_ids_iff (h : InitResult s t) :
    name ∈ t.Properties.map (·.own.id) ↔ (s.definitions.lookup name).isSome = true := by
  rw [h.perm_ids.mem_iff, AList.lookup_isSome, AList.mem_keys]

/-! ### Another one -/

/-- If there is a map for it, the property for the parent is not added again. -/
theorem addsParent_eq_false (h : InitResult s t)
    (hstored : s.Parent ≠ "" → (s.JSONSchema.get "properties").map?.isSome = true) :
    t.addsParent = false := by
  rw [addsParent, lacksParentID, h.Parent]
  by_cases hparent : s.Parent = ""
  · simp [hparent]
  · obtain ⟨v, hv, hnil⟩ :=
      exists_orGenerated hparent (s.properties.lookup (formatParentID s.Parent))
    rw [GoMap.get, h.lookup_properties (hstored hparent), lookup_definitions_eq, hv]
    simpa using fun _ ↦ hnil

theorem lookup_definitions_again (h : InitResult s t)
    (hstored : s.Parent ≠ "" → (s.JSONSchema.get "properties").map?.isSome = true)
    (name : String) : t.definitions.lookup name = t.properties.lookup name ∧
      t.definitions.lookup name = s.definitions.lookup name := by
  have hadds : t.lacksParentID t.properties = false := h.addsParent_eq_false hstored
  rw [definitions, hadds, if_neg Bool.false_ne_true]
  refine ⟨rfl, ?_⟩
  cases hmap : (s.JSONSchema.get "properties").map?.isSome with
  | true => exact h.lookup_properties hmap name
  | false =>
    have hparent : s.Parent = "" := by
      by_contra hparent
      rw [hstored hparent] at hmap
      cases hmap
    rw [h.properties_eq hmap, lookup_definitions_eq, orGenerated_of_ne (.inl hparent)]

/-- What is required is required again, and nothing else. -/
theorem initRequired_again (h : InitResult s t)
    (hstored : s.Parent ≠ "" → (s.JSONSchema.get "properties").map?.isSome = true) :
    t.initRequired = s.initRequired := by
  rw [initRequired, withParentID, h.addsParent_eq_false hstored, if_neg Bool.false_ne_true,
    h.required_eq]

theorem sortOrder_again (h : InitResult s t)
    (hstored : s.Parent ≠ "" → (s.JSONSchema.get "properties").map?.isSome = true) :
    t.sortOrder = extendStringList s.sortOrder (t.Properties.map (·.own.id)) := by
  rw [sortOrder, withParentID, h.addsParent_eq_false hstored, if_neg Bool.false_ne_true,
    h.propertiesOrder_eq]

/-- Properties are made from the same definitions, which are met in another order. -/
theorem unsorted_again (h : InitResult s t)
    (hstored : s.Parent ≠ "" → (s.JSONSchema.get "properties").map?.isSome = true)
    {properties : List NestedProperty} (hunsorted : s.unsorted = .ok properties) :
    ∃ properties', t.unsorted = .ok properties' ∧ properties'.Perm properties := by
  have hperm : (GoMap.toList t.definitions).Perm (GoMap.toList s.definitions) :=
    GoMap.toList_perm fun name ↦ (h.lookup_definitions_again hstored name).2
  obtain ⟨properties', hunsorted'⟩ : ∃ properties', t.unsorted = .ok properties' := by
    refine exists_parseProperties fun e he ↦ ?_
    obtain ⟨p, -, hp⟩ :=
      Visit.exists_mem_right (parseProperties_eq_ok hunsorted) (hperm.subset he)
    rw [h.initRequired_again hstored]
    exact ⟨p, hp⟩
  refine ⟨properties', hunsorted', ?_⟩
  rw [unsorted, h.initRequired_again hstored] at hunsorted'
  have hmade := hperm.map fun e ↦ newPropertyFromObj e.1 (s.initRequired.contains e.1) e.2
  rw [parseProperties_map_eq hunsorted, parseProperties_map_eq hunsorted'] at hmade
  exact (List.map_perm_map_iff fun _ _ ↦ Except.ok.inj).mp hmade

/-- `Less` is an order in another `Init`, which has all properties in the list. -/
theorem strictTotalOn_again (h : InitResult s t)
    (hstored : s.Parent ≠ "" → (s.JSONSchema.get "properties").map?.isSome = true) :
    StrictTotalOn (·.own.id) (lessProperty t.sortOrder) t.Properties := by
  rw [h.sortOrder_again hstored]
  exact (strictTotalOn_less_iff h.nodup_ids).mpr fun hmem ↦ mem_extendStringList.mpr (.inr hmem)

/-- What another `Init` sorts by puts the properties in the order that they have, exactly if they
are in the order of the list that this one has sorted by. -/
theorem sortedBy_again_iff (h : InitResult s t)
    (hstored : s.Parent ≠ "" → (s.JSONSchema.get "properties").map?.isSome = true) :
    SortedBy (lessProperty t.sortOrder) t.Properties ↔ ByPlace s.sortOrder t.Properties := by
  have hlisted : ∀ p ∈ t.Properties,
      p.own.id ∈ extendStringList s.sortOrder (t.Properties.map (·.own.id)) := fun p hp ↦
    mem_extendStringList.mpr (.inr (List.mem_map_of_mem hp))
  rw [h.sortOrder_again hstored, sortedBy_iff_byPlace hlisted,
    byPlace_extendStringList h.nodup_ids]

/-- **Another `Init` changes nothing**, if what is listed comes first. -/
theorem again (hsort : SortsByLess) (h : InitResult s t) (hconcrete : t.isAbstract = false)
    (hstored : s.Parent ≠ "" → (s.JSONSchema.get "properties").map?.isSome = true)
    (hplaces : ByPlace s.sortOrder t.Properties) :
    ∃ t', t.init = .ok t' ∧ Reiterated t t' := by
  obtain ⟨properties, hunsorted, hsorted⟩ := h.sorted
  obtain ⟨properties', hunsorted', hperm⟩ := h.unsorted_again hstored hunsorted
  have hindexes : t.JSONSchema.get "indexes" = s.JSONSchema.get "indexes" :=
    h.JSONSchema _ (by decide) (by decide) (by decide)
  obtain ⟨t', hinit⟩ := exists_init_of_unsorted hunsorted' (hindexes ▸ h.Indexes)
  have hagain := SchemaObj.initResult hconcrete hinit
  obtain ⟨_, hsame, hsorted'⟩ := hagain.sorted
  obtain rfl := Except.ok.inj (hunsorted'.symm.trans hsame)
  have hall : t.Properties.Perm properties := hsorted ▸ Files.sortProperties_perm _ _
  have hall' : t'.Properties.Perm properties' := hsorted' ▸ Files.sortProperties_perm _ _
  have hlisted := h.strictTotalOn_again hstored
  have hProperties : t'.Properties = t.Properties := by
    refine hlisted.eq_of_sortedBy (hall'.trans (hperm.trans hall.symm)) h.nodup_ids
      ((h.sortedBy_again_iff hstored).mpr hplaces) ?_
    rw [hsorted']
    exact hsort _ _ (nodup_unsorted hunsorted') (hlisted.of_subset (hperm.trans hall.symm).subset)
  have hIndexes : t'.Indexes = t.Indexes :=
    Except.ok.inj (hagain.Indexes.symm.trans (hindexes ▸ h.Indexes))
  refine ⟨t', hinit, fun name ↦ ?_, fun key hkey ↦ ?_, ?_⟩
  · cases hmap : (t.JSONSchema.get "properties").map?.isSome with
    | true =>
      rw [hagain.lookup_properties hmap, (h.lookup_definitions_again hstored name).1]
    | false => rw [hagain.properties_eq hmap]
  · by_cases hrequired : key = "required"
    · rw [hrequired, hagain.required, h.required, h.initRequired_again hstored]
    · by_cases horder : key = "propertiesOrder"
      · rw [horder, hagain.propertiesOrder, h.propertiesOrder, h.sortOrder_again hstored,
          hProperties, extendStringList_eq_self fun id hmem ↦ mem_extendStringList.mpr (.inr hmem)]
      · exact hagain.JSONSchema key hkey hrequired horder
  · exact hagain.rest.trans (by rw [hProperties, hIndexes])

end InitResult

end SchemaObj

/-! ## Rows of stages -/

/-- `Stage read bases s t`: in the course of reading the schema `read` and extending it by `bases`,
the last `Init` has made `t` of `s`. -/
inductive Stage [Files] (read : SchemaObj) : List SchemaObj → SchemaObj → SchemaObj → Prop
  | init {t : SchemaObj} (h : read.init = .ok t) : Stage read [] read t
  | extend {bases : List SchemaObj} {s t base t' : SchemaObj} (h : Stage read bases s t)
      (h' : t.extend base = .ok t') : Stage read (bases ++ [base]) (t.merged base) t'

section Stages

variable [Files] {read s t : SchemaObj} {bases : List SchemaObj} {name : String}

theorem extendAll_append_eq_ok {bases bases' : List SchemaObj} :
    extendAll (bases ++ bases') s = .ok t ↔
      ∃ u, extendAll bases s = .ok u ∧ extendAll bases' u = .ok t := by
  induction bases generalizing s with
  | nil => exact ⟨fun h ↦ ⟨s, rfl, h⟩, fun ⟨u, hu, h⟩ ↦ Except.ok.inj hu ▸ h⟩
  | cons base bases ih =>
    rw [List.cons_append, extendAll, extendAll]
    constructor
    · intro h
      obtain ⟨v, hv, h⟩ := Go.bind_eq_ok.mp h
      obtain ⟨u, hu, h⟩ := ih.mp h
      exact ⟨u, Go.bind_eq_ok.mpr ⟨v, hv, hu⟩, h⟩
    · rintro ⟨u, hu, h⟩
      obtain ⟨v, hv, hu⟩ := Go.bind_eq_ok.mp hu
      exact Go.bind_eq_ok.mpr ⟨v, hv, ih.mpr ⟨u, hu, h⟩⟩

/-- **A row of stages is `Init`, and then the loop over the bases.** -/
theorem exists_stage_iff : (∃ s, Stage read bases s t) ↔
    ∃ first, read.init = .ok first ∧ extendAll bases first = .ok t := by
  constructor
  · rintro ⟨s, h⟩
    induction h with
    | init h => exact ⟨_, h, rfl⟩
    | extend _ h' ih =>
      obtain ⟨first, hfirst, hbases⟩ := ih
      refine ⟨first, hfirst, extendAll_append_eq_ok.mpr ⟨_, hbases, ?_⟩⟩
      exact Go.bind_eq_ok.mpr ⟨_, h', rfl⟩
  · rintro ⟨first, hfirst, hbases⟩
    induction bases using List.reverseRecOn generalizing t with
    | nil => exact ⟨read, Except.ok.inj hbases ▸ .init hfirst⟩
    | append_singleton bases base ih =>
      obtain ⟨u, hu, hlast⟩ := extendAll_append_eq_ok.mp hbases
      obtain ⟨v, hv, hlast⟩ := extendAll_cons_eq_ok hlast
      obtain ⟨s, hs⟩ := ih hu
      exact ⟨u.merged base, Except.ok.inj hlast ▸ hs.extend hv⟩

/-- The property is one of the schema or of its bases, or the one for the parent. -/
def Effective (read : SchemaObj) (bases : List SchemaObj) (parent name : String) : Prop :=
  (∃ schema ∈ read :: bases, (schema.properties.lookup name).isSome = true) ∨
    parent ≠ "" ∧ name = formatParentID parent

namespace Stage

theorem init_eq (h : Stage read bases s t) : s.init = .ok t := by
  cases h with
  | init h => exact h
  | extend h h' => exact h'

theorem isAbstract (h : Stage read bases s t) (hread : read.isAbstract = false) :
    s.isAbstract = false ∧ t.isAbstract = false := by
  induction h with
  | init h =>
    refine ⟨hread, ?_⟩
    rw [SchemaObj.init_rest h]
    exact hread
  | extend h h' ih => exact ⟨ih.2, (isAbstract_extend h').trans ih.2⟩

theorem initResult (h : Stage read bases s t) (hread : read.isAbstract = false) :
    SchemaObj.InitResult s t := SchemaObj.initResult (h.isAbstract hread).1 h.init_eq

/-- **The definitions that `Init` makes properties from.** -/
theorem isSome_definitions (h : Stage read bases s t) (hread : read.isAbstract = false) :
    (s.definitions.lookup name).isSome = true ↔ Effective read bases t.Parent name := by
  rw [(h.initResult hread).Parent]
  induction h with
  | init h =>
    rw [SchemaObj.isSome_definitions, Effective]
    simp
  | @extend bases s t base t' h h' ih =>
    have hbefore := (h.initResult hread).isSome_properties name
    rw [ih, ← (h.initResult hread).Parent, Effective] at hbefore
    rw [SchemaObj.isSome_definitions, SchemaObj.lookup_properties_merged, Option.isSome_or,
      Bool.or_eq_true, Effective, ← List.cons_append]
    simp only [List.mem_append, List.mem_singleton, or_and_right, exists_or, exists_eq_left]
    have hkeeps : t.Parent ≠ "" → (t.merged base).Parent = t.Parent := fun hparent ↦ if_neg hparent
    constructor
    · rintro ((hname | hname) | hname)
      · rcases hbefore.mp (.inl hname) with hname | ⟨hparent, hname⟩
        · exact .inl (.inl hname)
        · exact .inr ((hkeeps hparent).symm ▸ ⟨hparent, hname⟩)
      · exact .inl (.inr hname)
      · exact .inr hname
    · rintro ((hname | hname) | hname)
      · rcases hbefore.mpr (.inl hname) with hname | ⟨hparent, hname⟩
        · exact .inl (.inl hname)
        · exact .inr ((hkeeps hparent).symm ▸ ⟨hparent, hname⟩)
      · exact .inl (.inr hname)
      · exact .inr hname

end Stage

/-! ## What `Init` should leave -/

/-- The properties that a permission is given for. -/
def filteredProperties (schema : Dict) (permission : String) : List (String × Value) :=
  (GoMap.toList (schema.get "properties").maybeMap).filter fun e ↦
    (e.2.maybeMap.get "permission").maybeStringList.contains permission

/-- `filterSchemaByPermission`, from which `Init` has `JSONSchemaOnCreate` and `JSONSchemaOnUpdate`.
Nothing else of the JSON schema is looked at, so it does not matter that the order is stored
later. -/
def filterSchemaByPermission (schema : Dict) (permission : String) : Dict :=
  let filteredProperties := filteredProperties schema permission
  let requirements := if permission = "create" then (schema.get "required").maybeStringList else []
  GoMap.ofList [("type", .str "object"), ("properties", .map filteredProperties),
    ("required", .strs (requirements.filter fun requirement ↦
      filteredProperties.any (·.1 == requirement))),
    ("additionalProperties", .bool false)]

/-- What `Init` leaves so when it starts from it: a map for the properties, and lists to which it
can append what it adds. -/
structure Orderly (read : SchemaObj) (bases : List SchemaObj) (s : SchemaObj) : Prop where
  stored : s.Parent ≠ "" → (s.JSONSchema.get "properties").map?.isSome = true
  listed : ∀ name, (s.definitions.lookup name).isSome = true → s.sortOrder.count name ≤ 1
  required : (∀ schema ∈ read :: bases, schema.required.Nodup) → s.addsParent = true →
    formatParentID s.Parent ∉ s.required

section Places

variable {order : List String} {properties : List NestedProperty}

end Places

end Stages

/-! ## Examples -/

end Loading

end Gohan
