import Gohan.Schema.LoadDefinitions

/-!
# What `Init` and `Extend` leave behind

`Init` reads the JSON schema, adds the property for the parent if there is none, makes the
properties and sorts them, and writes what it has back: the map of properties, which it changes in
place, `required` and `propertiesOrder`.

`InitResult` is the whole of that, read off `init`.
-/

set_option autoImplicit false

namespace Gohan

namespace Loading

namespace SchemaObj

/-- `propertiesOrder` of the JSON schema. -/
def propertiesOrder (schema : SchemaObj) : List String :=
  (schema.JSONSchema.get "propertiesOrder").maybeStringList

/-- `required` of the JSON schema. -/
def required (schema : SchemaObj) : List String :=
  (schema.JSONSchema.get "required").maybeStringList

/-- `Init` adds the property for the parent. -/
def addsParent (schema : SchemaObj) : Bool := schema.lacksParentID schema.properties

/-- A list of identifiers, to which `Init` appends that of the property for the parent when it adds
the property. -/
def withParentID (schema : SchemaObj) (ids : List String) : List String :=
  if schema.addsParent then ids ++ [formatParentID schema.Parent] else ids

/-- What `Init` sorts by. -/
def sortOrder (schema : SchemaObj) : List String := schema.withParentID schema.propertiesOrder

/-- What `Init` stores as required. -/
def initRequired (schema : SchemaObj) : List String := schema.withParentID schema.required

/-- What `Init` sorts. -/
def unsorted (schema : SchemaObj) : Go (List NestedProperty) :=
  parseProperties schema.initRequired (GoMap.toList schema.definitions)

variable {s t : SchemaObj}

/-- What `Init` leaves in a schema that is not abstract. -/
structure InitResult [Files] (s t : SchemaObj) : Prop extends Initialized s t where
  sorted : ∃ properties, s.unsorted = .ok properties ∧
    t.Properties = Files.sortProperties s.sortOrder properties
  propertiesOrder : t.JSONSchema.get "propertiesOrder" =
    .strs (extendStringList s.sortOrder (t.Properties.map (·.own.id)))
  required : t.JSONSchema.get "required" = .strs s.initRequired
  /-- Nothing else is written to the JSON schema. -/
  JSONSchema : ∀ key, key ≠ "properties" → key ≠ "required" → key ≠ "propertiesOrder" →
    t.JSONSchema.get key = s.JSONSchema.get key
  Indexes : newIndexes (GoMap.toList (s.JSONSchema.get "indexes").maybeMap) = .ok t.Indexes
  rest : t = { s with JSONSchema := t.JSONSchema, Properties := t.Properties, Indexes := t.Indexes }

theorem initResult [Files] (hconcrete : s.isAbstract = false) (h : s.init = .ok t) :
    InitResult s t := by
  have hinitialized := init_eq_ok hconcrete h
  rw [init, hconcrete, if_neg Bool.false_ne_true] at h
  obtain ⟨objs, hobjs, h⟩ := Go.bind_eq_ok.mp h
  obtain ⟨indexes, hindexes, h⟩ := Go.bind_eq_ok.mp h
  obtain rfl := Except.ok.inj h
  refine ⟨hinitialized, ⟨objs, hobjs, rfl⟩, ?_, ?_, fun key hp hr ho ↦ ?_, hindexes, rfl⟩
  · show GoMap.get (AList.insert _ _ _) "propertiesOrder" = _
    rw [GoMap.get_insert_self]
    rfl
  · show GoMap.get (AList.insert _ _ (AList.insert _ _ _)) "required" = _
    rw [get_insert_of_ne _ (by decide), GoMap.get_insert_self]
    rfl
  · show GoMap.get (AList.insert _ _ (AList.insert _ _ _)) key = _
    rw [get_insert_of_ne _ ho, get_insert_of_ne _ hr]
    split
    · rw [get_insert_of_ne _ hp]
    · rfl

theorem mem_withParentID {ids : List String} {id : String} : id ∈ s.withParentID ids ↔
    id ∈ ids ∨ s.addsParent = true ∧ id = formatParentID s.Parent := by
  rw [withParentID]
  split
  · next h => simp [h]
  · next h => simp [h]

/-- What `Init` has stored is what it has worked with. -/
theorem InitResult.required_eq [Files] (h : InitResult s t) : t.required = s.initRequired := by
  rw [SchemaObj.required, h.required]
  rfl

theorem InitResult.propertiesOrder_eq [Files] (h : InitResult s t) :
    t.propertiesOrder = extendStringList s.sortOrder (t.Properties.map (·.own.id)) := by
  rw [SchemaObj.propertiesOrder, h.propertiesOrder]
  rfl

end SchemaObj

end Loading

end Gohan
