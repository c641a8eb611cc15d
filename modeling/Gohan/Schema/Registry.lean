import Gohan.Schema.Load

/-!
# The map and the list of schemas

The manager keeps its schemas twice: in a map, and in a list of identifiers that remembers the order
in which they were registered.  `registerSchema` adds to both.  `UnRegisterSchema` takes a schema
out of the map alone, and `OrderedSchemas` passes over the identifiers that the map does not have.

This is enough as long as an identifier that was taken out does not come back: when it does, it is
in the list a second time.

* `listsEachOnce_iff` — what it takes for `OrderedSchemas` to agree with `Schemas`: what is in the
  map is in the list, and once.
* `listsEachOnce_iff_along` — they agree throughout a run exactly when no identifier comes back
  in it.
-/

set_option autoImplicit false

namespace Gohan

namespace Loading

variable [RegexpEngine]

namespace Manager

/-- `UnRegisterSchema`. -/
def unRegisterSchema (m : Manager) (schema : SchemaObj) : Manager :=
  { m with schemas := m.schemas.erase schema.ID }

/-- `Schemas`, which copies the map. -/
def Schemas (m : Manager) : GoMap Registered := m.schemas

/-- `OrderedSchemas`. -/
def orderedSchemas (m : Manager) : List Registered := m.schemaOrder.filterMap m.schema

/-- `OrderedSchemas` has each schema of `Schemas` once and nothing else. -/
def ListsEachOnce (m : Manager) : Prop :=
  m.orderedSchemas.Perm ((GoMap.toList m.Schemas).map Prod.snd)

end Manager

/-- What can be done to the manager: an action of the loader, or the removal of a schema. -/
inductive Change where
  | load (a : Act)
  | unRegister (schema : SchemaObj)

namespace Manager

/-- One change. -/
def change (m : Manager) : Change → Manager
  | .load a => m.step a
  | .unRegister schema => m.unRegisterSchema schema

/-- A change does not register a schema whose identifier has been registered before and has been
taken out since. -/
def NoReturn (m : Manager) (c : Change) : Prop :=
  ∀ schema, c = .load (.schema schema) → schema.ID ∈ m.schemaOrder → schema.ID ∈ m.schemas

variable {m m' : Manager} {c : Change} {r : Registered} {id : String}

/-! ## When the two agree -/

/-- What is in the map is there under its identifier. -/
def Keyed (m : Manager) : Prop := ∀ id r, m.schema id = some r → r.obj.ID = id

theorem mem_schemas_iff : id ∈ m.schemas ↔ ∃ r, m.schema id = some r := by
  rw [← AList.lookup_isSome, Option.isSome_iff_exists]
  rfl

/-- The identifiers that `OrderedSchemas` lists. -/
theorem Keyed.map_orderedSchemas (h : m.Keyed) :
    m.orderedSchemas.map (·.obj.ID) = m.schemaOrder.filter (· ∈ m.schemas) := by
  rw [orderedSchemas]
  induction m.schemaOrder with
  | nil => rfl
  | cons id order ih =>
    by_cases hid : id ∈ m.schemas
    · obtain ⟨r, hr⟩ := mem_schemas_iff.mp hid
      rw [List.filterMap_cons_some hr, List.map_cons, h id r hr, ih,
        List.filter_cons_of_pos (by simpa using hid)]
    · rw [List.filterMap_cons_none (schema_eq_none_iff.mpr hid), ih,
        List.filter_cons_of_neg (by simpa using hid)]

/-- The identifiers of what `Schemas` has are its keys. -/
theorem Keyed.map_schemas (h : m.Keyed) :
    ((GoMap.toList m.Schemas).map Prod.snd).map (·.obj.ID) = m.schemas.keys := by
  rw [← GoMap.map_fst_toList, List.map_map]
  refine List.map_congr_left fun e he ↦ ?_
  exact h e.1 e.2 (GoMap.mem_toList.mp he)

/-- `OrderedSchemas` agrees with `Schemas` when what is in the map is in the list, and once. -/
theorem Keyed.listsEachOnce_iff (h : m.Keyed) : m.ListsEachOnce ↔
    (∀ id ∈ m.schemas, id ∈ m.schemaOrder) ∧ (m.schemaOrder.filter (· ∈ m.schemas)).Nodup := by
  constructor
  · intro hperm
    have hids := hperm.map (·.obj.ID)
    rw [h.map_orderedSchemas, h.map_schemas] at hids
    refine ⟨fun id hid ↦ ?_, hids.nodup_iff.mpr m.schemas.keys_nodup⟩
    exact List.mem_of_mem_filter (hids.mem_iff.mpr (AList.mem_keys.mp hid))
  · rintro ⟨hlisted, honce⟩
    have hordered : m.orderedSchemas.Nodup := by
      refine List.Nodup.of_map (·.obj.ID) ?_
      rwa [h.map_orderedSchemas]
    have hschemas : ((GoMap.toList m.Schemas).map Prod.snd).Nodup := by
      refine List.Nodup.of_map (·.obj.ID) ?_
      rw [h.map_schemas]
      exact m.schemas.keys_nodup
    refine (List.perm_ext_iff_of_nodup hordered hschemas).mpr fun r ↦ ?_
    rw [orderedSchemas, List.mem_filterMap, List.mem_map]
    constructor
    · rintro ⟨id, -, hid⟩
      exact ⟨(id, r), GoMap.mem_toList.mpr hid, rfl⟩
    · rintro ⟨⟨id, r⟩, hmem, rfl⟩
      have hid : m.schema id = some r := GoMap.mem_toList.mp hmem
      exact ⟨id, hlisted id (mem_schemas_iff.mpr ⟨r, hid⟩), hid⟩

/-! ## One change -/

/-- An action of the loader leaves the map and the list as they are, or adds a schema to both. -/
theorem step_cases (m : Manager) (a : Act) :
    ((∀ schema, a = .schema schema → schema.ID ∈ m.schemas) ∧
      (m.step a).schemas = m.schemas ∧ (m.step a).schemaOrder = m.schemaOrder) ∨
    ∃ schema, a = .schema schema ∧ schema.ID ∉ m.schemas ∧
      m.step a = m.store (m.link schema).1 := by
  cases a with
  | namespaceObj obj =>
    refine .inl ⟨fun _ heq ↦ absurd heq (by simp), ?_⟩
    rw [step, registerNamespace]
    split
    · exact ⟨rfl, rfl⟩
    · split <;> exact ⟨rfl, rfl⟩
  | schema schema =>
    rw [step, registerSchema]
    by_cases hmem : schema.ID ∈ m.schemas
    · refine .inl ⟨fun schema' heq ↦ Act.schema.inj heq ▸ hmem, ?_⟩
      rw [if_pos hmem]
      exact ⟨rfl, rfl⟩
    · exact .inr ⟨schema, rfl, hmem, by rw [if_neg hmem]⟩
  | policy policy => exact .inl ⟨fun _ heq ↦ absurd heq (by simp), rfl, rfl⟩
  | extension extension => exact .inl ⟨fun _ heq ↦ absurd heq (by simp), rfl, rfl⟩
  | sorting schemas => exact .inl ⟨fun _ heq ↦ absurd heq (by simp), rfl, rfl⟩
  | returned filePath => exact .inl ⟨fun _ heq ↦ absurd heq (by simp), rfl, rfl⟩

theorem Keyed.store (h : m.Keyed) (r : Registered) : (m.store r).Keyed := by
  intro id s hs
  rw [schema_store] at hs
  split at hs
  · next heq => rw [heq, Option.some.inj hs]
  · exact h id s hs

theorem Keyed.unRegisterSchema (h : m.Keyed) (schema : SchemaObj) :
    (m.unRegisterSchema schema).Keyed := by
  intro id r hr
  by_cases heq : id = schema.ID
  · rw [Manager.schema, Manager.unRegisterSchema, heq, AList.lookup_erase] at hr
    cases hr
  · rw [Manager.schema, Manager.unRegisterSchema, AList.lookup_erase_ne heq] at hr
    exact h id r hr

theorem Keyed.change (h : m.Keyed) (c : Change) : (m.change c).Keyed := by
  cases c with
  | unRegister schema => exact h.unRegisterSchema schema
  | load a =>
    show (m.step a).Keyed
    rcases step_cases m a with ⟨-, hschemas, -⟩ | ⟨schema, -, -, heq⟩
    · exact fun id r hr ↦ h id r (by rwa [Manager.schema, hschemas] at hr)
    · rw [heq]
      exact h.store _

/-- What is in the map is in the list after any change. -/
theorem listed_change (h : ∀ id ∈ m.schemas, id ∈ m.schemaOrder) (c : Change) :
    ∀ id ∈ (m.change c).schemas, id ∈ (m.change c).schemaOrder := by
  cases c with
  | unRegister schema => exact fun id hid ↦ h id (AList.mem_erase.mp hid).2
  | load a =>
    show ∀ id ∈ (m.step a).schemas, id ∈ (m.step a).schemaOrder
    rcases step_cases m a with ⟨-, hschemas, horder⟩ | ⟨schema, -, -, heq⟩
    · rwa [hschemas, horder]
    · rw [heq, Manager.store]
      intro id hid
      rcases (AList.mem_insert _).mp hid with rfl | hid
      · exact List.mem_append_right _ List.mem_cons_self
      · exact List.mem_append_left _ (h id hid)

/-- A schema put in has its identifier in the list once exactly when it was not there before. -/
theorem nodup_store_iff (h : (m.schemaOrder.filter (· ∈ m.schemas)).Nodup) :
    ((m.store r).schemaOrder.filter (· ∈ (m.store r).schemas)).Nodup ↔
      r.obj.ID ∉ m.schemaOrder := by
  constructor
  · intro hnodup hmem
    have hold : r.obj.ID ∈ m.schemaOrder.filter (· ∈ (m.store r).schemas) :=
      List.mem_filter.mpr ⟨hmem, by simp [Manager.store]⟩
    have hlast : r.obj.ID ∈ [r.obj.ID].filter (· ∈ (m.store r).schemas) := by simp [Manager.store]
    rw [Manager.store, List.filter_append] at hnodup
    exact List.disjoint_of_nodup_append hnodup hold hlast
  · intro hmem
    have hkept : m.schemaOrder.filter (· ∈ (m.store r).schemas) =
        m.schemaOrder.filter (· ∈ m.schemas) := by
      refine List.filter_congr fun id hid ↦ ?_
      have hne : id ≠ r.obj.ID := fun heq ↦ hmem (heq ▸ hid)
      simp [Manager.store, hne]
    rw [Manager.store, List.filter_append]
    refine List.Nodup.append (hkept ▸ h) ((List.nodup_singleton _).filter _) ?_
    intro id hid hlast
    obtain rfl := List.mem_singleton.mp (List.mem_of_mem_filter hlast)
    exact hmem (List.mem_of_mem_filter hid)

/-- A schema taken out leaves the others in the list once. -/
theorem nodup_unRegisterSchema (h : (m.schemaOrder.filter (· ∈ m.schemas)).Nodup)
    (schema : SchemaObj) : ((m.unRegisterSchema schema).schemaOrder.filter
      (· ∈ (m.unRegisterSchema schema).schemas)).Nodup := by
  refine h.sublist (List.monotone_filter_right _ fun id hid ↦ ?_)
  have hmem : id ∈ m.schemas.erase schema.ID := of_decide_eq_true hid
  exact decide_eq_true (AList.mem_erase.mp hmem).2

/-- What is in the map is there under its identifier, and its identifier is in the list once. -/
structure Consistent (m : Manager) : Prop where
  keyed : m.Keyed
  listed : ∀ id ∈ m.schemas, id ∈ m.schemaOrder
  once : (m.schemaOrder.filter (· ∈ m.schemas)).Nodup

theorem Consistent.empty : Consistent {} where
  keyed id r h := by cases h
  listed id h := by cases h
  once := List.nodup_nil

theorem Consistent.listsEachOnce (h : m.Consistent) : m.ListsEachOnce :=
  h.keyed.listsEachOnce_iff.mpr ⟨h.listed, h.once⟩

/-- **One change**: the list has an identifier twice afterwards exactly when the change brings one
back. -/
theorem Consistent.once_change_iff (h : m.Consistent) :
    ((m.change c).schemaOrder.filter (· ∈ (m.change c).schemas)).Nodup ↔ m.NoReturn c := by
  cases c with
  | unRegister schema =>
    exact iff_of_true (nodup_unRegisterSchema h.once schema) fun _ heq ↦ by cases heq
  | load a =>
    show ((m.step a).schemaOrder.filter (· ∈ (m.step a).schemas)).Nodup ↔ _
    rcases step_cases m a with ⟨hmem, hschemas, horder⟩ | ⟨schema, rfl, hnew, heq⟩
    · rw [hschemas, horder]
      exact iff_of_true h.once fun schema ha _ ↦ hmem schema (Change.load.inj ha)
    · have hID : (m.link schema).1.obj.ID = schema.ID := by rw [link_obj]
      rw [heq, nodup_store_iff h.once, hID]
      constructor
      · rintro hmem schema' ha hlisted
        obtain rfl := Act.schema.inj (Change.load.inj ha)
        exact absurd hlisted hmem
      · exact fun hreturn hmem ↦ hnew (hreturn schema rfl hmem)

theorem Consistent.change (h : m.Consistent) (hc : m.NoReturn c) : (m.change c).Consistent where
  keyed := h.keyed.change c
  listed := listed_change h.listed c
  once := h.once_change_iff.mpr hc

/-- A change after which the two agree has brought nothing back. -/
theorem Consistent.noReturn (h : m.Consistent) (hc : (m.change c).ListsEachOnce) :
    m.NoReturn c :=
  h.once_change_iff.mp ((h.keyed.change c).listsEachOnce_iff.mp hc).2

/-! ## Every run -/

/-- **The list and the map agree throughout a run exactly when no identifier comes back.** -/
theorem listsEachOnce_iff_along (changes : List Change) :
    (∀ m ∈ Machine.states Manager.change {} changes, m.ListsEachOnce) ↔
      Machine.Along Manager.change Manager.NoReturn {} changes :=
  Machine.property_iff_along (fun _ ↦ Consistent.listsEachOnce) (fun _ _ h ↦ h.change)
    (fun _ _ h ↦ h.noReturn) Consistent.empty

end Manager

omit [RegexpEngine] in
/-- A schema that is registered, taken out and registered again is listed twice. -/
theorem not_listsEachOnce_return : letI := Re2.engine
    ¬ ∀ changes : List Change,
      (Machine.final Manager.change ({} : Manager) changes).ListsEachOnce := by
  let engine := Re2.engine
  intro h
  have hlength := (h [.load (.schema (bareSchema "network")), .unRegister (bareSchema "network"),
    .load (.schema (bareSchema "network"))]).length_eq
  exact absurd hlength (by decide +kernel)

end Loading

end Gohan
