import Gohan.Logic.Precedence
import Gohan.Schema.Registry
import Gohan.Schema.Reorder

/-!
# Schemas in the order of their relations

The tables of a database are made and filled in the order of `OrderedSchemas`, and dropped in the
opposite one.  A foreign key refers to a table that is there already; so a schema has to come after
those that it has relations to.

For the schemas of one file `reorderSchemas` sees to this.  It knows nothing of other files, which
are loaded before, as included ones are, or later; and what is registered once keeps its place.
`inOrder_iff_along` says when the order of a whole load is right: when no file adds a schema that
one of the schemas registered before it has a relation to.
-/

set_option autoImplicit false

namespace Gohan

namespace Loading

open Machine (Prog Along final)
open Machine.Prog (forEach mapEach)
open Precedence (Grounded grounded_append_iff)

variable [RegexpEngine]

/-! ## The order -/

/-- A property of the schema is a relation to the one with this identifier. -/
def SchemaObj.RelatesTo (s : SchemaObj) (id : String) : Prop :=
  id ≠ "" ∧ ∃ p ∈ s.Properties, p.own.relation = id

instance (s : SchemaObj) (id : String) : Decidable (s.RelatesTo id) :=
  inferInstanceAs (Decidable (_ ∧ _))

namespace Manager

/-- The schemas that have tables, in the order of `OrderedSchemas`. -/
def concreteSchemas (m : Manager) : List Registered := m.orderedSchemas.filter (!·.obj.isAbstract)

/-- A schema that has a table comes after those that it has relations to. -/
def InOrder (m : Manager) : Prop :=
  Grounded (fun r t ↦ r.obj.RelatesTo t.obj.ID) m.concreteSchemas

instance (m : Manager) : Decidable m.InOrder := inferInstanceAs (Decidable (Grounded _ _))

/-- No schema has been unregistered. -/
structure Full (m : Manager) : Prop extends Consistent m where
  kept : ∀ id ∈ m.schemaOrder, id ∈ m.schemas

end Manager

/-- Where the schemas of a file are about to be registered, none of those in the manager has a
relation to one that is new. -/
def Backward (m : Manager) : Act → Prop
  | .sorting schemas => Sortable schemas → ∀ s ∈ schemas, s.isAbstract = false →
      m.schema s.ID = none → ∀ r ∈ m.concreteSchemas, ¬ r.obj.RelatesTo s.ID
  | _ => True

/-- A file does not list an identifier twice. -/
def Distinct (_ : Manager) : Act → Prop
  | .sorting schemas => (schemas.map SchemaObj.ID).Nodup
  | _ => True

instance (m : Manager) : DecidablePred (Distinct m)
  | .sorting schemas => inferInstanceAs (Decidable (schemas.map SchemaObj.ID).Nodup)
  | .namespaceObj _ | .schema _ | .policy _ | .extension _ | .returned _ => .isTrue trivial

theorem backward_of_ne (m : Manager) (a : Act) (h : ∀ schemas, a ≠ .sorting schemas) :
    Backward m a := by
  cases a with
  | sorting schemas => exact absurd rfl (h schemas)
  | _ => trivial

theorem distinct_of_ne (m : Manager) (a : Act) (h : ∀ schemas, a ≠ .sorting schemas) :
    Distinct m a := by
  cases a with
  | sorting schemas => exact absurd rfl (h schemas)
  | _ => trivial

/-! ## One action -/

namespace Manager

variable {m : Manager} {a : Act} {r : Registered} {acts : List Act}

theorem isAbstract_of_mem (m : Manager) (hr : r ∈ m.concreteSchemas) :
    r.obj.isAbstract = false := by
  simpa using (List.mem_filter.mp hr).2

theorem Full.empty : Full {} where
  toConsistent := .empty
  kept _ h := absurd h List.not_mem_nil

theorem Full.step (h : m.Full) (a : Act) : (m.step a).Full where
  toConsistent := h.toConsistent.change (c := .load a) fun schema _ ↦ h.kept schema.ID
  kept := by
    rcases step_cases m a with ⟨-, hschemas, horder⟩ | ⟨schema, -, -, heq⟩
    · rw [hschemas, horder]
      exact h.kept
    · rw [heq, store]
      intro id hid
      rcases List.mem_append.mp hid with hid | hid
      · exact (AList.mem_insert _).mpr (.inr (h.kept id hid))
      · exact (AList.mem_insert _).mpr (.inl (List.mem_singleton.mp hid))

theorem Full.final (h : m.Full) (acts : List Act) : (Machine.final Manager.step m acts).Full := by
  induction acts generalizing m with
  | nil => exact h
  | cons a acts ih => exact ih (h.step a)

theorem Full.orderedSchemas_store (h : m.Full) (hnew : r.obj.ID ∉ m.schemas) :
    (m.store r).orderedSchemas = m.orderedSchemas ++ [r] := by
  have hold : m.schemaOrder.filterMap (m.store r).schema = m.schemaOrder.filterMap m.schema := by
    refine List.filterMap_congr fun id hid ↦ ?_
    rw [schema_store, if_neg]
    rintro rfl
    exact hnew (h.kept _ hid)
  have hlast : (m.store r).schema r.obj.ID = some r := by rw [schema_store, if_pos rfl]
  rw [orderedSchemas, orderedSchemas, ← hold]
  show (m.schemaOrder ++ [r.obj.ID]).filterMap _ = _
  rw [List.filterMap_append, List.filterMap_cons_some hlast, List.filterMap_nil]

theorem Full.mem_orderedSchemas (h : m.Full) : r ∈ m.orderedSchemas ↔
    m.schema r.obj.ID = some r := by
  rw [orderedSchemas, List.mem_filterMap]
  constructor
  · rintro ⟨id, -, hid⟩
    rwa [h.keyed id r hid]
  · exact fun hr ↦ ⟨r.obj.ID, h.listed _ (mem_schemas_iff.mpr ⟨r, hr⟩), hr⟩

/-- The schema with a table that an action adds, if it adds one. -/
def added (m : Manager) : Act → List Registered
  | .schema schema =>
    if schema.ID ∉ m.schemas ∧ schema.isAbstract = false then [(m.link schema).1] else []
  | _ => []

theorem added_eq_nil (h : ∀ schema, a = .schema schema →
    schema.ID ∈ m.schemas ∨ schema.isAbstract = true) : m.added a = [] := by
  cases a with
  | schema schema =>
    rw [added, if_neg]
    rintro ⟨hnew, hconcrete⟩
    rcases h schema rfl with hmem | habstract
    · exact hnew hmem
    · rw [hconcrete] at habstract
      cases habstract
  | _ => rfl

/-- **One action** adds at most one schema, at the end. -/
theorem Full.concreteSchemas_step (h : m.Full) (a : Act) :
    (m.step a).concreteSchemas = m.concreteSchemas ++ m.added a := by
  rw [concreteSchemas, concreteSchemas]
  rcases step_cases m a with ⟨hmem, hschemas, horder⟩ | ⟨schema, rfl, hnew, heq⟩
  · have hsame : (m.step a).schema = m.schema := by
      funext id
      rw [Manager.schema, hschemas]
      rfl
    rw [added_eq_nil fun schema heq ↦ .inl (hmem schema heq), List.append_nil, orderedSchemas,
      horder, hsame]
    rfl
  · have hobj : (m.link schema).1.obj = schema := link_obj m schema
    rw [heq, h.orderedSchemas_store (by rwa [hobj]), List.filter_append, added]
    congr 1
    cases habstract : schema.isAbstract with
    | true =>
      rw [if_neg fun hadds ↦ Bool.noConfusion hadds.2,
        List.filter_cons_of_neg (by simp [hobj, habstract])]
      rfl
    | false =>
      rw [if_pos ⟨hnew, rfl⟩, List.filter_cons_of_pos (by simp [hobj, habstract])]
      rfl

/-- What registers only abstract schemas adds none. -/
theorem Full.concreteSchemas_final (h : m.Full)
    (habstract : ∀ a ∈ acts, ∀ schema, a = .schema schema → schema.isAbstract = true) :
    (Machine.final Manager.step m acts).concreteSchemas = m.concreteSchemas := by
  induction acts generalizing m with
  | nil => rfl
  | cons a acts ih =>
    have hstep : (m.step a).concreteSchemas = m.concreteSchemas := by
      rw [h.concreteSchemas_step, added_eq_nil fun schema heq ↦
        .inr (habstract a List.mem_cons_self schema heq), List.append_nil]
    rw [← hstep]
    exact ih (h.step a) fun b hb ↦ habstract b (List.mem_cons_of_mem _ hb)

theorem inOrder_congr {m' : Manager} (h : m'.concreteSchemas = m.concreteSchemas) :
    m'.InOrder ↔ m.InOrder := by
  rw [InOrder, InOrder, h]

end Manager

/-! ## The schemas of one file -/

section Loop

variable {m : Manager} {acts : List Act} {prepared : List SchemaObj} {order : List String}

/-- The loop over the order adds the schemas that are not abstract and not there yet. -/
theorem concreteSchemas_loop (hfull : m.Full) (hnodup : order.Nodup)
    (h : forEach (registerByID prepared) order m = (.ok (), acts)) :
    ∃ new, (final Manager.step m acts).concreteSchemas = m.concreteSchemas ++ new ∧
      new.map Registered.obj = (order.filterMap (schemaMap prepared)).filter fun s ↦
        !s.isAbstract && (m.schema s.ID).isNone := by
  induction order generalizing m acts with
  | nil =>
    obtain ⟨-, rfl⟩ := Prog.pure_eq_ok.mp h
    exact ⟨[], (List.append_nil _).symm, rfl⟩
  | cons id order ih =>
    obtain ⟨as₁, as₂, hfirst, hrest, rfl⟩ := Prog.forEach_cons_eq_ok.mp h
    obtain ⟨hid, hnodup⟩ := List.nodup_cons.mp hnodup
    obtain ⟨s, hs, hcases⟩ := registerByID_eq_ok hfirst
    obtain ⟨-, hID⟩ := of_schemaMap hs
    rw [List.filterMap_cons_some hs, Machine.final_append]
    rcases hcases with ⟨habstract, rfl⟩ | ⟨hconcrete, rfl, -⟩
    · obtain ⟨new, hnew, hobjs⟩ := ih hfull hnodup hrest
      refine ⟨new, hnew, ?_⟩
      rw [hobjs, List.filter_cons_of_neg (by simp [habstract])]
    · obtain ⟨new, hnew, hobjs⟩ := ih (m := m.step (.schema s)) (hfull.step _) hnodup hrest
      -- the identifiers that are left are other ones, so nothing has changed for them
      have hothers : (order.filterMap (schemaMap prepared)).filter (fun t ↦
          !t.isAbstract && ((m.step (.schema s)).schema t.ID).isNone) =
            (order.filterMap (schemaMap prepared)).filter fun t ↦
              !t.isAbstract && (m.schema t.ID).isNone := by
        refine List.filter_congr fun t ht ↦ ?_
        obtain ⟨id', hid', ht⟩ := List.mem_filterMap.mp ht
        have hne : t.ID ≠ s.ID := by
          rw [(of_schemaMap ht).2, hID]
          rintro rfl
          exact hid hid'
        rcases Manager.schema_step m (.schema s) t.ID with hsame | ⟨s', heq, -, hID', -⟩
        · rw [hsame]
        · exact absurd (Act.schema.inj heq ▸ hID') hne
      rw [hothers] at hobjs
      refine ⟨m.added (.schema s) ++ new, ?_, ?_⟩
      · rw [← List.append_assoc, ← hfull.concreteSchemas_step]
        exact hnew
      · rw [List.map_append, hobjs, Manager.added]
        by_cases hmem : s.ID ∈ m.schemas
        · have hsome : (m.schema s.ID).isNone = false := by
            obtain ⟨r, hr⟩ := Manager.mem_schemas_iff.mp hmem
            rw [hr]
            rfl
          rw [if_neg fun hadds ↦ hadds.1 hmem, List.filter_cons_of_neg (by simp [hsome])]
          rfl
        · have hnone : m.schema s.ID = none := Manager.schema_eq_none_iff.mpr hmem
          rw [if_pos ⟨hmem, hconcrete⟩, List.filter_cons_of_pos (by simp [hnone, hconcrete]),
            List.map_singleton, Manager.link_obj, List.singleton_append]

omit [RegexpEngine] in
/-- In an order, no schema has a relation to a later one. -/
theorem Orders.pairwise (h : Orders prepared order) (hnodup : order.Nodup) :
    (order.filterMap (schemaMap prepared)).Pairwise fun s t ↦ ¬ s.RelatesTo t.ID := by
  rw [List.pairwise_filterMap]
  refine List.pairwise_iff_getElem.mpr fun i j hi hj hij s hs t ht hrelates ↦ ?_
  obtain ⟨hs, hsID⟩ := of_schemaMap hs
  obtain ⟨ht, htID⟩ := of_schemaMap ht
  have hlt := h.after s t ⟨hs, ht, .inl hrelates⟩
  rw [hsID, htID, hnodup.idxOf_getElem, hnodup.idxOf_getElem] at hlt
  exact absurd hlt (by omega)

omit [RegexpEngine] in
theorem Orders.not_relatesTo (h : Orders prepared order) {s : SchemaObj} (hs : s ∈ prepared) :
    ¬ s.RelatesTo s.ID :=
  fun hrelates ↦ absurd (h.after s s ⟨hs, hs, .inl hrelates⟩) (Nat.lt_irrefl _)

/-- **The loop leaves the schemas in order** if they are, and none of them has a relation to one
that it adds. -/
theorem inOrder_loop (hfull : m.Full) (hdistinct : (prepared.map SchemaObj.ID).Nodup)
    (horder : reorderSchemas prepared = .ok order)
    (h : forEach (registerByID prepared) order m = (.ok (), acts)) :
    (final Manager.step m acts).InOrder ↔ m.InOrder ∧ Backward m (.sorting prepared) := by
  have horders := orders_of_reorderSchemas hdistinct horder
  have hnodup : order.Nodup := horders.perm.nodup_iff.mpr hdistinct
  obtain ⟨new, hconcrete, hobjs⟩ := concreteSchemas_loop hfull hnodup h
  have hmem : ∀ s, (∃ r ∈ new, r.obj = s) ↔
      s ∈ prepared ∧ s.isAbstract = false ∧ m.schema s.ID = none := by
    intro s
    rw [← List.mem_map, hobjs, List.mem_filter, List.mem_filterMap]
    simp only [Bool.and_eq_true, Bool.not_eq_true', Option.isNone_iff_eq_none]
    refine and_congr_left fun _ ↦ ?_
    constructor
    · rintro ⟨id, -, hs⟩
      exact (of_schemaMap hs).1
    · intro hs
      have hid : s.ID ∈ order := mem_order horder hs
      obtain ⟨t, ht⟩ : ∃ t, schemaMap prepared s.ID = some t :=
        Option.isSome_iff_exists.mp (List.find?_isSome.mpr ⟨s, List.mem_reverse.mpr hs, by simp⟩)
      obtain ⟨hmem, hID⟩ := of_schemaMap ht
      obtain rfl := List.inj_on_of_nodup_map hdistinct hmem hs hID
      exact ⟨_, hid, ht⟩
  have hnew : Grounded (fun r t ↦ r.obj.RelatesTo t.obj.ID) new := by
    refine ⟨?_, fun r hr ↦ horders.not_relatesTo ((hmem r.obj).mp ⟨r, hr, rfl⟩).1⟩
    rw [← List.pairwise_map (f := Registered.obj) (R := fun s t ↦ ¬ s.RelatesTo t.ID), hobjs]
    exact (horders.pairwise hnodup).filter _
  have hsortable : Sortable prepared := isOk_reorderSchemas_iff.mp (by rw [horder]; rfl)
  rw [Manager.InOrder, hconcrete, grounded_append_iff, and_iff_right hnew, Manager.InOrder]
  refine and_congr_right fun _ ↦ ?_
  constructor
  · intro hbackward _ s hs habstract hfree r hr
    obtain ⟨t, ht, rfl⟩ := (hmem s).mpr ⟨hs, habstract, hfree⟩
    exact hbackward r hr t ht
  · intro hbackward r hr t ht
    obtain ⟨hs, habstract, hfree⟩ := (hmem t.obj).mp ⟨t, ht, rfl⟩
    exact hbackward hsortable t.obj hs habstract hfree r hr

end Loop

/-! ## Files -/

section Files

variable [Files] {m : Manager} {acts : List Act} {depth : ℕ} {filePath : String} {data : Dict}
  {read prepared : List SchemaObj} {as₁ as₂ as₃ as₄ as₅ as₆ : List Act}
  {load : String → Load Unit} {list : List Value}

/-- Nothing but abstract schemas is registered before there is an order. -/
theorem emits_prepareSchema_abstract (s : SchemaObj) :
    Prog.Emits (fun a ↦ ∃ t, a = .schema t ∧ t.isAbstract = true) (prepareSchema s) := by
  rw [prepareSchema]
  split
  · next habstract =>
    refine (emits_ignoringError ?_).bind fun _ ↦ Prog.Emits.pure _
    exact Prog.Emits.act ⟨s, rfl, habstract⟩ _
  · exact emits_extendByBases _ _ _

/-- A condition that is only about the moments in which an order is computed. -/
theorem FileRun.along_sorting_iff {P : Manager → Act → Prop}
    (hP : ∀ m a, (∀ schemas, a ≠ .sorting schemas) → P m a)
    (h : FileRun depth filePath m data read prepared as₁ as₂ as₃ as₄ as₅ as₆) :
    Along Manager.step P m (as₁ ++ as₂ ++ as₃ ++ as₄ ++ as₅ ++ as₆ ++ [.returned filePath]) ↔
      Along Manager.step P (final Manager.step m as₁) as₂ ∧
        P (sortingState m as₁ as₂ as₃) (.sorting prepared) := by
  obtain ⟨hplain₁, hschema₃, hplain₅₆⟩ := h.plain
  obtain ⟨loop, rfl, hloop⟩ := registerInOrder_eq_ok h.register
  have hschemas : ∀ a ∈ loop, a.IsSchema := by
    rcases hloop with ⟨-, rfl⟩ | ⟨order, -, hloop⟩
    · exact fun a ha ↦ absurd ha List.not_mem_nil
    · exact fun a ha ↦ Prog.Emits.forEach (fun id _ ↦ emits_registerByID prepared id) _ a
        (by rwa [hloop])
  have hother : ∀ {as : List Act}, (∀ a ∈ as, a.Plain ∨ a.IsSchema) →
      ∀ s, Along Manager.step P s as := by
    intro as has s
    refine Machine.along_of_forall fun s a ha ↦ hP s a fun schemas heq ↦ ?_
    rcases heq ▸ has a ha with hkind | hkind
    · exact hkind
    · exact hkind
  have h₁ := hother fun a ha ↦ .inl (hplain₁ a ha)
  have h₃ := hother fun a ha ↦ .inr (hschema₃ a ha)
  have h₄ := hother fun a ha ↦ .inr (hschemas a ha)
  have h₅ := hother fun a ha ↦ .inl (hplain₅₆ a (List.mem_append_left _ ha))
  have h₆ := hother fun a ha ↦ .inl (hplain₅₆ a (List.mem_append_right _ ha))
  have hreturned := fun s ↦ hP s (.returned filePath) fun _ heq ↦ by cases heq
  simp only [Machine.along_append, h₁, h₃, h₄, h₅, h₆, Along, hreturned, true_and, and_true,
    sortingState]

/-- **The step for one file.**  What it leaves is in order if what its included files have left is,
and it adds no schema that another one has a relation to. -/
theorem FileRun.inOrder_iff
    (h : FileRun depth filePath m data read prepared as₁ as₂ as₃ as₄ as₅ as₆) (hfull : m.Full)
    (hdistinct : (prepared.map SchemaObj.ID).Nodup) :
    (final Manager.step m
        (as₁ ++ as₂ ++ as₃ ++ as₄ ++ as₅ ++ as₆ ++ [.returned filePath])).InOrder ↔
      (final Manager.step (final Manager.step m as₁) as₂).InOrder ∧
        Backward (sortingState m as₁ as₂ as₃) (.sorting prepared) := by
  obtain ⟨-, -, hplain⟩ := h.plain
  obtain ⟨loop, rfl, hloop⟩ := registerInOrder_eq_ok h.register
  have hend : final Manager.step m
      (as₁ ++ as₂ ++ as₃ ++ (.sorting prepared :: loop) ++ as₅ ++ as₆ ++ [.returned filePath]) =
        final Manager.step (final Manager.step (sortingState m as₁ as₂ as₃) loop)
          (as₅ ++ as₆ ++ [.returned filePath]) := by
    simp only [sortingState, Machine.final_append]
    rfl
  have hsorting : (sortingState m as₁ as₂ as₃).Full := hfull.final _
  have hrest : (final Manager.step (final Manager.step (sortingState m as₁ as₂ as₃) loop)
      (as₅ ++ as₆ ++ [.returned filePath])).concreteSchemas =
        (final Manager.step (sortingState m as₁ as₂ as₃) loop).concreteSchemas := by
    refine (hsorting.final loop).concreteSchemas_final fun a ha schema heq ↦ ?_
    rcases List.mem_append.mp ha with ha | ha
    · exact absurd heq ((hplain a ha).ne_schema schema)
    · cases (List.mem_singleton.mp ha).symm.trans heq
  have hprepared : (sortingState m as₁ as₂ as₃).concreteSchemas =
      (final Manager.step (final Manager.step m as₁) as₂).concreteSchemas := by
    rw [sortingState, Machine.final_append, Machine.final_append]
    refine ((hfull.final as₁).final as₂).concreteSchemas_final fun a ha schema heq ↦ ?_
    obtain ⟨t, rfl, habstract⟩ := Prog.Emits.mapEach
      (fun s _ ↦ emits_prepareSchema_abstract s) _ a (by rwa [h.prepare])
    exact Act.schema.inj heq ▸ habstract
  rw [hend, Manager.inOrder_congr hrest, ← Manager.inOrder_congr hprepared]
  rcases hloop with ⟨hfail, rfl⟩ | ⟨order, horder, hloop⟩
  · -- there is no order, and nothing is registered
    refine (and_iff_left fun hsortable ↦ ?_).symm
    rw [isOk_reorderSchemas_iff.mpr hsortable] at hfail
    cases hfail
  · exact inOrder_loop hsorting hdistinct horder (by rwa [← sortingState] at hloop)

/-- The files that a file includes. -/
theorem inOrder_entries_iff
    (hload : ∀ fileName m as, load fileName m = (.ok (), as) → m.Full →
      Along Manager.step Distinct m as →
        ((final Manager.step m as).InOrder ↔ m.InOrder ∧ Along Manager.step Backward m as))
    (h : loadEntries load list m = (.ok read, acts)) (hfull : m.Full)
    (hdistinct : Along Manager.step Distinct m acts) :
    (final Manager.step m acts).InOrder ↔ m.InOrder ∧ Along Manager.step Backward m acts := by
  induction list generalizing m read acts with
  | nil =>
    obtain ⟨-, rfl⟩ := Prog.pure_eq_ok.mp h
    exact (and_iff_left trivial).symm
  | cons raw list ih =>
    rcases loadEntries_cons_eq_ok h with
      ⟨fileName, as, bs, -, hfile, hrest, rfl⟩ | ⟨_, s, rest, -, hrest, -⟩
    · obtain ⟨hfirst, hlater⟩ := Machine.along_append.mp hdistinct
      rw [Machine.final_append, Machine.along_append, ih hrest (hfull.final as) hlater,
        hload fileName m as hfile hfull hfirst, and_assoc]
    · exact ih hrest hfull hdistinct

/-- **Exactly when a load leaves the schemas in order**: if the call for a file returns nil, and no
file lists an identifier twice, then every schema with a table comes after those that it has
relations to, if and only if this was so before, and each time the schemas of a file are registered
no schema in the manager has a relation to one that is new. -/
theorem inOrder_iff_along (depth : ℕ) (filePath : String) (m : Manager) (acts : List Act)
    (h : loadSchemaFromFile depth filePath m = (.ok (), acts)) (hfull : m.Full)
    (hdistinct : Along Manager.step Distinct m acts) :
    (final Manager.step m acts).InOrder ↔ m.InOrder ∧ Along Manager.step Backward m acts := by
  induction depth generalizing filePath m acts with
  | zero => exact absurd (Prod.ext_iff.mp h).1 (Go.panicf_ne_ok _ _ _)
  | succ depth ih =>
    by_cases hne : filePath = ""
    · rw [loadSchemaFromFile, if_pos hne] at h
      obtain ⟨-, rfl⟩ := Prog.pure_eq_ok.mp h
      exact (and_iff_left trivial).symm
    obtain ⟨depth', data, read, prepared, as₁, as₂, as₃, as₄, as₅, as₆, heq, hrun, rfl⟩ :=
      loadSchemaFromFile_eq_ok hne h
    obtain rfl : depth = depth' := Nat.succ.inj heq
    have hnamespaces : (final Manager.step m as₁).concreteSchemas = m.concreteSchemas :=
      hfull.concreteSchemas_final fun a ha schema heq ↦
        absurd heq ((hrun.plain.1 a ha).ne_schema schema)
    obtain ⟨hincluded, hown⟩ := (hrun.along_sorting_iff distinct_of_ne).mp hdistinct
    rw [hrun.inOrder_iff hfull hown, hrun.along_sorting_iff backward_of_ne, ← and_assoc,
      inOrder_entries_iff ih hrun.entries (hfull.final as₁) hincluded,
      Manager.inOrder_congr hnamespaces]

omit [RegexpEngine] [Files] in
/-- The hosts come before the racks, and the zones, in a file that is included, before both. -/
theorem inOrder_site : letI := Re2.engine
    letI := ofContents siteFiles
    ∃ acts, loadSchemaFromFile 2 "site.yaml" {} = (.ok (), acts) ∧
      Along Manager.step Distinct {} acts ∧ (final Manager.step {} acts).InOrder ∧
      ((final Manager.step {} acts).InOrder ↔
        ({} : Manager).InOrder ∧ Along Manager.step Backward {} acts) := by
  let _ := Re2.engine
  let _ := ofContents siteFiles
  have hload : (loadSchemaFromFile 2 "site.yaml" {}).1 = .ok () := by decide +kernel
  have hnodup : ((loadSchemaFromFile 2 "site.yaml" {}).2.all fun a ↦ Distinct {} a) = true := by
    decide +kernel
  have horder : (final Manager.step {} (loadSchemaFromFile 2 "site.yaml" {}).2).InOrder := by
    decide +kernel
  obtain ⟨acts, hacts, hnodup, horder⟩ : ∃ acts, loadSchemaFromFile 2 "site.yaml" {} =
      (.ok (), acts) ∧ (∀ a ∈ acts, Distinct {} a) ∧ (final Manager.step {} acts).InOrder :=
    ⟨_, Prog.eq_ok_of_fst hload, fun a ha ↦ of_decide_eq_true (List.all_eq_true.mp hnodup a ha),
      horder⟩
  have hdistinct : Along Manager.step Distinct {} acts :=
    Machine.along_of_forall fun _ a ha ↦ hnodup a ha
  exact ⟨acts, hacts, hdistinct, horder,
    inOrder_iff_along 2 "site.yaml" {} acts hacts .empty hdistinct⟩

omit [RegexpEngine] [Files] in
/-- A schema that is loaded later, from another file, comes too late. -/
theorem not_inOrder_late : letI := Re2.engine
    ¬∀ [Files] (acts acts' : List Act), loadSchemaFromFile 1 "host.yaml" {} = (.ok (), acts) →
      loadSchemaFromFile 1 "zone.yaml" (final Manager.step {} acts) = (.ok (), acts') →
        (final Manager.step {} (acts ++ acts')).InOrder := by
  let _ := Re2.engine
  intro h
  let _ := ofContents [
    ("host.yaml", Value.map [("schemas", .list [definition "host" [] [relationTo "zone"]])]),
    ("zone.yaml", Value.map [("schemas", .list [definition "zone" [] []])])]
  have hhost : (loadSchemaFromFile 1 "host.yaml" {}).1 = .ok () := by decide +kernel
  have hzone : (loadSchemaFromFile 1 "zone.yaml"
      (final Manager.step {} (loadSchemaFromFile 1 "host.yaml" {}).2)).1 = .ok () := by
    decide +kernel
  exact absurd (h _ _ (Prog.eq_ok_of_fst hhost) (Prog.eq_ok_of_fst hzone)) (by decide +kernel)

end Files

end Loading

end Gohan
