import Gohan.Schema.LoadOrder

/-!
# What `reorderSchemas` returns

`visitSchema` is a depth-first search with three colours, and `reorderSchemas` starts it again until
every schema of the list is visited.  The search follows the identifiers of `relatedSchemas`: it
skips the ones no schema of the list has, and an identifier that is there twice is followed twice.

`reorderSchemas_spec` is about lists whose identifiers are distinct.  There the search is one of the
graph `Depends`, and its answer is an order of the list, or an error if the graph has a cycle.
-/

set_option autoImplicit false

namespace Gohan

namespace Loading

/-- A schema has a property that is a relation to the other one, or it extends it. -/
def SchemaObj.DependsOn (s t : SchemaObj) : Prop :=
  (t.ID ≠ "" ∧ ∃ p ∈ s.Properties, p.own.relation = t.ID) ∨ t.ID ∈ s.Extends

/-- The graph of relations and bases, restricted to the schemas of a list. -/
def Depends (schemas : List SchemaObj) (s t : SchemaObj) : Prop :=
  s ∈ schemas ∧ t ∈ schemas ∧ s.DependsOn t

/-- The order has every schema of the list once, and each after what it depends on. -/
structure Orders (schemas : List SchemaObj) (order : List String) : Prop where
  perm : order.Perm (schemas.map SchemaObj.ID)
  after : ∀ s t, Depends schemas s t → order.idxOf t.ID < order.idxOf s.ID

variable {schemas : List SchemaObj} {order : List String} {s t : SchemaObj}

theorem mem_relatedSchemas_iff : t.ID ∈ s.relatedSchemas ↔ s.DependsOn t := by
  rw [SchemaObj.relatedSchemas, mem_extendStringList, SchemaObj.DependsOn]
  refine or_congr_left ?_
  simp only [List.mem_filter, List.mem_map, bne_iff_ne, ne_eq]
  exact and_comm

/-- The edges that the search follows, from a schema of the list. -/
theorem refers_iff_depends (hs : s ∈ schemas) : Refers schemas s t ↔ Depends schemas s t := by
  rw [Refers, Depends, mem_relatedSchemas_iff]
  exact (and_iff_right hs).symm

/-- A path of the search stays in the list. -/
theorem transGen_refers_iff (hs : s ∈ schemas) :
    Relation.TransGen (Refers schemas) s t ↔ Relation.TransGen (Depends schemas) s t := by
  constructor
  · intro h
    have hpath : t ∈ schemas ∧ Relation.TransGen (Depends schemas) s t := by
      induction h with
      | single hedge => exact ⟨hedge.1, .single ((refers_iff_depends hs).mp hedge)⟩
      | tail _ hedge ih => exact ⟨hedge.1, ih.2.tail ((refers_iff_depends ih.1).mp hedge)⟩
    exact hpath.2
  · have hedges : ∀ s t, Depends schemas s t → Refers schemas s t :=
      fun s t hedge ↦ (refers_iff_depends hedge.1).mpr hedge
    exact Relation.TransGen.mono hedges s t

theorem Depends.mem_left_of_transGen (h : Relation.TransGen (Depends schemas) s t) :
    s ∈ schemas := by
  obtain ⟨_, hedge, -⟩ := Relation.TransGen.head'_iff.mp h
  exact hedge.1

theorem sortable_iff (hnodup : (schemas.map SchemaObj.ID).Nodup) :
    Sortable schemas ↔ ¬∃ s, Relation.TransGen (Depends schemas) s s := by
  rw [Sortable, if_pos hnodup, not_exists]
  constructor
  · intro h s hcycle
    have hs := Depends.mem_left_of_transGen hcycle
    exact h s hs ((transGen_refers_iff hs).mpr hcycle)
  · exact fun h s hs hcycle ↦ h s ((transGen_refers_iff hs).mp hcycle)

/-- What the search returns is an order. -/
theorem orders_of_reorderSchemas (hnodup : (schemas.map SchemaObj.ID).Nodup)
    (h : reorderSchemas schemas = .ok order) : Orders schemas order := by
  have hmem : ∀ {s}, s ∈ schemas → s.ID ∈ order := mem_order h
  obtain ⟨result, hresult, rfl⟩ := reorderSchemas_eq_ok h
  obtain ⟨hinv, hvisited⟩ := sortSchemas_ok hresult
  refine ⟨?_, fun s t hedge ↦ ?_⟩
  · refine (List.perm_ext_iff_of_nodup hinv.nodup hnodup).mpr fun id ↦ ?_
    constructor
    · intro hid
      obtain ⟨s, hs, rfl⟩ := List.mem_map.mp hid
      exact List.mem_map_of_mem (hinv.mem s hs)
    · intro hid
      obtain ⟨s, hs, rfl⟩ := List.mem_map.mp hid
      exact hmem hs
  · have hs := hedge.1
    -- where identifiers are distinct, the schema of the order is the one of the list
    obtain ⟨s', hs', hID⟩ := List.mem_map.mp (hmem hs)
    obtain rfl := List.inj_on_of_nodup_map hnodup (hinv.mem s' hs') hs hID
    have hcandidate := (mem_candidates_iff hnodup).mpr ((refers_iff_depends hs).mpr hedge)
    exact (hinv.sorted.idxOf_lt hinv.nodup hs' (edge_iff.mpr hcandidate)).1

/-- **`reorderSchemas` sorts the schemas, or finds a cycle.**  The bound on the search is never
reached. -/
theorem reorderSchemas_spec (hnodup : (schemas.map SchemaObj.ID).Nodup) :
    sortSchemas schemas ≠ .error .fuel ∧
    ((∃ fault, reorderSchemas schemas = .error fault) ↔
      ∃ s, Relation.TransGen (Depends schemas) s s) ∧
    ∀ order, reorderSchemas schemas = .ok order → Orders schemas order := by
  refine ⟨sortSchemas_ne_fuel, ?_, fun order ↦ orders_of_reorderSchemas hnodup⟩
  have hsortable := isOk_reorderSchemas_iff.trans (sortable_iff hnodup)
  cases hresult : reorderSchemas schemas with
  | ok order =>
    rw [hresult] at hsortable
    exact iff_of_false (by rintro ⟨_, hfault⟩; cases hfault) (hsortable.mp rfl)
  | error fault =>
    rw [hresult] at hsortable
    refine iff_of_true ⟨fault, rfl⟩ (not_not.mp fun hnone ↦ ?_)
    exact absurd (hsortable.mpr hnone) (by simp [Except.isOk, Except.toBool])

/-- A host extends a node, and both extend something that is not in the list. -/
theorem reorderSchemas_spec_host :
    let schemas := [bareSchema "host" ["node", "base"], bareSchema "node" ["base"]]
    sortSchemas schemas ≠ .error .fuel ∧
    ((∃ fault, reorderSchemas schemas = .error fault) ↔
      ∃ s, Relation.TransGen (Depends schemas) s s) ∧
    ∀ order, reorderSchemas schemas = .ok order → Orders schemas order :=
  reorderSchemas_spec (by decide)

end Loading

end Gohan
