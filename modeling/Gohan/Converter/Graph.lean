import Gohan.Converter.Inheritance

/-!
# The order of the bases

`graph.sort` starts its search at the schemas to convert, in whatever order the map of them is
visited, and makes a node for a base when it is first met.  `sort_spec` is about the graph `Extends`
itself, which says nothing of the search: the result is an order of what can be reached, or an error
if something of this is missing or on a cycle.
-/

set_option autoImplicit false

namespace Gohan.Converter

open Relation (ReflTransGen TransGen)

/-- A schema lists a base. -/
def Extends (all : SchemaSet) (a b : String) : Prop :=
  ∃ schema, all.lookup a = some schema ∧ b ∈ schema.bases

/-- What can be reached from the schemas to convert. -/
def Reached (toConvert all : SchemaSet) (id : String) : Prop :=
  ∃ a ∈ toConvert, ReflTransGen (Extends all) a id

/-- Something that is reached is not there, or is on a cycle. -/
def Broken (toConvert all : SchemaSet) : Prop :=
  ∃ id, Reached toConvert all id ∧ (id ∉ all ∨ TransGen (Extends all) id id)

/-- The list has what is reached, each once and after its bases. -/
structure BasesFirst (toConvert all : SchemaSet) (nodes : List String) : Prop where
  nodup : nodes.Nodup
  mem_iff : ∀ id, id ∈ nodes ↔ Reached toConvert all id
  before : ∀ a b, a ∈ nodes → Extends all a b → nodes.idxOf b < nodes.idxOf a

variable {toConvert other all : SchemaSet} {order nodes : List String} {a b id : String}

theorem Reached.tail (h : Reached toConvert all a) (hedge : Extends all a b) :
    Reached toConvert all b :=
  h.imp fun _ hpath ↦ ⟨hpath.1, hpath.2.tail hedge⟩

/-! ## The graph of the search -/

theorem extends_of_edge (h : Toposort.Edge (getNeighbours all) a b) : Extends all a b := by
  obtain ⟨bases, hbases, hb⟩ := h
  obtain ⟨schema, hschema, rfl, -⟩ := getNeighbours_eq_ok hbases
  exact ⟨schema, hschema, hb⟩

/-- Where the neighbours are known, they are the bases. -/
theorem edge_of_extends {bases : List String} (hbases : getNeighbours all a = .ok bases)
    (h : Extends all a b) : Toposort.Edge (getNeighbours all) a b := by
  obtain ⟨schema, hschema, hb⟩ := h
  obtain ⟨schema', hschema', rfl, -⟩ := getNeighbours_eq_ok hbases
  obtain rfl := Option.some.inj (hschema.symm.trans hschema')
  exact ⟨schema.bases, hbases, hb⟩

theorem mapM_getNode_error {names : List String} {fault : Fault}
    (h : (names.mapM fun name ↦ do
      let _ ← getNode all name
      Except.ok name) = .error fault) :
    (∃ name ∈ names, name ∉ all) ∧ ∃ format args, fault = .error format args := by
  induction names with
  | nil => cases h
  | cons name names ih =>
    rw [List.mapM_cons] at h
    cases hlookup : all.lookup name with
    | none =>
      rw [getNode, hlookup] at h
      obtain rfl := Except.error.inj h
      exact ⟨⟨name, List.mem_cons_self, AList.lookup_eq_none.mp hlookup⟩, _, _, rfl⟩
    | some schema =>
      rw [getNode_eq_ok.mpr hlookup, Go.ok_bind, Go.ok_bind] at h
      cases hrest : (names.mapM fun name ↦ do
          let _ ← getNode all name
          Except.ok name) with
      | ok rest => rw [hrest] at h; cases h
      | error fault' =>
        rw [hrest] at h
        obtain rfl := Except.error.inj h
        obtain ⟨⟨missing, hmem, hmissing⟩, hfault⟩ := ih hrest
        exact ⟨⟨missing, List.mem_cons_of_mem _ hmem, hmissing⟩, hfault⟩

/-- For want of a base there is an error. -/
theorem getNeighbours_eq_error {fault : Fault} (ha : a ∈ all)
    (h : getNeighbours all a = .error fault) :
    (∃ b, Extends all a b ∧ b ∉ all) ∧ ∃ format args, fault = .error format args := by
  obtain ⟨schema, hschema⟩ := Option.isSome_iff_exists.mp (AList.lookup_isSome.mpr ha)
  rw [getNeighbours, getNode_eq_ok.mpr hschema, Go.ok_bind] at h
  obtain ⟨⟨b, hb, hmissing⟩, hfault⟩ := mapM_getNode_error h
  exact ⟨⟨b, ⟨schema, hschema, hb⟩, hmissing⟩, hfault⟩

/-- What the search visits: it is reached, and it is there. -/
def Visited (toConvert all : SchemaSet) (id : String) : Prop := Reached toConvert all id ∧ id ∈ all

theorem Visited.edge (b c : String) (h : Visited toConvert all b)
    (hedge : Toposort.Edge (getNeighbours all) b c) : Visited toConvert all c :=
  ⟨h.1.tail (extends_of_edge hedge), edge_mem b c h.2 hedge⟩

/-! ## The search -/

section Search

variable (hsub : ∀ id ∈ toConvert, id ∈ all) (horder : order.Perm toConvert.keys)

include hsub horder

theorem visited_of_mem_order (h : id ∈ order) : Visited toConvert all id := by
  have hmem : id ∈ toConvert := AList.mem_keys.mp (horder.mem_iff.mp h)
  exact ⟨⟨id, hmem, .refl⟩, hsub id hmem⟩

theorem basesFirst_of_sort (h : sort all order = .ok nodes) :
    BasesFirst toConvert all nodes := by
  have hvisited (id : String) (hid : id ∈ order) := visited_of_mem_order hsub horder hid
  rw [sort] at h
  split at h
  · next s hs =>
    obtain rfl := Except.ok.inj h
    have hvisits := Toposort.foldlM_ok (P := Visited toConvert all)
      (fun t b u hb ht hu ↦ Toposort.visit_ok Visited.edge (hvisited b hb) ht hu)
      Toposort.Inv.start hs
    have hmem : ∀ id ∈ order, id ∈ s.done := fun id hid ↦ by
      simpa using (hvisits.inv.visited_iff id).mp (hvisits.visited id hid)
    have hedge (a b : String) (ha : a ∈ s.done) (hab : Extends all a b) :
        Toposort.Edge (getNeighbours all) a b := by
      obtain ⟨before, after, heq⟩ := List.append_of_mem ha
      obtain ⟨bases, hbases, -⟩ := hvisits.inv.sorted before a after heq
      exact edge_of_extends hbases hab
    have hbefore (a b : String) (ha : a ∈ s.done) (hab : Extends all a b) :
        s.done.idxOf b < s.done.idxOf a ∧ b ∈ s.done := by
      simpa using hvisits.inv.sorted.idxOf_lt hvisits.inv.nodup ha (hedge a b ha hab)
    refine ⟨by simpa using hvisits.inv.nodup, fun id ↦ ⟨fun hid ↦ (hvisits.inv.mem id hid).1, ?_⟩,
      fun a b ha hab ↦ (hbefore a b ha hab).1⟩
    rintro ⟨a, ha, hpath⟩
    induction hpath with
    | refl => exact hmem a (horder.mem_iff.mpr (AList.mem_keys.mpr ha))
    | tail _ hlast ih => exact (hbefore _ _ ih hlast).2
  · exact absurd h (Go.errorf_ne_ok _ _ _)
  · cases h
  · exact absurd h (Go.panicf_ne_ok _ _ _)

/-- An order of what is reached leaves nothing missing, and no cycle. -/
theorem not_broken_of_sort (h : sort all order = .ok nodes) : ¬Broken toConvert all := by
  have hfirst := basesFirst_of_sort hsub horder h
  have hsorted := (sort_eq_ok (fun id hid ↦ (visited_of_mem_order hsub horder hid).2) h).1
  rintro ⟨id, hid, hmissing | hcycle⟩
  · obtain ⟨before, after, heq⟩ := List.append_of_mem ((hfirst.mem_iff id).mpr hid)
    obtain ⟨bases, hbases, -⟩ := hsorted before id after heq
    obtain ⟨schema, hschema, -⟩ := getNeighbours_eq_ok hbases
    exact hmissing (AList.lookup_isSome.mp (by rw [hschema]; rfl))
  · have hdescends : ∀ b, TransGen (Extends all) id b →
        b ∈ nodes ∧ nodes.idxOf b < nodes.idxOf id := by
      intro b hb
      induction hb with
      | single hedge =>
        exact ⟨(hfirst.mem_iff _).mpr (hid.tail hedge),
          hfirst.before _ _ ((hfirst.mem_iff _).mpr hid) hedge⟩
      | tail _ hedge ih =>
        exact ⟨(hfirst.mem_iff _).mpr (((hfirst.mem_iff _).mp ih.1).tail hedge),
          (hfirst.before _ _ ih.1 hedge).trans ih.2⟩
    exact absurd (hdescends id hcycle).2 (lt_irrefl _)

/-- The search ends by itself, and when it ends in an error the graph is broken. -/
theorem broken_of_sort {fault : Fault} (h : sort all order = .error fault) :
    Broken toConvert all ∧ ∃ format args, fault = .error format args := by
  have hvisited (id : String) (hid : id ∈ order) := visited_of_mem_order hsub horder hid
  rw [sort] at h
  cases hfold : order.foldlM (Toposort.visit id (getNeighbours all) (all.keys.length + 1))
      .start with
  | ok s => rw [hfold] at h; cases h
  | error e =>
    obtain ⟨before, b, after, t, rfl, hbefore, hb⟩ := Toposort.foldlM_error hfold
    have hPb := hvisited b (by simp)
    have hvisits := Toposort.foldlM_ok (P := Visited toConvert all)
      (fun s c t hc hs h ↦ Toposort.visit_ok Visited.edge
        (hvisited c (List.mem_append_left _ hc)) hs h) Toposort.Inv.start hbefore
    have hidle : ∀ k, t.mark k ≠ .temporary := by
      intro k hk
      cases (hvisits.temporary_iff k).mp hk
    have hexplains := Toposort.visit_error Visited.edge (fun _ _ _ _ h ↦ h) hPb hvisits.inv
      (fun k hk ↦ absurd hk (hidle k)) hb
    have hfuel : e ≠ .fuel := by
      rintro rfl
      have hkeys : ∀ b, Visited toConvert all b → id b ∈ all.keys.toFinset :=
        fun b hb ↦ List.mem_toFinset.mpr (AList.mem_keys.mpr hb.2)
      refine Toposort.visit_ne_fuel Visited.edge hkeys hPb hvisits.inv ?_ hb
      refine Nat.lt_succ_of_le ((Finset.card_filter_le _ _).trans ?_)
      exact List.toFinset_card_le _
    rw [hfold] at h
    cases e with
    | cycle =>
      obtain rfl := Except.error.inj h
      obtain ⟨a, ha, hcycle⟩ := hexplains
      have hmono : ∀ a b, Toposort.Edge (getNeighbours all) a b → Extends all a b :=
        fun _ _ ↦ extends_of_edge
      exact ⟨⟨a, ha.1, .inr (TransGen.mono hmono _ _ hcycle)⟩, _, _, rfl⟩
    | next fault' =>
      obtain rfl := Except.error.inj h
      obtain ⟨a, ha, hnext⟩ := hexplains
      obtain ⟨⟨missing, hedge, hmissing⟩, hfault⟩ := getNeighbours_eq_error ha.2 hnext
      exact ⟨⟨missing, ha.1.tail hedge, .inl hmissing⟩, hfault⟩
    | fuel => exact absurd rfl hfuel

end Search

/-- **`graph.sort` puts bases first, or finds the graph broken**, whatever order the schemas to
convert are visited in.  The graph has both sets of schemas, as `createGraph` puts them together. -/
theorem sort_spec (toConvert other : SchemaSet) (horder : order.Perm toConvert.keys) :
    Go.Returns (sort (toConvert ∪ other) order) ∧
    ((∃ fault, sort (toConvert ∪ other) order = .error fault) ↔
      Broken toConvert (toConvert ∪ other)) ∧
    ∀ nodes, sort (toConvert ∪ other) order = .ok nodes →
      BasesFirst toConvert (toConvert ∪ other) nodes := by
  have hsub : ∀ id ∈ toConvert, id ∈ toConvert ∪ other :=
    fun id hid ↦ AList.mem_union.mpr (.inl hid)
  refine ⟨fun format args hpanic ↦ ?_, ⟨fun ⟨_, h⟩ ↦ (broken_of_sort hsub horder h).1,
    fun hbroken ↦ ?_⟩, fun nodes h ↦ basesFirst_of_sort hsub horder h⟩
  · obtain ⟨-, _, _, hfault⟩ := broken_of_sort hsub horder hpanic
    cases hfault
  · cases h : sort (toConvert ∪ other) order with
    | ok nodes => exact absurd hbroken (not_broken_of_sort hsub horder h)
    | error fault => exact ⟨fault, rfl⟩

/-- A schema with the given bases and no properties. -/
def bareSchema (name : String) (bases : List String) : Schema :=
  ⟨name, "", bases, ⟨name, ∅, []⟩⟩

/-- A port extends what is attached, which is not to be converted, and both extend a base. -/
theorem sort_spec_port :
    let toConvert : SchemaSet := GoMap.ofList [("port", bareSchema "port" ["attached", "base"]),
      ("base", bareSchema "base" [])]
    let other : SchemaSet := GoMap.ofList [("attached", bareSchema "attached" ["base"])]
    Go.Returns (sort (toConvert ∪ other) ["base", "port"]) ∧
    ((∃ fault, sort (toConvert ∪ other) ["base", "port"] = .error fault) ↔
      Broken toConvert (toConvert ∪ other)) ∧
    ∀ nodes, sort (toConvert ∪ other) ["base", "port"] = .ok nodes →
      BasesFirst toConvert (toConvert ∪ other) nodes :=
  sort_spec _ _ (by decide)

end Gohan.Converter
