import Gohan.Db.JoinQuery
import Gohan.Logic.Descent
import Gohan.Schema.Registry

/-!
# How deep the joins go

`MakeColumns`, `makeJoin` and `decode` follow the properties with a `relation_property` from schema
to schema, and none of them remembers where it has been.  With all schemas registered that are
referred to, they come back when no cycle can be reached, and then no path is longer than there are
schemas; otherwise the stack overflows (`terminating_iff`).

The loader looks for cycles when it puts the schemas of a file in order.  It does not see the ones
that go through several files: each of the two files of `crossing` has one schema, which refers to
that of the other, and both are registered.
-/

set_option autoImplicit false

namespace Gohan.Join

/-! ## The graph of the schemas -/

/-- A schema is joined to another one. -/
def Refers (schemas : List Schema) (s t : Schema) : Prop :=
  ∃ property ∈ s.properties, property.relationProperty ≠ "" ∧
    schemaByID schemas property.relation = some t

/-- What a schema is joined to is registered. -/
def TargetsRegistered (schemas : List Schema) (s : Schema) : Prop :=
  ∀ property ∈ s.properties, property.relationProperty ≠ "" →
    (schemaByID schemas property.relation).isSome = true

instance (schemas : List Schema) (s : Schema) : Decidable (TargetsRegistered schemas s) :=
  inferInstanceAs (Decidable (∀ property ∈ s.properties, _ → _))

/-- Everything that can be reached from a schema is registered. -/
def Closed (schemas : List Schema) (s : Schema) : Prop :=
  ∀ t, Relation.ReflTransGen (Refers schemas) s t → TargetsRegistered schemas t

variable {schemas : List Schema} {fields : Option (List String)} {join : Bool} {depth : ℕ}
  {s t : Schema} {properties : List Property} {relatedTree : Schema → Go Columns}

theorem mem_of_schemaByID {schemaID : String} (h : schemaByID schemas schemaID = some t) :
    t ∈ schemas := List.mem_of_find?_eq_some h

theorem Refers.mem (h : Refers schemas s t) : t ∈ schemas := by
  obtain ⟨property, -, -, ht⟩ := h
  exact mem_of_schemaByID ht

theorem mem_of_reaches (h : Relation.ReflTransGen (Refers schemas) s t) : t ∈ s :: schemas := by
  rcases Relation.ReflTransGen.cases_tail h with rfl | ⟨u, -, hu⟩
  · exact List.mem_cons_self
  · exact List.mem_cons_of_mem _ hu.mem

theorem closed_iff :
    Closed schemas s ↔ TargetsRegistered schemas s ∧ ∀ t, Refers schemas s t → Closed schemas t :=
  Descent.forall_reaches_iff

/-- Where every schema has what it refers to, so has everything that can be reached. -/
theorem closed_of_mem (h : ∀ t ∈ schemas, TargetsRegistered schemas t) (hs : s ∈ schemas) :
    Closed schemas s := by
  intro t ht
  rcases List.mem_cons.mp (mem_of_reaches ht) with rfl | hmem
  · exact h t hs
  · exact h t hmem

/-! ## The tree -/

theorem exists_columnsOf_iff :
    (∃ columns, Gohan.columnsOf relatedTree schemas fields true s properties = .ok columns) ↔
      ∀ property ∈ properties, property.relationProperty ≠ "" → ∃ t,
        schemaByID schemas property.relation = some t ∧ ∃ inner, relatedTree t = .ok inner := by
  induction properties with
  | nil => exact iff_of_true ⟨.done, rfl⟩ (by simp)
  | cons property properties ih =>
    rw [List.forall_mem_cons, ← ih]
    simp only [columnsOf_cons_eq_ok, and_true]
    constructor
    · rintro ⟨_, rest, hrest, ⟨hplain, -⟩ | ⟨-, t, inner, ht, hinner, -⟩⟩
      · exact ⟨fun hrel ↦ absurd hrel hplain, rest, hrest⟩
      · exact ⟨fun _ ↦ ⟨t, ht, inner, hinner⟩, rest, hrest⟩
    · rintro ⟨hproperty, rest, hrest⟩
      by_cases hrel : property.relationProperty = ""
      · exact ⟨_, rest, hrest, .inl ⟨not_not.mpr hrel, rfl⟩⟩
      · obtain ⟨t, ht, inner, hinner⟩ := hproperty hrel
        exact ⟨_, rest, hrest, .inr ⟨hrel, t, inner, ht, hinner, rfl⟩⟩

/-- **The tree is finished** when the paths are short enough and do not leave the schemas. -/
theorem exists_makeColumns_iff :
    (∃ columns, Gohan.makeColumns schemas fields true depth s = .ok columns) ↔
      Descent.Within (Refers schemas) depth s ∧ Closed schemas s := by
  induction depth generalizing s with
  | zero => simp [Gohan.makeColumns, Descent.Within]
  | succ depth ih =>
    rw [Gohan.makeColumns, exists_columnsOf_iff, closed_iff]
    simp only [ih]
    constructor
    · intro h
      have hnext (t : Schema) (ht : Refers schemas s t) :
          Descent.Within (Refers schemas) depth t ∧ Closed schemas t := by
        obtain ⟨property, hmem, hrel, ht⟩ := ht
        obtain ⟨u, hu, hdone⟩ := h property hmem hrel
        rwa [Option.some.inj (ht.symm.trans hu)]
      refine ⟨fun t ht ↦ (hnext t ht).1, fun property hmem hrel ↦ ?_, fun t ht ↦ (hnext t ht).2⟩
      obtain ⟨u, hu, -⟩ := h property hmem hrel
      rw [hu]
      rfl
    · rintro ⟨hwithin, hregistered, hclosed⟩ property hmem hrel
      obtain ⟨t, ht⟩ := Option.isSome_iff_exists.mp (hregistered property hmem hrel)
      have hrefers : Refers schemas s t := ⟨property, hmem, hrel, ht⟩
      exact ⟨t, ht, hwithin t hrefers, hclosed t hrefers⟩

/-- A tree that can be written down shows that there is no cycle. -/
theorem not_cyclic_of_isOk (depth : ℕ) (fields : Option (List String))
    (h : (Gohan.makeColumns schemas fields true depth s).isOk = true) :
    ¬Descent.Cyclic (Refers schemas) s := fun hcyclic ↦
  hcyclic.not_within (exists_makeColumns_iff.mp (Go.exists_ok_of_isOk h)).1

theorem columnsOf_error {fault : Fault}
    (hrelated : ∀ t, Refers schemas s t → ∀ fault, relatedTree t = .error fault →
      fault = stackOverflow)
    (hregistered : TargetsRegistered schemas s) (hsub : ∀ p ∈ properties, p ∈ s.properties)
    (h : Gohan.columnsOf relatedTree schemas fields true s properties = .error fault) :
    fault = stackOverflow := by
  induction properties with
  | nil => cases h
  | cons property properties ih =>
    obtain ⟨hmem, hsub⟩ := List.forall_mem_cons.mp hsub
    rw [Gohan.columnsOf] at h
    by_cases hrel : property.relationProperty = ""
    · rw [if_neg (by simp [hrel])] at h
      cases hrest : Gohan.columnsOf relatedTree schemas fields true s properties with
      | ok rest => rw [hrest] at h; cases h
      | error e => rw [hrest] at h; cases h; exact ih hsub hrest
    · rw [if_pos ⟨hrel, rfl⟩] at h
      obtain ⟨t, ht⟩ := Option.isSome_iff_exists.mp (hregistered property hmem hrel)
      rw [ht] at h
      cases hinner : relatedTree t with
      | error e =>
        simp only [hinner] at h
        cases h
        exact hrelated t ⟨property, hmem, hrel, ht⟩ _ hinner
      | ok inner =>
        simp only [hinner] at h
        cases hrest : Gohan.columnsOf relatedTree schemas fields true s properties with
        | ok rest => rw [hrest] at h; cases h
        | error e => rw [hrest] at h; cases h; exact ih hsub hrest

/-- With everything registered, nothing goes wrong but the stack. -/
theorem makeColumns_error {fault : Fault} (hclosed : Closed schemas s)
    (h : Gohan.makeColumns schemas fields true depth s = .error fault) : fault = stackOverflow := by
  induction depth generalizing s fault with
  | zero => exact (Except.error.inj h).symm
  | succ depth ih =>
    obtain ⟨hregistered, hnext⟩ := closed_iff.mp hclosed
    exact columnsOf_error (fun t ht _ ↦ ih (hnext t ht)) hregistered (fun _ ↦ id) h

/-! ## Coming back -/

variable {α : Type}

/-- A recursion comes back: there is a stack that is deep enough for it. -/
def Terminates (recursion : ℕ → Go α) : Prop :=
  ∃ depth, ∀ n ≥ depth, Go.Avoids stackOverflow (recursion n)

/-- A recursion that takes as much stack as the tree comes back unless it meets a cycle. -/
theorem terminates_iff (fields : Option (List String)) {recursion : ℕ → Go α}
    (hclosed : Closed schemas s)
    (hoverflow : ∀ n, Gohan.makeColumns schemas fields true n s = .error stackOverflow →
      recursion n = .error stackOverflow)
    (hdone : ∀ n columns, Gohan.makeColumns schemas fields true n s = .ok columns →
      Go.Avoids stackOverflow (recursion n)) :
    Terminates recursion ↔ ¬Descent.Cyclic (Refers schemas) s := by
  rw [← Descent.exists_within_iff fun t ↦ mem_of_reaches]
  constructor
  · rintro ⟨depth, h⟩
    cases htree : Gohan.makeColumns schemas fields true depth s with
    | ok columns => exact ⟨depth, (exists_makeColumns_iff.mp ⟨columns, htree⟩).1⟩
    | error fault =>
      rw [makeColumns_error hclosed htree] at htree
      exact absurd (hoverflow depth htree) (h depth le_rfl)
  · rintro ⟨depth, h⟩
    refine ⟨depth, fun n hn ↦ ?_⟩
    obtain ⟨columns, htree⟩ : ∃ columns, Gohan.makeColumns schemas fields true n s = .ok columns :=
      exists_makeColumns_iff.mpr ⟨h.mono hn, hclosed⟩
    exact hdone n columns htree

theorem Reads.terminates_iff {recursion : ℕ → Go α} {read : Columns → α}
    (hclosed : Closed schemas s)
    (h : ∀ n, Reads read (Gohan.makeColumns schemas fields true n s) (recursion n)) :
    Terminates recursion ↔ ¬Descent.Cyclic (Refers schemas) s := by
  refine Join.terminates_iff fields hclosed (fun n ↦ (h n).overflow) fun n columns hcolumns ↦ ?_
  rw [(h n).ok columns hcolumns]
  exact Go.avoids_ok _

/-- `MakeColumns` reads the tree too. -/
theorem reads_makeColumns (schemas : List Schema) (fields : Option (List String)) (join : Bool)
    (depth : ℕ) (s : Schema) (tableName : String) :
    Reads (selectColumns tableName) (Gohan.makeColumns schemas fields join depth s)
      (makeColumns schemas fields join depth s tableName) := by
  rw [makeColumns_eq]
  exact ⟨fun columns h ↦ by rw [h]; rfl, fun h ↦ by rw [h]; rfl⟩

/-! ## Lists -/

theorem avoids_mapM {β : Type} {f : α → Go β} (h : ∀ a, Go.Avoids stackOverflow (f a))
    (as : List α) : Go.Avoids stackOverflow (as.mapM f) := by
  induction as with
  | nil => exact Go.avoids_ok []
  | cons a as ih =>
    rw [List.mapM_cons]
    exact (h a).bind fun b ↦ ih.bind fun bs ↦ Go.avoids_ok (b :: bs)

section Filters

theorem avoids_getPropertyByID (s : Schema) (id : String) :
    Go.Avoids stackOverflow (s.getPropertyByID id) := by
  rw [Schema.getPropertyByID]
  split
  · exact Go.avoids_ok _
  · exact Go.avoids_errorf (by simp [stackOverflow])

theorem avoids_boolExpr (v : FilterVal) : Go.Avoids stackOverflow (boolExpr v) := by
  rw [boolExpr.eq_def]
  split
  · exact Go.avoids_ok _
  · exact Go.avoids_panicf (by simp [stackOverflow])

theorem avoids_comparison (filter : FilterElem) (column : String) (value : Value) :
    Go.Avoids stackOverflow (comparison filter column value) := by
  rw [comparison]
  split
  · split
    · exact Go.avoids_ok _
    · split
      · exact Go.avoids_ok _
      · exact Go.avoids_panicf (by simp [stackOverflow])
  · exact Go.avoids_panicf (by simp [stackOverflow])

theorem avoids_restriction (s : Schema) (filter : FilterElem) :
    Go.Avoids stackOverflow (restriction s filter) := by
  have hkey : Go.Avoids stackOverflow (propertyKey filter) := by
    rw [propertyKey]
    split
    · exact Go.avoids_ok _
    · exact Go.avoids_panicf (by simp [stackOverflow])
  refine hkey.bind fun key ↦ (avoids_getPropertyByID s key).bind fun property ↦ ?_
  split
  · exact Go.avoids_ok _
  · exact avoids_comparison _ _ _
  · exact Go.avoids_errorf (by simp [stackOverflow])
  · exact avoids_comparison _ _ _

mutual
theorem avoids_addToFilter (s : Schema) : ∀ filters : List FilterElem,
    Go.Avoids stackOverflow (addToFilter s filters)
  | [] => Go.avoids_ok []
  | filter :: filters => by
    have hrest (part : Sqlizer) := (avoids_addToFilter s filters).bind fun parts ↦
      Go.avoids_ok (part :: parts)
    rw [addToFilter]
    split
    · next r hr => exact (avoids_addUnder s _ filter r hr).bind fun parts ↦ hrest _
    · split
      · next r hr => exact (avoids_addUnder s _ filter r hr).bind fun parts ↦ hrest _
      · split
        · exact (avoids_boolExpr _).bind hrest
        · exact (avoids_restriction s filter).bind hrest

theorem avoids_addUnder (s : Schema) (key : String) : ∀ (filter : List (String × FilterVal))
    (r : Go (List Sqlizer)), addUnder s key filter = some r → Go.Avoids stackOverflow r
  | [], _, h => by cases h
  | (k, v) :: filter, r, h => by
    rw [addUnder] at h
    split at h
    · exact Option.some.inj h ▸ avoids_addElems s v
    · exact avoids_addUnder s key filter r h

theorem avoids_addElems (s : Schema) : ∀ v : FilterVal, Go.Avoids stackOverflow (addElems s v)
  | .elems filters => avoids_addToFilter s filters
  | .value _ => Go.avoids_panicf (by simp [stackOverflow])
  | .search _ => Go.avoids_panicf (by simp [stackOverflow])
end

theorem avoids_addKey (s : Schema) (filter : GoMap FilterVal) (key : String) (value : FilterVal) :
    Go.Avoids stackOverflow (addKey s filter key value) := by
  rw [addKey]
  split
  · exact (avoids_addElems s value).bind fun _ ↦ Go.avoids_ok _
  · split
    · exact (avoids_addElems s value).bind fun _ ↦ Go.avoids_ok _
    · split
      · exact avoids_boolExpr _
      · refine (avoids_getPropertyByID s key).bind fun property ↦ ?_
        split
        · exact Go.avoids_ok _
        · exact Go.avoids_ok _
        · exact Go.avoids_errorf (by simp [stackOverflow])

/-- Whatever is wrong with a filter, it does not take more stack than there is. -/
theorem avoids_addFilterToQuery (s : Schema) (filter : GoMap FilterVal) :
    Go.Avoids stackOverflow (addFilterToQuery s filter) := by
  rw [addFilterToQuery]
  induction filter.toList with
  | nil => exact Go.avoids_ok []
  | cons entry entries ih =>
    exact (avoids_addKey s filter entry.1 entry.2).bind fun part ↦
      ih.bind fun parts ↦ Go.avoids_ok (part :: parts)

end Filters

section Queries

variable {D : DB} {d : Dialect} {db : Database} {sc : SelectContext} {columns : Columns}

theorem avoids_toSql (st : Statement) : Go.Avoids stackOverflow (toSql st) := by
  rw [toSql]
  split
  · exact Go.avoids_errorf (by simp [stackOverflow])
  · exact Go.avoids_ok st

theorem avoids_execute (st : Statement) : Go.Avoids stackOverflow (execute D db d st) := by
  rw [execute]
  split
  · exact Go.avoids_ok _
  · split <;> exact Go.avoids_errorf (by simp [stackOverflow])

/-- The columns are collected first. -/
theorem listIn_overflow
    (h : Gohan.makeColumns D.schemas sc.fields sc.join depth s = .error stackOverflow) :
    listIn D d db depth s sc = .error stackOverflow := by
  rw [listIn, buildSelect, makeColumns_eq, h]
  rfl

/-- With the tree finished, nothing else takes more stack than there is. -/
theorem avoids_listIn
    (h : Gohan.makeColumns D.schemas sc.fields sc.join depth s = .ok columns) :
    Go.Avoids stackOverflow (listIn D d db depth s sc) := by
  have hcolumns := (reads_makeColumns D.schemas sc.fields sc.join depth s (tableOf D s)).ok _ h
  have hjoins : Go.Avoids stackOverflow (joinsIn D depth s sc) := by
    rw [joinsIn]
    split
    · next hjoin =>
      rw [hjoin] at h
      rw [(reads_makeJoin D.schemas D.legacy sc.fields depth s (tableOf D s)).ok _ h]
      exact Go.avoids_ok _
    · exact Go.avoids_ok []
  have hrow (st : Statement) (scope : Scope) :
      Go.Avoids stackOverflow (decodeRow D depth s sc st scope) := by
    rw [decodeRow, (reads_decode D.schemas sc.fields _ _ _ depth s _).ok _ h]
    exact Go.avoids_ok _
  refine Go.Avoids.bind ?_ fun st ↦ ?_
  · rw [buildSelect, hcolumns, Go.ok_bind]
    refine (avoids_addFilterToQuery s sc.filter).bind fun clause ↦ hjoins.bind fun joins ↦ ?_
    split <;> exact avoids_toSql _
  · refine Go.Avoids.bind ?_ fun list ↦ Go.avoids_ok _
    exact (avoids_execute st).bind fun rows ↦ avoids_mapM (hrow st) rows

end Queries

/-- **What is to come back**: the three recursions for a schema, and every list with details. -/
structure Terminating (D : DB) (s : Schema) : Prop where
  makeColumns : ∀ fields tableName,
    Terminates fun depth ↦ makeColumns D.schemas fields true depth s tableName
  makeJoin : ∀ tableName, Terminates fun depth ↦ makeJoin D.schemas D.legacy depth s tableName
  decode : ∀ skipNil data tableName,
    Terminates fun depth ↦ decode D.schemas skipNil true data depth s tableName
  list : ∀ d db filter options pg, options.Details = true →
    Terminates fun depth ↦ list D d db depth s filter (some options) pg

/-- **The joins of a schema come back exactly when it reaches no cycle.** -/
theorem terminating_iff (D : DB) (h : ∀ s ∈ D.schemas, TargetsRegistered D.schemas s) (s : Schema)
    (hs : s ∈ D.schemas) : Terminating D s ↔ ¬Descent.Cyclic (Refers D.schemas) s := by
  have hclosed := closed_of_mem h hs
  constructor
  · intro hterminating
    exact (Reads.terminates_iff hclosed fun n ↦
      reads_makeColumns D.schemas none true n s "").mp (hterminating.makeColumns none "")
  · intro hacyclic
    constructor
    · intro fields tableName
      exact (Reads.terminates_iff hclosed fun n ↦
        reads_makeColumns D.schemas fields true n s tableName).mpr hacyclic
    · intro tableName
      exact (Reads.terminates_iff hclosed fun n ↦
        reads_makeJoin D.schemas D.legacy none n s tableName).mpr hacyclic
    · intro skipNil data tableName
      exact (Reads.terminates_iff hclosed fun n ↦
        reads_decode D.schemas none skipNil true data n s tableName).mpr hacyclic
    · intro d db filter options pg hdetails
      let sc := listContextHelper s filter (some options) pg
      have hjoin : sc.join = true := hdetails
      refine (terminates_iff sc.fields hclosed (fun n hn ↦ ?_)
        fun n columns hn ↦ ?_).mpr hacyclic
      · exact listIn_overflow (hjoin.symm ▸ hn)
      · exact avoids_listIn (hjoin.symm ▸ hn)

/-! ## The schemas of the manager -/

open Loading (Manager loadSchemaFromFile ofContents definition)
open Machine (final)

/-- A schema of the manager, with the fields that queries read. -/
def toSchema (r : Loading.Registered) : Schema where
  id := r.obj.ID
  singular := r.obj.Singular
  plural := r.obj.Plural
  url := r.URL
  parent := r.obj.Parent
  metadata := r.obj.Metadata
  properties := r.obj.Properties.map (·.own)

section Managers

variable [RegexpEngine]

/-- The schemas that queries look up in the manager. -/
def querySchemas (m : Manager) : List Schema := (GoMap.toList m.schemas).map fun e ↦ toSchema e.2

/-- A query finds what the manager has under an identifier. -/
theorem schemaByID_querySchemas {m : Manager} (h : m.Keyed) (schemaID : String) :
    schemaByID (querySchemas m) schemaID = (m.schema schemaID).map toSchema := by
  have hkeyed : ∀ e ∈ GoMap.toList m.schemas, e.2.obj.ID = e.1 :=
    fun e he ↦ h e.1 e.2 (GoMap.mem_toList.mp he)
  rw [Manager.schema, ← GoMap.lookup_toList, querySchemas, schemaByID]
  generalize GoMap.toList m.schemas = entries at hkeyed ⊢
  induction entries with
  | nil => rfl
  | cons e entries ih =>
    obtain ⟨he, hentries⟩ := List.forall_mem_cons.mp hkeyed
    have hid : ((toSchema e.2).id == schemaID) = (schemaID == e.1) := by
      rw [← he, BEq.comm]
      rfl
    rw [List.map_cons, List.find?_cons, List.lookup_cons, hid, ih hentries]
    cases schemaID == e.1 <;> rfl

end Managers

/-- A property that a schema is joined by. -/
def joinTo (id : String) : String × Value :=
  (id ++ "_id", .map [("type", .str "string"), ("relation", .str id),
    ("relation_property", .str id)])

/-- Two files with a schema each, and relations from one to the other. -/
def crossing : List (String × Value) := [
  ("site.yaml", .map [("schemas", .list [.str "host.yaml", .str "zone.yaml"])]),
  ("host.yaml", .map [("schemas", .list [definition "host" [] [joinTo "zone"]])]),
  ("zone.yaml", .map [("schemas", .list [definition "zone" [] [joinTo "host"]])])]

/-- The schemas that the manager has then. -/
def crossingSchemas : List Schema :=
  letI := Re2.engine
  letI := ofContents crossing
  querySchemas (final Manager.step {} (loadSchemaFromFile 2 "site.yaml" {}).2)

theorem exists_refers {a b : String}
    (h : (schemaByID schemas a).map (fun s ↦ decide (∃ p ∈ s.properties,
      p.relationProperty ≠ "" ∧ p.relation = b)) = some true) :
    ∃ s, schemaByID schemas a = some s ∧
      ∀ t, schemaByID schemas b = some t → Refers schemas s t := by
  obtain ⟨s, hs, hp⟩ := Option.map_eq_some_iff.mp h
  obtain ⟨p, hmem, hrel, rfl⟩ := of_decide_eq_true hp
  exact ⟨s, hs, fun t ht ↦ ⟨p, hmem, hrel, ht⟩⟩

/-- Two schemas that refer to each other, each in a file of its own, are registered both. -/
theorem not_terminating : letI := Re2.engine
    ¬∀ [Files] (depth : ℕ) (filePath : String) (acts : List Loading.Act),
      loadSchemaFromFile depth filePath {} = (.ok (), acts) →
        ∀ D : DB, D.schemas = querySchemas (final Manager.step {} acts) →
          (∀ s ∈ D.schemas, TargetsRegistered D.schemas s) → ∀ s ∈ D.schemas, Terminating D s := by
  let _ := Re2.engine
  intro h
  let _ := ofContents crossing
  have hload : (loadSchemaFromFile 2 "site.yaml" {}).1 = .ok () := by decide +kernel
  have hlists : ∀ D : DB, D.schemas = crossingSchemas →
      (∀ s ∈ D.schemas, TargetsRegistered D.schemas s) → ∀ s ∈ D.schemas, Terminating D s :=
    h 2 "site.yaml" _ (Machine.Prog.eq_ok_of_fst hload)
  have hregistered : ∀ s ∈ crossingSchemas, TargetsRegistered crossingSchemas s := by
    decide +kernel
  obtain ⟨host, hhost, hzoneOf⟩ : ∃ s, schemaByID crossingSchemas "host" = some s ∧
      ∀ t, schemaByID crossingSchemas "zone" = some t → Refers crossingSchemas s t :=
    exists_refers (by decide +kernel)
  obtain ⟨zone, hzone, hhostOf⟩ : ∃ s, schemaByID crossingSchemas "zone" = some s ∧
      ∀ t, schemaByID crossingSchemas "host" = some t → Refers crossingSchemas s t :=
    exists_refers (by decide +kernel)
  have hcyclic : Descent.Cyclic (Refers crossingSchemas) host :=
    ⟨host, .refl, .tail (.single (hzoneOf zone hzone)) (hhostOf host hhost)⟩
  have hmem := mem_of_schemaByID hhost
  have hterminating := hlists { schemas := crossingSchemas, server := exactServer } rfl hregistered
    host hmem
  exact (Reads.terminates_iff (closed_of_mem hregistered hmem) fun n ↦
    reads_makeColumns crossingSchemas none true n host "").mp (hterminating.makeColumns none "")
      hcyclic

/-! ## Hosts and zones -/

/-- A zone. -/
def joinedZone : Schema := ⟨"zone", "zone", "zones", "/v1.0/zones", "", ∅, [{ id := "id" }]⟩

/-- A host, which is shown with its zone. -/
def joinedHost : Schema := ⟨"host", "host", "hosts", "/v1.0/hosts", "", ∅, [{ id := "id" },
  { id := "zone_id", relation := "zone", relationProperty := "zone" }]⟩

/-- Hosts that have a zone. -/
def joinedHosts : DB where
  schemas := [joinedZone, joinedHost]
  server := exactServer

theorem not_cyclic_hosts : ¬Descent.Cyclic (Refers joinedHosts.schemas) joinedHost :=
  not_cyclic_of_isOk 2 none (by decide +kernel)

theorem terminating_hosts : Terminating joinedHosts joinedHost :=
  (terminating_iff joinedHosts (by decide +kernel) joinedHost (by simp [joinedHosts])).mpr
    not_cyclic_hosts

end Gohan.Join
