import Gohan.Schema.Load
import Gohan.Logic.Visit
import Mathlib.Data.Finset.Image

/-!
# Which schemas a load registers

When `loadSchemaFromFile` returns nil, the schemas of the file that are not abstract should be in
the manager.  They are registered in the order that `reorderSchemas` computes, and when it finds
none, because the schemas refer to each other in a cycle, this is only logged: the order is nil and
nothing is registered.

`registers_iff` says exactly when all schemas of the file and of the files it includes have been
registered: when for each of these files the graph can be sorted, or the schemas are in the manager
already.
-/

set_option autoImplicit false

namespace Gohan

namespace Loading

open Machine (Prog Along final)
open Machine.Prog (lift act forEach mapEach attempt)

/-! ## The order -/

/-- A schema of the list refers to another one, by a relation or as a base. -/
def Refers (schemas : List SchemaObj) (s t : SchemaObj) : Prop :=
  t ∈ schemas ∧ t.ID ∈ s.relatedSchemas

/-- There is an order: no schema refers to itself by way of others.  Where an identifier occurs
twice it depends on the order of the list which of the two schemas is looked at. -/
def Sortable (schemas : List SchemaObj) : Prop :=
  if (schemas.map SchemaObj.ID).Nodup then
    ∀ s ∈ schemas, ¬Relation.TransGen (Refers schemas) s s
  else (reorderSchemas schemas).isOk = true

section Order

variable {schemas : List SchemaObj} {order : List String}

theorem mem_of_mem_candidates {s t : SchemaObj} (h : t ∈ candidates schemas s) : t ∈ schemas := by
  obtain ⟨id, _, hfind⟩ := List.mem_filterMap.mp h
  exact List.mem_of_find?_eq_some hfind

/-- The edges of the search. -/
theorem edge_iff {s t : SchemaObj} :
    Toposort.Edge (ε := Empty) (fun s ↦ .ok (candidates schemas s)) s t ↔
      t ∈ candidates schemas s := by
  constructor
  · rintro ⟨bs, hbs, ht⟩
    obtain rfl := Except.ok.inj hbs
    exact ht
  · exact fun h ↦ ⟨_, rfl, h⟩

theorem edge_closed (b c : SchemaObj) (_ : b ∈ schemas)
    (h : Toposort.Edge (ε := Empty) (fun s ↦ .ok (candidates schemas s)) b c) : c ∈ schemas :=
  mem_of_mem_candidates (edge_iff.mp h)

/-- Where identifiers are distinct, the first schema with an identifier is the one. -/
theorem mem_candidates_iff (hnodup : (schemas.map SchemaObj.ID).Nodup) {s t : SchemaObj} :
    t ∈ candidates schemas s ↔ Refers schemas s t := by
  constructor
  · intro h
    refine ⟨mem_of_mem_candidates h, ?_⟩
    obtain ⟨id, hid, hfind⟩ := List.mem_filterMap.mp h
    have heq : t.ID = id := by simpa using List.find?_some hfind
    rwa [heq]
  · rintro ⟨hmem, hid⟩
    refine List.mem_filterMap.mpr ⟨t.ID, hid, ?_⟩
    have hsome : (schemas.find? fun c ↦ c.ID == t.ID).isSome :=
      List.find?_isSome.mpr ⟨t, hmem, by simp⟩
    obtain ⟨c, hc⟩ := Option.isSome_iff_exists.mp hsome
    have hID : c.ID = t.ID := by simpa using List.find?_some hc
    rw [hc, List.inj_on_of_nodup_map hnodup (List.mem_of_find?_eq_some hc) hmem hID]

theorem pick_spec {s : Toposort.State String SchemaObj} {b : SchemaObj}
    (h : (schemas.filter fun schema ↦ s.mark schema.ID = .notVisited).getLast? = some b) :
    b ∈ schemas ∧ s.mark b.ID = .notVisited := by
  have hmem := List.mem_of_getLast? h
  simpa using hmem

theorem sortSchemas_ok {s : Toposort.State String SchemaObj} (h : sortSchemas schemas = .ok s) :
    Toposort.Inv SchemaObj.ID (fun s ↦ (.ok (candidates schemas s) : Except Empty _))
      (· ∈ schemas) s ∧ ∀ b ∈ schemas, s.mark b.ID = .visited := by
  obtain ⟨hvisits, hend⟩ := Toposort.exhaust_ok (P := (· ∈ schemas)) edge_closed
    (fun s b h ↦ (pick_spec h).1) Toposort.Inv.start h
  refine ⟨hvisits.inv, fun b hb ↦ ?_⟩
  have hnone : ∀ b ∈ schemas, s.mark b.ID ≠ .notVisited := by
    simpa [List.getLast?_eq_none_iff, List.filter_eq_nil_iff] using hend
  cases hmark : s.mark b.ID with
  | visited => rfl
  | notVisited => exact absurd hmark (hnone b hb)
  | temporary =>
    have hstart := (hvisits.temporary_iff b.ID).mp hmark
    cases hstart

theorem reorderSchemas_eq_ok (h : reorderSchemas schemas = .ok order) :
    ∃ s, sortSchemas schemas = .ok s ∧ order = s.done.map SchemaObj.ID := by
  rw [reorderSchemas] at h
  split at h
  · next s hs => exact ⟨s, hs, (Except.ok.inj h).symm⟩
  · exact absurd h (Go.errorf_ne_ok _ _ _)

/-- The order has the identifiers of all the schemas. -/
theorem mem_order (h : reorderSchemas schemas = .ok order) {s : SchemaObj} (hs : s ∈ schemas) :
    s.ID ∈ order := by
  obtain ⟨t, ht, rfl⟩ := reorderSchemas_eq_ok h
  obtain ⟨hinv, hvisited⟩ := sortSchemas_ok ht
  exact (hinv.visited_iff _).mp (hvisited s hs)

theorem sortSchemas_ne_fuel : sortSchemas schemas ≠ .error .fuel := by
  have hle : Toposort.fresh (schemas.map SchemaObj.ID).toFinset
      (.start : Toposort.State String SchemaObj) ≤ schemas.length :=
    (Finset.card_filter_le _ _).trans
      ((List.toFinset_card_le _).trans (List.length_map _).le)
  exact Toposort.exhaust_ne_fuel (P := (· ∈ schemas)) edge_closed
    (fun b hb ↦ List.mem_toFinset.mpr (List.mem_map_of_mem hb)) (fun s b h ↦ pick_spec h)
    Toposort.Inv.start (by omega) (by omega)

/-- **The schemas are put in order unless they refer to each other in a cycle.** -/
theorem isOk_reorderSchemas_iff : (reorderSchemas schemas).isOk = true ↔ Sortable schemas := by
  rw [Sortable]
  split
  · next hnodup =>
    have hkey : ∀ a b, a ∈ schemas → b ∈ schemas → a.ID = b.ID → a = b :=
      fun a b ha hb ↦ List.inj_on_of_nodup_map hnodup ha hb
    have hedges : Toposort.Edge (ε := Empty) (fun s ↦ .ok (candidates schemas s)) =
        Refers schemas := by
      funext s t
      exact propext (edge_iff.trans (mem_candidates_iff hnodup))
    rw [reorderSchemas]
    cases hsort : sortSchemas schemas with
    | ok s =>
      refine iff_of_true rfl fun a ha ↦ ?_
      obtain ⟨hinv, hvisited⟩ := sortSchemas_ok hsort
      have hdone : a ∈ s.done := by
        obtain ⟨b, hb, hID⟩ := List.mem_map.mp ((hinv.visited_iff _).mp (hvisited a ha))
        rwa [← hkey b a (hinv.mem b hb) ha hID]
      rw [← hedges]
      exact hinv.sorted.not_transGen hinv.nodup hinv.mem edge_closed hkey hdone
    | error e =>
      refine iff_of_false (by simp [Go.errorf, Except.isOk, Except.toBool]) fun hacyclic ↦ ?_
      have hexplains := Toposort.exhaust_error (P := (· ∈ schemas)) edge_closed hkey
        (fun s b h ↦ (pick_spec h).1) Toposort.Inv.start (fun k ↦ by simp [Toposort.State.start])
        hsort
      cases e with
      | cycle =>
        obtain ⟨a, ha, hcycle⟩ := hexplains
        rw [hedges] at hcycle
        exact hacyclic a ha hcycle
      | next e => cases e
      | fuel => exact sortSchemas_ne_fuel hsort
  · exact Iff.rfl

end Order

/-! ## Schemas that are read -/

variable [RegexpEngine] [Files]

omit [RegexpEngine] in
/-- What `Init` and `Extend` leave as it is. -/
structure SameSchema (s t : SchemaObj) : Prop where
  ID : t.ID = s.ID
  type : t.type = s.type

omit [RegexpEngine] in
theorem SameSchema.of_init {s t : SchemaObj} (h : s.init = .ok t) : SameSchema s t := by
  rw [SchemaObj.init] at h
  split at h
  · obtain rfl := Except.ok.inj h
    exact ⟨rfl, rfl⟩
  · obtain ⟨propertyObjs, -, h⟩ := Go.bind_eq_ok.mp h
    obtain ⟨indexObjs, -, h⟩ := Go.bind_eq_ok.mp h
    obtain rfl := Except.ok.inj h
    exact ⟨rfl, rfl⟩

omit [RegexpEngine] in
theorem SameSchema.of_extend {s base t : SchemaObj} (h : s.extend base = .ok t) :
    SameSchema s t := by
  obtain ⟨hID, htype⟩ := SameSchema.of_init h
  exact ⟨hID, htype⟩

omit [RegexpEngine] [Files] in
theorem requireString_eq_ok {typeData : Dict} {field value : String}
    (h : requireString typeData field = .ok value) : value = (typeData.get field).maybeString := by
  simp only [requireString] at h
  split at h
  · exact absurd h (Go.errorf_ne_ok _ _ _)
  · exact (Except.ok.inj h).symm

omit [RegexpEngine] in
/-- The identifier and the type are those of the definition. -/
theorem newSchemaFromObj_eq_ok {metaschema : Option SchemaObj} {raw : Value} {s : SchemaObj}
    (h : newSchemaFromObj metaschema raw = .ok s) : ∃ entries, raw = .map entries ∧
      s.ID = ((GoMap.ofList entries).get "id").maybeString ∧
      s.type = ((GoMap.ofList entries).get "type").maybeString := by
  cases raw with
  | map entries =>
    refine ⟨entries, rfl, ?_⟩
    simp only [newSchemaFromObj] at h
    obtain ⟨_, -, h⟩ := Go.bind_eq_ok.mp h
    obtain ⟨ID, hID, h⟩ := Go.bind_eq_ok.mp h
    obtain ⟨Plural, -, h⟩ := Go.bind_eq_ok.mp h
    obtain ⟨Title, -, h⟩ := Go.bind_eq_ok.mp h
    obtain ⟨Description, -, h⟩ := Go.bind_eq_ok.mp h
    obtain ⟨Singular, -, h⟩ := Go.bind_eq_ok.mp h
    split at h
    · have hsame := SameSchema.of_init h
      exact ⟨hsame.ID.trans (requireString_eq_ok hID), hsame.type⟩
    · exact absurd h (Go.errorf_ne_ok _ _ _)
  | _ => exact absurd h (Go.panicf_ne_ok _ _ _)

/-! ## The parts of a call -/

section Parts

variable {m : Manager} {acts : List Act} {depth : ℕ} {filePath : String} {data : Dict}
  {read prepared : List SchemaObj} {as₁ as₂ as₃ as₄ as₅ as₆ : List Act}

/-- The actions that are no schemas and no marks. -/
def Act.Plain : Act → Prop
  | .namespaceObj _ | .policy _ | .extension _ => True
  | _ => False

/-- The actions that only put a schema in. -/
def Act.IsSchema : Act → Prop
  | .schema _ => True
  | _ => False

omit [Files] in
theorem emits_registerSchema (s : SchemaObj) : Prog.Emits Act.IsSchema (registerSchema s) :=
  Prog.Emits.act trivial _

omit [Files] in
theorem emits_loadNamespace (v : Value) : Prog.Emits Act.Plain (loadNamespace v) :=
  (Prog.Emits.lift _).bind fun _ ↦ Prog.Emits.act trivial _

omit [Files] in
theorem emits_loadPolicy (filePath : String) (v : Value × ℕ) :
    Prog.Emits Act.Plain (loadPolicy filePath v) :=
  (Prog.Emits.lift _).bind fun _ ↦ Prog.Emits.act trivial _

theorem emits_loadExtension (filePath : String) (v : Value × ℕ) :
    Prog.Emits Act.Plain (loadExtension filePath v) :=
  (Prog.Emits.lift _).bind fun _ ↦ Prog.Emits.act trivial _

theorem emits_extendByBases (bases : List String) (s : SchemaObj) (Q : Act → Prop) :
    Prog.Emits Q (extendByBases bases s) := by
  induction bases generalizing s with
  | nil => exact Prog.Emits.pure _
  | cons base bases ih =>
    rw [extendByBases]
    refine Prog.Emits.get.bind fun m ↦ ?_
    split
    · exact Prog.Emits.lift _
    · split
      · exact Prog.Emits.lift _
      · exact (Prog.Emits.lift _).bind fun _ ↦ ih _

omit [Files] in
theorem emits_ignoringError {Q : Act → Prop} {x : Load Unit} (h : Prog.Emits Q x) :
    Prog.Emits Q (ignoringError x) := by
  refine h.attempt.bind fun result ↦ ?_
  split
  · exact Prog.Emits.lift _
  · exact Prog.Emits.pure _

theorem emits_prepareSchema (s : SchemaObj) : Prog.Emits Act.IsSchema (prepareSchema s) := by
  rw [prepareSchema]
  split
  · exact (emits_ignoringError (emits_registerSchema s)).bind fun _ ↦ Prog.Emits.pure _
  · exact emits_extendByBases _ _ _

omit [Files] in
theorem emits_registerByID (schemas : List SchemaObj) (id : String) :
    Prog.Emits Act.IsSchema (registerByID schemas id) := by
  rw [registerByID]
  split
  · exact Prog.Emits.lift _
  · split
    · exact Prog.Emits.pure _
    · exact emits_registerSchema _

/-- The marks of a run are those of the included files, of the order and of the end. -/
theorem FileRun.plain (h : FileRun depth filePath m data read prepared as₁ as₂ as₃ as₄ as₅ as₆) :
    (∀ a ∈ as₁, a.Plain) ∧ (∀ a ∈ as₃, a.IsSchema) ∧ (∀ a ∈ as₅ ++ as₆, a.Plain) := by
  refine ⟨fun a ha ↦ ?_, fun a ha ↦ ?_, fun a ha ↦ ?_⟩
  · exact Prog.Emits.forEach (fun v _ ↦ emits_loadNamespace v) m a (by rwa [h.namespaces])
  · exact Prog.Emits.mapEach (fun s _ ↦ emits_prepareSchema s) _ a (by rwa [h.prepare])
  · rcases List.mem_append.mp ha with ha | ha
    · exact Prog.Emits.forEach (fun v _ ↦ emits_loadPolicy filePath v) _ a (by rwa [h.policies])
    · exact Prog.Emits.forEach (fun v _ ↦ emits_loadExtension filePath v) _ a
        (by rwa [h.extensions])

/-! ### The list of schemas -/

variable {load : String → Load Unit} {list : List Value}

theorem loadEntries_cons_eq_ok {raw : Value}
    (h : loadEntries load (raw :: list) m = (.ok read, acts)) :
    (∃ fileName as bs, raw = .str fileName ∧ load fileName m = (.ok (), as) ∧
      loadEntries load list (final Manager.step m as) = (.ok read, bs) ∧ acts = as ++ bs) ∨
    (∃ metaschema s rest, newSchemaFromObj metaschema raw = .ok s ∧
      loadEntries load list m = (.ok rest, acts) ∧ read = s :: rest) := by
  rw [loadEntries] at h
  cases hstring : raw.string? with
  | some fileName =>
    simp only [hstring] at h
    obtain ⟨_, as, bs, hload, hrest, rfl⟩ := Prog.bind_eq_ok.mp h
    have hraw : raw = .str fileName := by
      cases raw with
      | str s => exact congrArg Value.str (Option.some.inj hstring)
      | _ => cases hstring
    exact .inl ⟨fileName, as, bs, hraw, hload, hrest, rfl⟩
  | none =>
    simp only [hstring] at h
    obtain ⟨s, hs, hrest⟩ := Prog.lift_bind_eq_ok.mp (Prog.get_bind_eq_ok.mp h)
    obtain ⟨rest, as, bs, hrest, hpure, rfl⟩ := Prog.bind_eq_ok.mp hrest
    obtain ⟨rfl, rfl⟩ := Prog.pure_eq_ok.mp hpure
    exact .inr ⟨_, s, rest, hs, by rwa [List.append_nil], rfl⟩

/-- The files that are included have been loaded in the course of the run. -/
theorem loadEntries_included (h : loadEntries load list m = (.ok read, acts)) {fileName : String}
    (hmem : .str fileName ∈ list) : ∃ before during after,
      load fileName (final Manager.step m before) = (.ok (), during) ∧
        acts = before ++ during ++ after := by
  induction list generalizing m read acts with
  | nil => cases hmem
  | cons raw list ih =>
    rcases loadEntries_cons_eq_ok h with
      ⟨first, as, bs, rfl, hload, hrest, rfl⟩ | ⟨metaschema, s, rest, hs, hrest, rfl⟩
    · rcases List.mem_cons.mp hmem with heq | hmem
      · obtain rfl := Value.str.inj heq
        exact ⟨[], as, bs, hload, rfl⟩
      · obtain ⟨before, during, after, hrun, rfl⟩ := ih hrest hmem
        exact ⟨as ++ before, during, after, by rwa [Machine.final_append], by simp⟩
    · rcases List.mem_cons.mp hmem with rfl | hmem
      · exact absurd hs (Go.panicf_ne_ok _ _ _)
      · exact ih hrest hmem

/-- The schemas that are read are those of the list. -/
theorem loadEntries_own (h : loadEntries load list m = (.ok read, acts)) :
    (∀ entries, .map entries ∈ list → ∃ s ∈ read, ∃ metaschema,
      newSchemaFromObj metaschema (.map entries) = .ok s) ∧
    (∀ s ∈ read, ∃ raw ∈ list, ∃ metaschema, newSchemaFromObj metaschema raw = .ok s) := by
  induction list generalizing m read acts with
  | nil =>
    obtain ⟨rfl, -⟩ := Prog.pure_eq_ok.mp h
    exact ⟨fun _ h ↦ absurd h List.not_mem_nil, fun _ h ↦ absurd h List.not_mem_nil⟩
  | cons raw list ih =>
    rcases loadEntries_cons_eq_ok h with
      ⟨first, as, bs, rfl, hload, hrest, rfl⟩ | ⟨metaschema, s, rest, hs, hrest, rfl⟩
    · obtain ⟨hto, hfrom⟩ := ih hrest
      refine ⟨fun entries hmem ↦ hto entries (by simpa using hmem), fun s hs ↦ ?_⟩
      obtain ⟨raw, hraw, hnew⟩ := hfrom s hs
      exact ⟨raw, List.mem_cons_of_mem _ hraw, hnew⟩
    · obtain ⟨hto, hfrom⟩ := ih hrest
      constructor
      · intro entries hmem
        rcases List.mem_cons.mp hmem with rfl | hmem
        · exact ⟨s, List.mem_cons_self, metaschema, hs⟩
        · obtain ⟨t, ht, hnew⟩ := hto entries hmem
          exact ⟨t, List.mem_cons_of_mem _ ht, hnew⟩
      · intro t ht
        rcases List.mem_cons.mp ht with rfl | ht
        · exact ⟨raw, List.mem_cons_self, metaschema, hs⟩
        · obtain ⟨raw', hraw, hnew⟩ := hfrom t ht
          exact ⟨raw', List.mem_cons_of_mem _ hraw, hnew⟩

/-! ### Preparing -/

omit [RegexpEngine] [Files] in
theorem SameSchema.refl (s : SchemaObj) : SameSchema s s := ⟨rfl, rfl⟩

omit [RegexpEngine] [Files] in
theorem SameSchema.trans {s t u : SchemaObj} (h : SameSchema s t) (h' : SameSchema t u) :
    SameSchema s u := ⟨h'.ID.trans h.ID, h'.type.trans h.type⟩

theorem extendByBases_eq_ok {bases : List String} {s t : SchemaObj}
    (h : extendByBases bases s m = (.ok t, acts)) : SameSchema s t := by
  induction bases generalizing s with
  | nil =>
    obtain ⟨rfl, -⟩ := Prog.pure_eq_ok.mp h
    exact SameSchema.refl s
  | cons base bases ih =>
    rw [extendByBases] at h
    have h := Prog.get_bind_eq_ok.mp h
    cases hbase : m.schema base with
    | none =>
      simp only [hbase] at h
      exact absurd (Prod.ext_iff.mp h).1 (Go.errorf_ne_ok _ _ _)
    | some baseSchema =>
      simp only [hbase] at h
      split at h
      · exact absurd (Prod.ext_iff.mp h).1 (Go.errorf_ne_ok _ _ _)
      · obtain ⟨u, hu, h⟩ := Prog.lift_bind_eq_ok.mp h
        exact (SameSchema.of_extend hu).trans (ih h)

/-- An abstract schema is in the manager afterwards, registered in full or not. -/
theorem prepareSchema_eq_ok {s t : SchemaObj} (h : prepareSchema s m = (.ok t, acts)) :
    SameSchema s t ∧ (t.isAbstract = true → (final Manager.step m acts).schema t.ID ≠ none) := by
  rw [prepareSchema] at h
  split at h
  · obtain ⟨_, as, bs, hregister, hpure, rfl⟩ := Prog.bind_eq_ok.mp h
    obtain ⟨rfl, rfl⟩ := Prog.pure_eq_ok.mp hpure
    refine ⟨SameSchema.refl s, fun _ ↦ ?_⟩
    obtain ⟨_, as₁, as₂, hattempt, _, rfl⟩ := Prog.bind_eq_ok.mp hregister
    have hrun := Prog.attempt_eq_ok.mp hattempt
    obtain rfl : [.schema s] = as₁ := congrArg Prod.snd hrun
    rw [List.append_nil, Machine.final_append]
    have hstored : (Manager.step m (.schema s)).schema s.ID ≠ none := by
      rw [Manager.step, Manager.registerSchema]
      split
      · next hmem => exact fun hnone ↦ Manager.schema_eq_none_iff.mp hnone hmem
      · simp [Manager.schema_store, Manager.link_obj]
    obtain ⟨r, hr⟩ := Option.ne_none_iff_exists'.mp hstored
    rw [Manager.schema_final (m := Machine.final Manager.step m [Act.schema s]) hr as₂]
    simp
  · next habstract =>
    have hsame := extendByBases_eq_ok h
    refine ⟨hsame, fun ht ↦ absurd ?_ habstract⟩
    rwa [SchemaObj.isAbstract, ← hsame.type]

theorem mapEach_prepareSchema_eq_ok (h : mapEach prepareSchema read m = (.ok prepared, acts)) :
    List.Forall₂ SameSchema read prepared ∧
      ∀ t ∈ prepared, t.isAbstract = true → (final Manager.step m acts).schema t.ID ≠ none := by
  induction read generalizing m prepared acts with
  | nil =>
    obtain ⟨rfl, -⟩ := Prog.pure_eq_ok.mp h
    exact ⟨List.Forall₂.nil, fun _ h ↦ absurd h List.not_mem_nil⟩
  | cons s read ih =>
    rw [mapEach] at h
    obtain ⟨t, as₁, bs₁, hs, h₁, rfl⟩ := Prog.bind_eq_ok.mp h
    obtain ⟨ts, as₂, bs₂, hread, h₂, rfl⟩ := Prog.bind_eq_ok.mp h₁
    obtain ⟨rfl, rfl⟩ := Prog.pure_eq_ok.mp h₂
    obtain ⟨hsame, hstored⟩ := prepareSchema_eq_ok hs
    obtain ⟨hsames, hstoreds⟩ := ih hread
    refine ⟨List.Forall₂.cons hsame hsames, fun u hu habstract ↦ ?_⟩
    rw [List.append_nil, Machine.final_append]
    rcases List.mem_cons.mp hu with rfl | hu
    · obtain ⟨r, hr⟩ := Option.ne_none_iff_exists'.mp (hstored habstract)
      rw [Manager.schema_final hr]
      simp
    · exact hstoreds u hu habstract

/-! ### Registering -/

omit [Files] in
theorem registerInOrder_eq_ok (h : registerInOrder prepared m = (.ok (), acts)) :
    ∃ as, acts = .sorting prepared :: as ∧
      (((reorderSchemas prepared).isOk = false ∧ as = []) ∨ ∃ order,
        reorderSchemas prepared = .ok order ∧
          forEach (registerByID prepared) order m = (.ok (), as)) := by
  obtain ⟨_, as₁, as, hsorting, hloop, rfl⟩ := Prog.bind_eq_ok.mp h
  obtain ⟨-, rfl⟩ := Prog.act_eq_ok.mp hsorting
  refine ⟨as, rfl, ?_⟩
  generalize reorderSchemas prepared = result at hloop ⊢
  cases result with
  | error e => exact .inl ⟨rfl, (Prog.pure_eq_ok.mp hloop).2⟩
  | ok order => exact .inr ⟨order, rfl, hloop⟩

/-- The identifier is that of a schema in the manager that has a URL. -/
def Manager.HasURL (m : Manager) (id : String) : Prop := ∃ r, m.schema id = some r ∧ r.URL ≠ ""

omit [Files] in
theorem Manager.HasURL.final {id : String} (h : m.HasURL id) (as : List Act) :
    (final Manager.step m as).HasURL id := by
  obtain ⟨r, hr, hurl⟩ := h
  exact ⟨r, Manager.schema_final hr as, hurl⟩

omit [RegexpEngine] [Files] in
theorem baseURL_ne_empty (s : SchemaObj) (n : Option Namespace) : Manager.baseURL s n ≠ "" := by
  cases n <;> simp only [Manager.baseURL] <;> split <;> simp [String.append_eq_empty_iff]

omit [Files] in
/-- A schema that is registered in full has a URL. -/
theorem url_link_ne_empty {s : SchemaObj} (h : (m.link s).2 = .ok ()) :
    (m.link s).1.URL ≠ "" := by
  obtain ⟨parentSchema, namespaceObj, -, -, hlink⟩ := Manager.link_eq_ok h
  obtain ⟨urlWithParents, hfst⟩ := Manager.withURLs_fst s parentSchema namespaceObj
  rw [hlink, hfst]
  simp [String.append_eq_empty_iff, baseURL_ne_empty]

omit [Files] in
/-- What the body of the loop has done when it succeeds. -/
theorem registerByID_eq_ok {id : String} (h : registerByID prepared id m = (.ok (), acts)) :
    ∃ s, schemaMap prepared id = some s ∧ ((s.isAbstract = true ∧ acts = []) ∨
      (s.isAbstract = false ∧ acts = [.schema s] ∧ (m.registerSchema s).2 = .ok ())) := by
  rw [registerByID] at h
  cases hs : schemaMap prepared id with
  | none =>
    simp only [hs] at h
    exact absurd (Prod.ext_iff.mp h).1 (Go.panicf_ne_ok _ _ _)
  | some s =>
    simp only [hs] at h
    split at h
    · next habstract => exact ⟨s, rfl, .inl ⟨habstract, (Prog.pure_eq_ok.mp h).2⟩⟩
    · next habstract =>
      obtain ⟨hok, hacts⟩ := Prog.act_eq_ok.mp h
      exact ⟨s, rfl, .inr ⟨by simpa using habstract, hacts, hok⟩⟩

omit [RegexpEngine] [Files] in
theorem of_schemaMap {id : String} {s : SchemaObj} (h : schemaMap prepared id = some s) :
    s ∈ prepared ∧ s.ID = id :=
  ⟨List.mem_reverse.mp (List.mem_of_find?_eq_some h), by simpa using List.find?_some h⟩

omit [Files] in
/-- What the loop puts in has a URL. -/
theorem url_of_loop {order : List String} {id : String} {r : Registered}
    (h : forEach (registerByID prepared) order m = (.ok (), acts)) (hnone : m.schema id = none)
    (hr : (final Manager.step m acts).schema id = some r) : r.URL ≠ "" := by
  induction order generalizing m acts with
  | nil =>
    obtain ⟨-, rfl⟩ := Prog.pure_eq_ok.mp h
    rw [show final Manager.step m [] = m from rfl, hnone] at hr
    cases hr
  | cons first order ih =>
    obtain ⟨as₁, as₂, hfirst, hrest, rfl⟩ := Prog.forEach_cons_eq_ok.mp h
    rw [Machine.final_append] at hr
    obtain ⟨s, -, ⟨-, rfl⟩ | ⟨-, rfl, hok⟩⟩ := registerByID_eq_ok hfirst
    · exact ih hrest hnone hr
    · rcases Manager.schema_step m (.schema s) id with hsame | ⟨t, heq, hfree, rfl, hnew⟩
      · exact ih hrest (hsame.trans hnone) hr
      · obtain rfl := Act.schema.inj heq
        have hkept := Manager.schema_final (m := Manager.step m (.schema s)) hnew as₂
        obtain rfl := Option.some.inj (hkept.symm.trans hr)
        exact url_link_ne_empty ((Manager.schema_registerSchema hok).2 hfree)

omit [Files] in
/-- **The schemas of the order are registered**, with a URL, if they were not in the manager. -/
theorem hasURL_of_loop {order : List String} {id : String}
    (h : forEach (registerByID prepared) order m = (.ok (), acts)) (hid : id ∈ order)
    (hnone : m.schema id = none) (hconcrete : ∀ s ∈ prepared, s.ID = id → s.isAbstract = false) :
    (final Manager.step m acts).HasURL id := by
  obtain ⟨before, during, after, hbody, rfl⟩ := Prog.forEach_mem h hid
  obtain ⟨s, hs, ⟨habstract, -⟩ | ⟨-, rfl, hok⟩⟩ := registerByID_eq_ok hbody
  · obtain ⟨hmem, hID⟩ := of_schemaMap hs
    rw [hconcrete s hmem hID] at habstract
    cases habstract
  · obtain ⟨r, hr⟩ := (Manager.schema_registerSchema hok).1
    rw [(of_schemaMap hs).2] at hr
    have hfinal : (final Manager.step m (before ++ [.schema s] ++ after)).schema id = some r := by
      rw [Machine.final_append, Machine.final_append]
      exact Manager.schema_final (m := Manager.step _ (.schema s)) hr after
    exact ⟨r, hfinal, url_of_loop h hnone hfinal⟩

end Parts

/-! ## All the schemas of a file -/

/-- The file, or one that it includes, lists a schema with the identifier that is not abstract. -/
inductive Lists : String → String → Prop
  | own {filePath : String} {data : Dict} {entries : List (String × Value)} :
      loadMap filePath = .ok data → .map entries ∈ listUnder data "schemas" →
        ((GoMap.ofList entries).get "type").maybeString ≠ "abstract" →
          Lists filePath ((GoMap.ofList entries).get "id").maybeString
  | included {filePath : String} {data : Dict} {fileName id : String} :
      loadMap filePath = .ok data → .str fileName ∈ listUnder data "schemas" → fileName ≠ "" →
        Lists fileName id → Lists filePath id

/-- Where a call for a file returns nil, all the schemas that the file lists are registered. -/
def Registers (m : Manager) : Act → Prop
  | .returned filePath => ∀ id, Lists filePath id → m.HasURL id
  | _ => True

/-- Where the order is computed, each schema that is not abstract has been registered already, or
its identifier is free and there is an order. -/
def CanRegister (m : Manager) : Act → Prop
  | .sorting schemas => ∀ s ∈ schemas, s.isAbstract = false →
      m.HasURL s.ID ∨ m.schema s.ID = none ∧ Sortable schemas
  | _ => True

section Files

variable {m : Manager} {acts : List Act} {depth : ℕ} {filePath : String} {data : Dict}
  {read prepared : List SchemaObj} {as₁ as₂ as₃ as₄ as₅ as₆ : List Act}
  {load : String → Load Unit} {list : List Value}

omit [Files] in
theorem Act.Plain.ne_schema {a : Act} (h : a.Plain) (s : SchemaObj) : a ≠ .schema s := by
  rintro rfl
  exact h

/-- Neither of the two conditions is about an action that is no mark. -/
theorem along_of_unmarked {as : List Act} (h : ∀ a ∈ as, a.Plain ∨ a.IsSchema) :
    Along Manager.step Registers m as ∧ Along Manager.step CanRegister m as := by
  refine ⟨Machine.along_of_forall fun s a ha ↦ ?_, Machine.along_of_forall fun s a ha ↦ ?_⟩
  all_goals
    have hkind := h a ha
    cases a <;> first | trivial | simp [Act.Plain, Act.IsSchema] at hkind

theorem along_entries_iff
    (hload : ∀ fileName m as, load fileName m = (.ok (), as) →
      (Along Manager.step Registers m as ↔ Along Manager.step CanRegister m as))
    (h : loadEntries load list m = (.ok read, acts)) :
    Along Manager.step Registers m acts ↔ Along Manager.step CanRegister m acts := by
  induction list generalizing m read acts with
  | nil =>
    obtain ⟨-, rfl⟩ := Prog.pure_eq_ok.mp h
    exact Iff.rfl
  | cons raw list ih =>
    rcases loadEntries_cons_eq_ok h with
      ⟨fileName, as, bs, -, hfile, hrest, rfl⟩ | ⟨_, s, rest, -, hrest, -⟩
    · rw [Machine.along_append, Machine.along_append]
      exact and_congr (hload fileName m as hfile) (ih hrest)
    · exact ih hrest

/-- The state in which the order is computed. -/
def sortingState (m : Manager) (as₁ as₂ as₃ : List Act) : Manager :=
  final Manager.step m (as₁ ++ as₂ ++ as₃)

/-- The two conditions on a run are those on the part for the included files, and each has one more
condition for the file itself. -/
theorem FileRun.along_iff
    (h : FileRun depth filePath m data read prepared as₁ as₂ as₃ as₄ as₅ as₆) :
    (Along Manager.step Registers m
        (as₁ ++ as₂ ++ as₃ ++ as₄ ++ as₅ ++ as₆ ++ [.returned filePath]) ↔
      Along Manager.step Registers (final Manager.step m as₁) as₂ ∧
        ∀ id, Lists filePath id →
          (final Manager.step m (as₁ ++ as₂ ++ as₃ ++ as₄ ++ as₅ ++ as₆)).HasURL id) ∧
    (Along Manager.step CanRegister m
        (as₁ ++ as₂ ++ as₃ ++ as₄ ++ as₅ ++ as₆ ++ [.returned filePath]) ↔
      Along Manager.step CanRegister (final Manager.step m as₁) as₂ ∧
        CanRegister (sortingState m as₁ as₂ as₃) (.sorting prepared)) := by
  obtain ⟨hplain₁, hschema₃, hplain₅₆⟩ := h.plain
  obtain ⟨loop, rfl, hloop⟩ := registerInOrder_eq_ok h.register
  have hschemas : ∀ a ∈ loop, a.IsSchema := by
    rcases hloop with ⟨-, rfl⟩ | ⟨order, -, hloop⟩
    · exact fun a ha ↦ absurd ha List.not_mem_nil
    · exact fun a ha ↦ Prog.Emits.forEach (fun id _ ↦ emits_registerByID prepared id) _ a
        (by rwa [hloop])
  have h₁ := fun s ↦ along_of_unmarked (m := s) fun a ha ↦ .inl (hplain₁ a ha)
  have h₃ := fun s ↦ along_of_unmarked (m := s) fun a ha ↦ .inr (hschema₃ a ha)
  have h₄ := fun s ↦ along_of_unmarked (m := s) fun a ha ↦ .inr (hschemas a ha)
  have h₅ := fun s ↦ along_of_unmarked (m := s) fun a ha ↦
    .inl (hplain₅₆ a (List.mem_append_left _ ha))
  have h₆ := fun s ↦ along_of_unmarked (m := s) fun a ha ↦
    .inl (hplain₅₆ a (List.mem_append_right _ ha))
  constructor
  · simp only [Machine.along_append, (h₁ _).1, (h₃ _).1, (h₄ _).1, (h₅ _).1, (h₆ _).1, Along,
      Registers, true_and, and_true]
  · simp only [Machine.along_append, (h₁ _).2, (h₃ _).2, (h₄ _).2, (h₅ _).2, (h₆ _).2, Along,
      CanRegister, true_and, and_true, sortingState]

/-- What is prepared comes from the definitions in the file, and the other way round. -/
theorem FileRun.mem_prepared_iff
    (h : FileRun depth filePath m data read prepared as₁ as₂ as₃ as₄ as₅ as₆) :
    (∀ s ∈ prepared, s.isAbstract = false → Lists filePath s.ID) ∧
      ∀ entries, .map entries ∈ listUnder data "schemas" →
        ((GoMap.ofList entries).get "type").maybeString ≠ "abstract" →
          ∃ s ∈ prepared, s.isAbstract = false ∧
            s.ID = ((GoMap.ofList entries).get "id").maybeString := by
  obtain ⟨hto, hfrom⟩ := loadEntries_own h.entries
  obtain ⟨hsame, -⟩ := mapEach_prepareSchema_eq_ok h.prepare
  have habstract : ∀ s : SchemaObj, s.isAbstract = false ↔ s.type ≠ "abstract" := fun s ↦ by
    simp [SchemaObj.isAbstract]
  constructor
  · intro s hs hconcrete
    obtain ⟨t, ht, hts⟩ := Visit.exists_mem_left hsame hs
    obtain ⟨raw, hraw, metaschema, hnew⟩ := hfrom t ht
    obtain ⟨entries, rfl, hID, htype⟩ := newSchemaFromObj_eq_ok hnew
    rw [hts.ID, hID]
    exact Lists.own h.loadMap hraw (by rwa [← htype, ← hts.type, ← habstract])
  · intro entries hentries htype
    obtain ⟨t, ht, metaschema, hnew⟩ := hto entries hentries
    obtain ⟨s, hs, hts⟩ := Visit.exists_mem_right hsame ht
    obtain ⟨entries', heq, hID, htype'⟩ := newSchemaFromObj_eq_ok hnew
    obtain rfl := Value.map.inj heq
    exact ⟨s, hs, by rwa [habstract, hts.type, htype'], by rw [hts.ID, hID]⟩

/-- **The step for one file**: its own schemas are registered when the condition is met where their
order is computed. -/
theorem FileRun.registers_iff
    (h : FileRun depth filePath m data read prepared as₁ as₂ as₃ as₄ as₅ as₆)
    (hincluded : ∀ fileName, .str fileName ∈ listUnder data "schemas" → fileName ≠ "" →
      ∀ id, Lists fileName id → (final Manager.step m (as₁ ++ as₂)).HasURL id) :
    (∀ id, Lists filePath id →
      (final Manager.step m (as₁ ++ as₂ ++ as₃ ++ as₄ ++ as₅ ++ as₆)).HasURL id) ↔
        CanRegister (sortingState m as₁ as₂ as₃) (.sorting prepared) := by
  obtain ⟨-, -, hplain⟩ := h.plain
  obtain ⟨hlisted, hdefined⟩ := h.mem_prepared_iff
  obtain ⟨-, hstored⟩ := mapEach_prepareSchema_eq_ok h.prepare
  obtain ⟨loop, rfl, hloop⟩ := registerInOrder_eq_ok h.register
  rw [← Machine.final_append] at hstored
  have hend : final Manager.step m (as₁ ++ as₂ ++ as₃ ++ (.sorting prepared :: loop) ++ as₅ ++ as₆)
      = final Manager.step (final Manager.step (sortingState m as₁ as₂ as₃) loop) (as₅ ++ as₆) := by
    simp only [sortingState, Machine.final_append]
    rfl
  have hrest : ∀ id, (final Manager.step (final Manager.step (sortingState m as₁ as₂ as₃) loop)
      (as₅ ++ as₆)).schema id = (final Manager.step (sortingState m as₁ as₂ as₃) loop).schema id :=
    Manager.schema_final_of_forall fun a ha ↦ (hplain a ha).ne_schema
  rw [hend]
  generalize hstate : sortingState m as₁ as₂ as₃ = sorting at hrest ⊢
  constructor
  · intro hregistered s hs hconcrete
    obtain ⟨r, hr, hurl⟩ := hregistered s.ID (hlisted s hs hconcrete)
    cases hbefore : sorting.schema s.ID with
    | some r' =>
      rw [hrest, Manager.schema_final hbefore] at hr
      obtain rfl := Option.some.inj hr
      exact .inl ⟨r', hbefore, hurl⟩
    | none =>
      refine .inr ⟨rfl, isOk_reorderSchemas_iff.mp ?_⟩
      rcases hloop with ⟨-, rfl⟩ | ⟨order, horder, -⟩
      · -- nothing was registered, so the schema would have been there before
        rw [hrest] at hr
        exact absurd (hbefore.symm.trans hr) (by simp)
      · rw [horder]
        rfl
  · intro hcan id hid
    cases hid with
    | @own _ data' entries hdata hentries htype =>
      obtain rfl : data' = data := Except.ok.inj (hdata.symm.trans h.loadMap)
      obtain ⟨s, hs, hconcrete, hID⟩ := hdefined entries hentries htype
      rw [← hID]
      refine Manager.HasURL.final ?_ _
      rcases hcan s hs hconcrete with hbefore | ⟨hnone, hsortable⟩
      · exact hbefore.final loop
      · rcases hloop with ⟨hfail, -⟩ | ⟨order, horder, hloop⟩
        · rw [isOk_reorderSchemas_iff.mpr hsortable] at hfail
          cases hfail
        · rw [← sortingState, hstate] at hloop
          refine hasURL_of_loop hloop (mem_order horder hs) hnone fun t ht htID ↦ ?_
          by_contra habstract
          have hsome := hstored t ht (by simpa using habstract)
          rw [← sortingState, hstate, htID] at hsome
          exact hsome hnone
    | @included _ data' fileName _ hdata hmem hne hid =>
      obtain rfl : data' = data := Except.ok.inj (hdata.symm.trans h.loadMap)
      refine Manager.HasURL.final (Manager.HasURL.final ?_ loop) _
      rw [← hstate, sortingState, Machine.final_append]
      exact (hincluded fileName hmem hne id hid).final as₃

/-- What is registered when a call for a file has returned. -/
theorem registers_of_along {s : Manager}
    (hload : loadSchemaFromFile depth filePath s = (.ok (), acts)) (hne : filePath ≠ "")
    (h : Along Manager.step Registers s acts) {id : String} (hid : Lists filePath id) :
    (final Manager.step s acts).HasURL id := by
  obtain ⟨_, _, _, _, _, _, _, _, _, _, _, hrun, rfl⟩ := loadSchemaFromFile_eq_ok hne hload
  rw [Machine.final_append]
  exact (hrun.along_iff.1.mp h).2 id hid

/-- **Exactly when all the schemas of a file and of the files it includes are registered**: if the
call returns nil, and so the calls for the included files do too, then each of the calls has
registered all the schemas of its file when it returns, if and only if, each time an order is
computed, it exists for the schemas that are not registered yet. -/
theorem loadSchemaFromFile_registers_iff (depth : ℕ) (filePath : String) (m : Manager)
    (acts : List Act) (h : loadSchemaFromFile depth filePath m = (.ok (), acts)) :
    Along Manager.step Registers m acts ↔ Along Manager.step CanRegister m acts := by
  induction depth generalizing filePath m acts with
  | zero => exact absurd (Prod.ext_iff.mp h).1 (Go.panicf_ne_ok _ _ _)
  | succ depth ih =>
    by_cases hne : filePath = ""
    · rw [loadSchemaFromFile, if_pos hne] at h
      obtain ⟨-, rfl⟩ := Prog.pure_eq_ok.mp h
      exact Iff.rfl
    obtain ⟨depth', data, read, prepared, as₁, as₂, as₃, as₄, as₅, as₆, heq, hrun, rfl⟩ :=
      loadSchemaFromFile_eq_ok hne h
    obtain rfl : depth = depth' := Nat.succ.inj heq
    obtain ⟨hregisters, hcan⟩ := hrun.along_iff
    rw [hregisters, hcan, ← along_entries_iff ih hrun.entries]
    refine and_congr_right fun hentries ↦ hrun.registers_iff fun fileName hmem hname id hid ↦ ?_
    obtain ⟨before, during, after, hfile, rfl⟩ := loadEntries_included hrun.entries hmem
    rw [Machine.along_append, Machine.along_append] at hentries
    have hduring := registers_of_along hfile hname hentries.1.2 hid
    rw [Machine.final_append, Machine.final_append, Machine.final_append]
    exact hduring.final after

/-- A file that includes another one. -/
def siteFiles : List (String × Value) := [
  ("site.yaml", .map [("schemas", .list [.str "zone.yaml",
    definition "host" [] [relationTo "zone"], definition "rack" [] [relationTo "host"]])]),
  ("zone.yaml", .map [("schemas", .list [definition "zone" [] []])])]

omit [RegexpEngine] [Files] in
theorem registers_site : letI := Re2.engine
    letI := ofContents siteFiles
    ∃ acts, loadSchemaFromFile 2 "site.yaml" {} = (.ok (), acts) ∧
      (Along Manager.step Registers {} acts ↔ Along Manager.step CanRegister {} acts) := by
  let _ := Re2.engine
  let _ := ofContents siteFiles
  have hload : (loadSchemaFromFile 2 "site.yaml" {}).1 = .ok () := by decide +kernel
  obtain ⟨acts, hacts⟩ : ∃ acts, loadSchemaFromFile 2 "site.yaml" {} = (.ok (), acts) :=
    ⟨(loadSchemaFromFile 2 "site.yaml" {}).2, Prog.eq_ok_of_fst hload⟩
  exact ⟨acts, hacts, loadSchemaFromFile_registers_iff 2 "site.yaml" {} acts hacts⟩

omit [RegexpEngine] [Files] in
/-- Two schemas that have relations to each other are not registered. -/
theorem not_registers_cycle : letI := Re2.engine
    ¬∀ [Files] (depth : ℕ) (filePath : String) (acts : List Act),
      loadSchemaFromFile depth filePath {} = (.ok (), acts) → filePath ≠ "" →
        ∀ id, Lists filePath id → (final Manager.step {} acts).HasURL id := by
  let _ := Re2.engine
  intro h
  let _ := ofContents [("loop.yaml", Value.map [("schemas", .list [
    definition "zone" [] [relationTo "host"], definition "host" [] [relationTo "zone"]])])]
  have hload : (loadSchemaFromFile 1 "loop.yaml" {}).1 = .ok () := by decide +kernel
  have hlists : Lists "loop.yaml" "zone" := by
    have hown : Lists "loop.yaml" _ := Lists.own rfl List.mem_cons_self (by decide +kernel)
    exact hown
  obtain ⟨r, hr, -⟩ := h 1 "loop.yaml" (loadSchemaFromFile 1 "loop.yaml" {}).2
    (Prog.eq_ok_of_fst hload) (by decide) "zone" hlists
  have hnone : ((final Manager.step {} (loadSchemaFromFile 1 "loop.yaml" {}).2).schema
    "zone").isNone = true := by decide +kernel
  rw [hr] at hnone
  cases hnone

end Files

end Loading

end Gohan
