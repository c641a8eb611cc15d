import Gohan.Schema.LoadErrors

/-!
# Loading files in any order

`OrderedLoadSchemasFromFiles` loads a list of files in up to eight passes: a file whose load fails
is loaded again in the next pass, when the files that it depends on may have been loaded.

What a failed load has put into the manager is still there then.  A schema whose parent was missing
is in the map and is skipped the next time, so it never gets its parent and its URL; and a file
that was included before the failure is loaded again, and adds its policies and its extensions once
more.  A file that includes one which is no map is given up, and its policies and extensions are
never recorded.  `orderedLoadSchemasFromFiles_loadedOnce_iff` says that these three are all that
goes wrong.
-/

set_option autoImplicit false

namespace Gohan

namespace Loading

open Machine (Prog Along final)
open Machine.Prog (lift act forEach mapEach attempt)

variable [RegexpEngine]

section Retry

variable [Files]

/-- One pass over the files: what is to be loaded again is collected, and in the last pass an error
is returned. -/
def loadPass (depth i : ℕ) : List String → Load (List String)
  | [] => pure []
  | filePath :: filePaths =>
    if filePath = "" then loadPass depth i filePaths
    else do
      match ← attempt (loadSchemaFromFile depth filePath) with
      | .ok () => loadPass depth i filePaths
      | .error (.panic format args) => lift (Go.panicf format args)
      | .error (.error format args) =>
        if Fault.error format args = notMap then loadPass depth i filePaths
        else if i = 1 then lift (Go.errorf format args)
        else do
          let rest ← loadPass depth i filePaths
          pure (filePath :: rest)

/-- The passes over the files that are left. -/
def loadPasses (depth : ℕ) : ℕ → List String → Load Unit
  | 0, _ => pure ()
  | i + 1, filePaths =>
    if filePaths = [] then pure ()
    else do
      let rest ← loadPass depth (i + 1) filePaths
      loadPasses depth i rest

/-- The maximum number of nested schemas. -/
def maxDepth : ℕ := 8

/-- `OrderedLoadSchemasFromFiles`. -/
def orderedLoadSchemasFromFiles (depth : ℕ) (filePaths : List String) : Load Unit :=
  loadPasses depth maxDepth filePaths

end Retry

/-! ## What a manager should hold -/

/-- The lists of a file whose entries are recorded. -/
inductive Kind where
  | policies
  | extensions

/-- The key of a file under which they are listed. -/
def Kind.key : Kind → String
  | policies => "policies"
  | extensions => "extensions"

/-- The places that what is recorded is from. -/
def Manager.origins (m : Manager) : Kind → List (String × ℕ)
  | .policies => m.policies.map Recorded.origin
  | .extensions => m.Extensions.map Recorded.origin

/-- A registered schema has what its parent, its namespace and its prefix require. -/
structure Initialised (m : Manager) (r : Registered) : Prop where
  parent : if r.obj.Parent = "" then r.ParentSchema = .none
    else ∃ p, m.schema r.obj.Parent = some p ∧ r.ParentSchema = .to p
  inNamespace : if r.obj.NamespaceID = "" then r.Namespace = none
    else ∃ n, r.Namespace = some n ∧ n.obj.ID = r.obj.NamespaceID
  url : r.URL = Manager.baseURL r.obj r.Namespace ++ r.obj.Plural
  urlWithParents : if r.obj.Parent = "" then r.URLWithParents = r.URL
    else ∃ parentURL, r.getParentURL = .ok parentURL ∧
      r.URLWithParents = Manager.baseURL r.obj r.Namespace ++ trimPrefix parentURL "/" ++ "/" ++
        r.obj.Plural

/-- What may be expected of a manager: no schema is half-initialised, and nothing is recorded
twice. -/
structure Complete (m : Manager) : Prop where
  schemas : ∀ id r, m.schema id = some r → Initialised m r
  namespaces : ∀ id n, m.namespaceByID id = some n → n.obj.ID = id
  origins : ∀ k, (m.origins k).Nodup

/-- When a schema is put in, its parent and its namespace are there; and what is recorded is not
there yet. -/
def Once (m : Manager) : Act → Prop
  | .schema s => m.schema s.ID = none →
      (s.Parent = "" ∨ m.schema s.Parent ≠ none) ∧
        (s.NamespaceID = "" ∨ m.namespaceByID s.NamespaceID ≠ none)
  | .policy p => p.origin ∉ m.origins .policies
  | .extension e => e.origin ∉ m.origins .extensions
  | _ => True

section Steps

variable {m m' : Manager} {r : Registered} {s : SchemaObj}

theorem Initialised.mono (h : Initialised m r)
    (hkept : ∀ id p, m.schema id = some p → m'.schema id = some p) : Initialised m' r where
  parent := by
    have hparent := h.parent
    split at hparent
    · next hnone => rwa [if_pos hnone]
    · next hsome =>
      obtain ⟨p, hp, hlink⟩ := hparent
      rw [if_neg hsome]
      exact ⟨p, hkept _ p hp, hlink⟩
  inNamespace := h.inNamespace
  url := h.url
  urlWithParents := h.urlWithParents

/-- The URL of the parents can be told. -/
theorem Initialised.getParentURL (h : Initialised m r) : ∃ url, r.getParentURL = .ok url := by
  by_cases hparent : r.obj.Parent = ""
  · have hnone := h.parent
    rw [if_pos hparent] at hnone
    obtain ⟨obj, parentSchema, namespaceObj, url, urlWithParents⟩ := r
    obtain rfl : parentSchema = .none := hnone
    exact ⟨"", by rw [Registered.getParentURL]⟩
  · have hurl := h.urlWithParents
    rw [if_neg hparent] at hurl
    obtain ⟨url, hurl, -⟩ := hurl
    exact ⟨url, hurl⟩

/-- A link is to what the manager has. -/
theorem schema_of_link {p : Registered} (h : (m.link s).1.ParentSchema = .to p) :
    m.schema s.Parent = some p := by
  have hparent : m.parentOf s = some (.to p) := by
    rw [Manager.link] at h
    split at h
    · cases h
    · next parentSchema hparent =>
      rw [hparent]
      split at h
      · exact congrArg some h
      · next namespaceObj _ =>
        obtain ⟨urlWithParents, hfst⟩ := Manager.withURLs_fst s parentSchema namespaceObj
        rw [hfst] at h
        exact congrArg some h
  rw [Manager.parentOf] at hparent
  split at hparent
  · cases hparent
  · split at hparent
    · cases hparent
    · obtain ⟨q, hq, heq⟩ := Option.map_eq_some_iff.mp hparent
      rw [hq, Link.to.inj heq]

theorem namespace_of_link {n : Namespace} (h : (m.link s).1.Namespace = some n) :
    m.namespaceByID s.NamespaceID = some n := by
  have hnamespace : m.namespaceOf s = some (some n) := by
    rw [Manager.link] at h
    split at h
    · cases h
    · next parentSchema _ =>
      split at h
      · cases h
      · next namespaceObj hnamespace =>
        obtain ⟨urlWithParents, hfst⟩ := Manager.withURLs_fst s parentSchema namespaceObj
        rw [hfst] at h
        rw [hnamespace]
        exact congrArg some h
  rw [Manager.namespaceOf] at hnamespace
  split at hnamespace
  · cases hnamespace
  · obtain ⟨q, hq, heq⟩ := Option.map_eq_some_iff.mp hnamespace
    rw [hq, heq]

/-- **A schema whose parent and namespace are there is initialised.** -/
theorem Complete.initialised_link (h : Complete m)
    (hnone : m.schema s.ID = none) (honce : Once m (.schema s)) : Initialised m (m.link s).1 := by
  obtain ⟨hparent, hnamespace⟩ := honce hnone
  obtain ⟨parentSchema, hparentOf, hlinked⟩ : ∃ parentSchema,
      m.parentOf s = some parentSchema ∧ if s.Parent = "" then parentSchema = .none
        else ∃ p, m.schema s.Parent = some p ∧ parentSchema = .to p := by
    rw [Manager.parentOf]
    by_cases hempty : s.Parent = ""
    · exact ⟨.none, by rw [if_pos hempty], by rw [if_pos hempty]⟩
    · obtain ⟨p, hp⟩ := Option.ne_none_iff_exists'.mp (hparent.resolve_left hempty)
      have hself : s.Parent ≠ s.ID := fun heq ↦ by simp [heq, hnone] at hp
      exact ⟨.to p, by rw [if_neg hempty, if_neg hself, hp]; rfl, by
        rw [if_neg hempty]; exact ⟨p, hp, rfl⟩⟩
  obtain ⟨namespaceObj, hnamespaceOf, hwithin⟩ : ∃ namespaceObj,
      m.namespaceOf s = some namespaceObj ∧ if s.NamespaceID = "" then namespaceObj = none
        else ∃ n, namespaceObj = some n ∧ n.obj.ID = s.NamespaceID := by
    rw [Manager.namespaceOf]
    by_cases hempty : s.NamespaceID = ""
    · exact ⟨none, by rw [if_pos hempty], by rw [if_pos hempty]⟩
    · obtain ⟨n, hn⟩ := Option.ne_none_iff_exists'.mp (hnamespace.resolve_left hempty)
      exact ⟨some n, by rw [if_neg hempty, hn]; rfl, by
        rw [if_neg hempty]; exact ⟨n, rfl, h.namespaces _ n hn⟩⟩
  have hlink : m.link s = Manager.withURLs s parentSchema namespaceObj := by
    rw [Manager.link, hparentOf, hnamespaceOf]
  rw [hlink, Manager.withURLs]
  by_cases hempty : s.Parent = ""
  · rw [if_pos hempty] at hlinked ⊢
    exact ⟨by rwa [if_pos hempty], hwithin, rfl, by rw [if_pos hempty]⟩
  · rw [if_neg hempty] at hlinked ⊢
    obtain ⟨p, hp, rfl⟩ := hlinked
    obtain ⟨parentURL, hparentURL⟩ := (h.schemas _ p hp).getParentURL
    have hurl : ∀ url urlWithParents, (⟨s, .to p, namespaceObj, url, urlWithParents⟩ :
        Registered).getParentURL = .ok (parentURL ++ "/" ++ p.obj.Plural ++ "/:" ++ s.Parent) := by
      intro url urlWithParents
      rw [Registered.getParentURL, hparentURL]
      rfl
    rw [hurl]
    refine ⟨?_, hwithin, rfl, ?_⟩
    · rw [if_neg hempty]
      exact ⟨p, hp, rfl⟩
    · rw [if_neg hempty]
      exact ⟨_, hurl _ _, rfl⟩

/-- The place of what an action records. -/
def Act.origin? : Kind → Act → Option (String × ℕ)
  | .policies, .policy p => some p.origin
  | .extensions, .extension e => some e.origin
  | _, _ => none

theorem origins_step (m : Manager) (a : Act) (k : Kind) :
    (m.step a).origins k = m.origins k ++ (a.origin? k).toList := by
  have hregister : ∀ s, (m.registerSchema s).1.origins k = m.origins k := by
    intro s
    rw [Manager.registerSchema]
    split <;> rfl
  have hnamespace : ∀ obj, (m.registerNamespace obj).1.origins k = m.origins k := by
    intro obj
    rw [Manager.registerNamespace]
    split
    · rfl
    · split <;> rfl
  cases a with
  | namespaceObj obj => cases k <;> simp [Manager.step, hnamespace, Act.origin?]
  | schema s => cases k <;> simp [Manager.step, hregister, Act.origin?]
  | policy p => cases k <;> simp [Manager.step, Manager.origins, Act.origin?]
  | extension e => cases k <;> simp [Manager.step, Manager.origins, Act.origin?]
  | sorting schemas => cases k <;> simp [Manager.step, Act.origin?]
  | returned filePath => cases k <;> simp [Manager.step, Act.origin?]

theorem origins_final (m : Manager) (as : List Act) (k : Kind) :
    (final Manager.step m as).origins k = m.origins k ++ as.filterMap (Act.origin? k) := by
  induction as generalizing m with
  | nil => exact (List.append_nil _).symm
  | cons a as ih =>
    have hrest := ih (m.step a)
    rw [origins_step] at hrest
    rw [show final Manager.step m (a :: as) = final Manager.step (m.step a) as from rfl, hrest,
      List.filterMap_cons]
    cases a.origin? k <;> simp

/-- What is recorded is new where nothing is recorded twice. -/
theorem once_iff_of_origin {a : Act} {k : Kind} {o : String × ℕ} (ha : a.origin? k = some o) :
    Once m a ↔ o ∉ m.origins k := by
  cases a <;> cases k <;> simp only [Act.origin?, Option.some.injEq, reduceCtorEq] at ha
  · rw [← ha, Once]
  · rw [← ha, Once]

theorem namespaces_step (h : ∀ id n, m.namespaceByID id = some n → n.obj.ID = id) (a : Act) :
    ∀ id n, (m.step a).namespaceByID id = some n → n.obj.ID = id := by
  intro id n hn
  have hinsert : ∀ (obj : NamespaceObj) (up : Option Namespace),
      (m.namespaces.insert obj.ID ⟨obj, up⟩).lookup id = some n → n.obj.ID = id := by
    intro obj up hlookup
    by_cases hid : id = obj.ID
    · rw [hid, AList.lookup_insert] at hlookup
      rw [← Option.some.inj hlookup, hid]
      rfl
    · rw [AList.lookup_insert_ne hid] at hlookup
      exact h id n hlookup
  cases a with
  | namespaceObj obj =>
    rw [Manager.step, Manager.registerNamespace] at hn
    split at hn
    · exact hinsert obj none hn
    · split at hn
      · exact h id n hn
      · exact hinsert obj _ hn
  | schema s =>
    rw [Manager.step, Manager.registerSchema] at hn
    split at hn <;> exact h id n hn
  | _ => exact h id n hn

/-- **The step**: an action that meets the condition keeps what may be expected. -/
theorem Complete.step (h : Complete m) {a : Act} (honce : Once m a) : Complete (m.step a) where
  schemas id r hr := by
    have hkept : ∀ id p, m.schema id = some p → (m.step a).schema id = some p :=
      fun id p hp ↦ Manager.schema_final hp [a]
    rcases Manager.schema_step m a id with hsame | ⟨s, rfl, hnone, rfl, hnew⟩
    · exact (h.schemas id r (hsame.symm.trans hr)).mono hkept
    · obtain rfl := Option.some.inj (hnew.symm.trans hr)
      exact (h.initialised_link hnone honce).mono hkept
  namespaces := namespaces_step h.namespaces a
  origins k := by
    rw [origins_step]
    cases ha : a.origin? k with
    | none => simpa using h.origins k
    | some o =>
      have hnew := (once_iff_of_origin ha).mp honce
      exact List.nodup_append.mpr ⟨h.origins k, List.nodup_singleton o, fun p hp q hq heq ↦
        hnew (by rwa [heq, List.mem_singleton.mp hq] at hp)⟩

/-- What an action that does not meet the condition leaves behind is never made good. -/
theorem once_of_complete_final {a : Act} {as : List Act}
    (h : Complete (final Manager.step (m.step a) as)) : Once m a := by
  have hrecorded : ∀ k o, a.origin? k = some o → o ∉ m.origins k := by
    intro k o ha hmem
    have hnodup := h.origins k
    rw [origins_final, origins_step, ha] at hnodup
    exact (List.nodup_append.mp (List.nodup_append.mp hnodup).1).2.2 o hmem o
      List.mem_cons_self rfl
  cases a with
  | schema s =>
    intro hnone
    have hnew : (m.step (.schema s)).schema s.ID = some (m.link s).1 := by
      rw [Manager.step, Manager.registerSchema, if_neg (Manager.schema_eq_none_iff.mp hnone),
        Manager.schema_store, Manager.link_obj, if_pos rfl]
    have hinit := h.schemas s.ID _ (Manager.schema_final hnew as)
    have hparent := hinit.parent
    have hnamespace := hinit.inNamespace
    rw [Manager.link_obj] at hparent hnamespace
    constructor
    · refine or_iff_not_imp_left.mpr fun hne ↦ ?_
      rw [if_neg hne] at hparent
      obtain ⟨p, -, hlink⟩ := hparent
      rw [schema_of_link hlink]
      simp
    · refine or_iff_not_imp_left.mpr fun hne ↦ ?_
      rw [if_neg hne] at hnamespace
      obtain ⟨n, hlink, -⟩ := hnamespace
      rw [namespace_of_link hlink]
      simp
  | policy p => exact hrecorded .policies p.origin rfl
  | extension e => exact hrecorded .extensions e.origin rfl
  | _ => trivial

/-- **The run**: the manager is as may be expected in the end exactly when every action of the run
meets the condition. -/
theorem complete_final_iff (h : Complete m) (as : List Act) :
    Complete (final Manager.step m as) ↔ Along Manager.step Once m as :=
  Machine.final_iff_along (fun _ _ h honce ↦ h.step honce)
    (fun _ _ _ _ h ↦ once_of_complete_final h) h

end Steps

/-! ## What a load records -/

variable [Files]

/-- A place in one of the lists of a file. -/
def Place (k : Kind) (o : String × ℕ) : Prop :=
  ∃ data, loadMap o.1 = .ok data ∧ o.2 < (listUnder data k.key).length

/-- The file is one of the list, or is included by one of them. -/
def PartOf (filePaths : List String) (filePath : String) : Prop :=
  ∃ f ∈ filePaths, f ≠ "" ∧ Relation.ReflTransGen Includes f filePath

/-- **What the manager should hold** when the files have been loaded: every registered schema is
initialised, and what the files list is recorded exactly once. -/
structure LoadedOnce (filePaths : List String) (m : Manager) : Prop where
  schemas : ∀ id r, m.schema id = some r → Initialised m r
  once : ∀ k o, PartOf filePaths o.1 → Place k o → (m.origins k).count o = 1

section Recording

variable {m : Manager} {acts : List Act} {depth i : ℕ} {filePath : String}
  {filePaths rest : List String}

/-- An action records nothing, or something from a place in a file that a load of this one comes to
the end of. -/
def RecordsFrom (filePath : String) (a : Act) : Prop :=
  ∀ k o, a.origin? k = some o → LoadsThrough filePath o.1 ∧ Place k o

omit [RegexpEngine] [Files] in
theorem snd_lt_of_mem_zipIdx {vs : List Value} {v : Value × ℕ} (h : v ∈ vs.zipIdx) :
    v.2 < vs.length := by
  have hlt := (List.mem_zipIdx (x := v.1) (i := v.2) h).2.1
  simpa using hlt

theorem recordsFrom_of_plain {a : Act} (h : ∀ k, a.origin? k = none) : RecordsFrom filePath a :=
  fun k o ho ↦ by rw [h k] at ho; cases ho

theorem recordsFrom_of_isSchema {a : Act} (h : a.IsSchema) : RecordsFrom filePath a := by
  refine recordsFrom_of_plain fun k ↦ ?_
  cases a <;> first | exact h.elim | cases k <;> rfl

/-- **A load records only what the files list that it comes to the end of.** -/
theorem emits_loadSchemaFromFile (depth : ℕ) (filePath : String) :
    Prog.Emits (RecordsFrom filePath) (loadSchemaFromFile depth filePath) := by
  induction depth generalizing filePath with
  | zero => exact Prog.Emits.lift _
  | succ depth ih =>
    rw [loadSchemaFromFile]
    split
    · exact Prog.Emits.pure _
    · refine Prog.Emits.lift_bind fun data hdata ↦ ?_
      have hown : AllMaps filePath → ∀ k position, position < (listUnder data k.key).length →
          ∀ a : Act, (∀ k' o, a.origin? k' = some o → k' = k ∧ o = (filePath, position)) →
            RecordsFrom filePath a := by
        intro hmaps k position hlt a ha k' o ho
        obtain ⟨rfl, rfl⟩ := ha k' o ho
        exact ⟨.whole hmaps .refl, data, hdata, hlt⟩
      have hentries : Prog.Emits (RecordsFrom filePath)
          (loadEntries (loadSchemaFromFile depth) (listUnder data "schemas")) := by
        refine emits_loadEntries fun earlier fileName later hlist hearlier m a ha ↦ ?_
        by_cases hne : fileName = ""
        · subst hne
          cases depth with
          | zero => cases ha
          | succ depth =>
            rw [loadSchemaFromFile, if_pos rfl] at ha
            cases ha
        · intro k o ho
          obtain ⟨hthrough, hplace⟩ := ih fileName m a ha k o ho
          refine ⟨loadsThrough_of_entry hdata hlist hne (fun name hmem hname ↦ ?_) hthrough, hplace⟩
          obtain ⟨m', acts, hload⟩ := hearlier name hmem
          exact allMaps_of_ok hname hload
      refine (Prog.Emits.forEach fun v _ m a ha ↦ ?_).bind fun _ ↦
        hentries.bind_of_ok fun read m' as hread ↦ ?_
      · have hact : Prog.Emits (RecordsFrom filePath) (loadNamespace v) :=
          (Prog.Emits.lift _).bind fun obj ↦
            Prog.Emits.act (recordsFrom_of_plain fun k ↦ by cases k <;> rfl) _
        exact hact m a ha
      -- the own policies and extensions are recorded when all entries have been loaded
      have hmaps : AllMaps filePath := by
        refine allMaps_of_entries hdata fun name hmem hname ↦ ?_
        obtain ⟨before, during, after, hload, -⟩ := loadEntries_included hread hmem
        exact allMaps_of_ok hname hload
      refine (Prog.Emits.mapEach fun s _ m a ha ↦ recordsFrom_of_isSchema
          (emits_prepareSchema s m a ha)).bind fun prepared ↦
        Prog.Emits.bind ?_ fun _ ↦
        (Prog.Emits.forEach fun v hv ↦ ?_).bind fun _ ↦
        (Prog.Emits.forEach fun v hv ↦ ?_).bind fun _ ↦
        Prog.Emits.act (recordsFrom_of_plain fun k ↦ by cases k <;> rfl) _
      · refine (Prog.Emits.act (recordsFrom_of_plain fun k ↦ by cases k <;> rfl) _).bind fun _ ↦ ?_
        split
        · exact Prog.Emits.pure _
        · exact Prog.Emits.forEach fun id _ m a ha ↦ recordsFrom_of_isSchema
            (emits_registerByID prepared id m a ha)
      · refine (Prog.Emits.lift _).bind fun p ↦ Prog.Emits.act (hown hmaps .policies v.2
          (snd_lt_of_mem_zipIdx hv) _ fun k o ho ↦ ?_) _
        cases k <;> simp only [Act.origin?, Option.some.injEq, reduceCtorEq] at ho
        exact ⟨rfl, ho.symm⟩
      · refine (Prog.Emits.lift _).bind fun p ↦ Prog.Emits.act (hown hmaps .extensions v.2
          (snd_lt_of_mem_zipIdx hv) _ fun k o ho ↦ ?_) _
        cases k <;> simp only [Act.origin?, Option.some.injEq, reduceCtorEq] at ho
        exact ⟨rfl, ho.symm⟩

omit [RegexpEngine] [Files] in
theorem exists_mem_zipIdx {vs : List Value} {position : ℕ} (h : position < vs.length) :
    ∃ v, (v, position) ∈ vs.zipIdx :=
  ⟨vs[position], List.mem_zipIdx_iff_getElem?.mpr (by simp [h])⟩

/-- A call that returns nil has recorded everything that its own file lists. -/
theorem recorded_own (hne : filePath ≠ "")
    (h : loadSchemaFromFile depth filePath m = (.ok (), acts)) {k : Kind} {o : String × ℕ}
    (hfile : o.1 = filePath) (hplace : Place k o) : ∃ a ∈ acts, a.origin? k = some o := by
  obtain ⟨depth', data, read, prepared, as₁, as₂, as₃, as₄, as₅, as₆, -, hrun, rfl⟩ :=
    loadSchemaFromFile_eq_ok hne h
  obtain ⟨data', hdata, hlt⟩ := hplace
  rw [hfile] at hdata
  obtain rfl : data' = data := Except.ok.inj (hdata.symm.trans hrun.loadMap)
  obtain ⟨v, hv⟩ := exists_mem_zipIdx hlt
  obtain ⟨file, position⟩ := o
  obtain rfl : file = filePath := hfile
  cases k with
  | policies =>
    obtain ⟨before, during, after, hbody, rfl⟩ := Prog.forEach_mem hrun.policies hv
    obtain ⟨p, -, hact⟩ := Prog.lift_bind_eq_ok.mp hbody
    obtain ⟨-, rfl⟩ := Prog.act_eq_ok.mp hact
    exact ⟨.policy ⟨file, position, p⟩, by simp, rfl⟩
  | extensions =>
    obtain ⟨before, during, after, hbody, rfl⟩ := Prog.forEach_mem hrun.extensions hv
    obtain ⟨e, -, hact⟩ := Prog.lift_bind_eq_ok.mp hbody
    obtain ⟨-, rfl⟩ := Prog.act_eq_ok.mp hact
    exact ⟨.extension ⟨file, position, e⟩, by simp, rfl⟩

/-- **A call that returns nil has recorded all that its files list.** -/
theorem recorded_of_ok (hne : filePath ≠ "")
    (h : loadSchemaFromFile depth filePath m = (.ok (), acts)) {k : Kind} {o : String × ℕ}
    (hreach : Relation.ReflTransGen Includes filePath o.1) (hplace : Place k o) :
    ∃ a ∈ acts, a.origin? k = some o := by
  induction depth generalizing filePath m acts with
  | zero => exact absurd (Prod.ext_iff.mp h).1 (Go.panicf_ne_ok _ _ _)
  | succ depth ih =>
    rcases Relation.ReflTransGen.cases_head hreach with heq | ⟨f, ⟨hf, data, hdata, hmem⟩, hreach⟩
    · exact recorded_own hne h heq.symm hplace
    · obtain ⟨depth', data', read, prepared, as₁, as₂, as₃, as₄, as₅, as₆, heq, hrun, rfl⟩ :=
        loadSchemaFromFile_eq_ok hne h
      obtain rfl : depth = depth' := Nat.succ.inj heq
      obtain rfl : data = data' := Except.ok.inj (hdata.symm.trans hrun.loadMap)
      obtain ⟨before, during, after, hload, rfl⟩ := loadEntries_included hrun.entries hmem
      obtain ⟨a, ha, ho⟩ := ih hf hload hreach
      exact ⟨a, by simp [ha], ho⟩

/-! ### Passes -/

/-- The file has been loaded in the course of the run. -/
def LoadedIn (depth : ℕ) (m : Manager) (acts : List Act) (filePath : String) : Prop :=
  ∃ before during after, loadSchemaFromFile depth filePath (final Manager.step m before) =
    (.ok (), during) ∧ acts = before ++ during ++ after

theorem LoadedIn.append_left {as : List Act}
    (h : LoadedIn depth (final Manager.step m as) acts filePath) :
    LoadedIn depth m (as ++ acts) filePath := by
  obtain ⟨before, during, after, hload, rfl⟩ := h
  exact ⟨as ++ before, during, after, by rwa [Machine.final_append], by simp⟩

theorem LoadedIn.append_right (h : LoadedIn depth m acts filePath) (as : List Act) :
    LoadedIn depth m (acts ++ as) filePath := by
  obtain ⟨before, during, after, hload, rfl⟩ := h
  exact ⟨before, during, after ++ as, hload, by simp⟩

/-- The file has been given up in the course of the run, because it is no map or includes one that
is none. -/
def GivenUpIn (depth : ℕ) (m : Manager) (acts : List Act) (filePath : String) : Prop :=
  ∃ before during after, loadSchemaFromFile depth filePath (final Manager.step m before) =
    (.error notMap, during) ∧ acts = before ++ during ++ after

theorem GivenUpIn.append_left {as : List Act}
    (h : GivenUpIn depth (final Manager.step m as) acts filePath) :
    GivenUpIn depth m (as ++ acts) filePath := by
  obtain ⟨before, during, after, hload, rfl⟩ := h
  exact ⟨as ++ before, during, after, by rwa [Machine.final_append], by simp⟩

theorem GivenUpIn.append_right (h : GivenUpIn depth m acts filePath) (as : List Act) :
    GivenUpIn depth m (acts ++ as) filePath := by
  obtain ⟨before, during, after, hload, rfl⟩ := h
  exact ⟨before, during, after ++ as, hload, by simp⟩

theorem subset_of_loadPass (h : loadPass depth i filePaths m = (.ok rest, acts)) :
    rest ⊆ filePaths := by
  induction filePaths generalizing m rest acts with
  | nil =>
    obtain ⟨rfl, -⟩ := Prog.pure_eq_ok.mp h
    exact List.Subset.refl _
  | cons first filePaths ih =>
    rw [loadPass] at h
    split at h
    · exact List.Subset.trans (ih h) (List.subset_cons_self _ _)
    · obtain ⟨result, as, bs, -, hnext, -⟩ := Prog.bind_eq_ok.mp h
      match result, hnext with
      | .ok (), hnext => exact List.Subset.trans (ih hnext) (List.subset_cons_self _ _)
      | .error (.panic format args), hnext =>
        exact absurd (congrArg Prod.fst hnext) (Go.panicf_ne_ok _ _ _)
      | .error (.error format args), hnext =>
        dsimp only at hnext
        split at hnext
        · exact List.Subset.trans (ih hnext) (List.subset_cons_self _ _)
        · split at hnext
          · exact absurd (congrArg Prod.fst hnext) (Go.errorf_ne_ok _ _ _)
          · obtain ⟨rest', as', bs', hloop, hpure, -⟩ := Prog.bind_eq_ok.mp hnext
            obtain ⟨rfl, -⟩ := Prog.pure_eq_ok.mp hpure
            exact List.cons_subset_cons _ (ih hloop)

/-- What one pass has done with a file. -/
theorem loadPass_eq_ok (h : loadPass depth i filePaths m = (.ok rest, acts)) :
    (∀ f ∈ filePaths, f ≠ "" →
      f ∈ rest ∨ LoadedIn depth m acts f ∨ GivenUpIn depth m acts f) ∧
      (i = 1 → rest = []) := by
  induction filePaths generalizing m rest acts with
  | nil =>
    obtain ⟨rfl, -⟩ := Prog.pure_eq_ok.mp h
    exact ⟨fun f hf ↦ absurd hf List.not_mem_nil, fun _ ↦ rfl⟩
  | cons first filePaths ih =>
    rw [loadPass] at h
    by_cases hempty : first = ""
    · rw [if_pos hempty] at h
      obtain ⟨hfiles, hlast⟩ := ih h
      refine ⟨fun f hf hne ↦ ?_, hlast⟩
      exact hfiles f ((List.mem_cons.mp hf).resolve_left fun heq ↦ hne (heq.trans hempty)) hne
    rw [if_neg hempty] at h
    obtain ⟨result, as, bs, hattempt, hnext, rfl⟩ := Prog.bind_eq_ok.mp h
    have hrun := Prog.attempt_eq_ok.mp hattempt
    have hlater : ∀ {rest'}, (∀ f ∈ filePaths, f ≠ "" → f ∈ rest' ∨
        LoadedIn depth (final Manager.step m as) bs f ∨
          GivenUpIn depth (final Manager.step m as) bs f) → rest' ⊆ rest →
          (first ∈ rest ∨ LoadedIn depth m (as ++ bs) first ∨
            GivenUpIn depth m (as ++ bs) first) →
            ∀ f ∈ first :: filePaths, f ≠ "" →
              f ∈ rest ∨ LoadedIn depth m (as ++ bs) f ∨ GivenUpIn depth m (as ++ bs) f := by
      intro rest' hfiles hsub hfirst f hf hne
      rcases List.mem_cons.mp hf with rfl | hf
      · exact hfirst
      · rcases hfiles f hf hne with hmem | hloaded | hgiven
        · exact .inl (hsub hmem)
        · exact .inr (.inl hloaded.append_left)
        · exact .inr (.inr hgiven.append_left)
    match result, hrun, hnext with
    | .ok (), hrun, hnext =>
      obtain ⟨hfiles, hlast⟩ := ih hnext
      exact ⟨hlater hfiles (List.Subset.refl _) (.inr (.inl ⟨[], as, bs, hrun, rfl⟩)), hlast⟩
    | .error (.panic format args), _, hnext =>
      exact absurd (congrArg Prod.fst hnext) (Go.panicf_ne_ok _ _ _)
    | .error (.error format args), hrun, hnext =>
      dsimp only at hnext
      split at hnext
      · next hnotMap =>
        obtain ⟨hfiles, hlast⟩ := ih hnext
        rw [hnotMap] at hrun
        exact ⟨hlater hfiles (List.Subset.refl _) (.inr (.inr ⟨[], as, bs, hrun, rfl⟩)), hlast⟩
      · split at hnext
        · exact absurd (congrArg Prod.fst hnext) (Go.errorf_ne_ok _ _ _)
        · next hpass =>
          obtain ⟨rest', as', bs', hloop, hpure, rfl⟩ := Prog.bind_eq_ok.mp hnext
          obtain ⟨rfl, rfl⟩ := Prog.pure_eq_ok.mp hpure
          obtain ⟨hfiles, -⟩ := ih hloop
          rw [List.append_nil] at hlater ⊢
          exact ⟨hlater hfiles (List.subset_cons_self _ _) (.inl List.mem_cons_self),
            fun h ↦ absurd h hpass⟩

/-- When all passes return nil, every file has been loaded or has been given up. -/
theorem loadPasses_eq_ok (h : loadPasses depth (i + 1) filePaths m = (.ok (), acts)) :
    ∀ f ∈ filePaths, f ≠ "" → LoadedIn depth m acts f ∨ GivenUpIn depth m acts f := by
  induction i generalizing filePaths m acts with
  | zero =>
    intro f hf hne
    rw [loadPasses, if_neg (List.ne_nil_of_mem hf)] at h
    obtain ⟨rest, as, bs, hpass, hrest, rfl⟩ := Prog.bind_eq_ok.mp h
    obtain ⟨hfiles, hlast⟩ := loadPass_eq_ok hpass
    rcases hfiles f hf hne with hmem | hloaded | hgiven
    · rw [hlast rfl] at hmem
      cases hmem
    · exact .inl (hloaded.append_right bs)
    · exact .inr (hgiven.append_right bs)
  | succ i ih =>
    intro f hf hne
    rw [loadPasses, if_neg (List.ne_nil_of_mem hf)] at h
    obtain ⟨rest, as, bs, hpass, hrest, rfl⟩ := Prog.bind_eq_ok.mp h
    obtain ⟨hfiles, -⟩ := loadPass_eq_ok hpass
    rcases hfiles f hf hne with hmem | hloaded | hgiven
    · rcases ih hrest f hmem hne with hloaded | hgiven
      · exact .inl hloaded.append_left
      · exact .inr hgiven.append_left
    · exact .inl (hloaded.append_right bs)
    · exact .inr (hgiven.append_right bs)

/-- A load of one of the files comes to the end of this one. -/
def Through (filePaths : List String) (filePath : String) : Prop :=
  ∃ f ∈ filePaths, f ≠ "" ∧ LoadsThrough f filePath

omit [RegexpEngine] in
theorem Through.partOf (h : Through filePaths filePath) : PartOf filePaths filePath := by
  obtain ⟨f, hf, hne, hthrough⟩ := h
  exact ⟨f, hf, hne, hthrough.reach⟩

/-- An action records nothing, or something from a place in a file that is loaded to its end. -/
def RecordsThrough (filePaths : List String) (a : Act) : Prop :=
  ∀ k o, a.origin? k = some o → Through filePaths o.1 ∧ Place k o

theorem emits_loadPass {all : List String} (hsub : filePaths ⊆ all) :
    Prog.Emits (RecordsThrough all) (loadPass depth i filePaths) := by
  induction filePaths with
  | nil => exact Prog.Emits.pure _
  | cons first filePaths ih =>
    have hrest := ih fun f hf ↦ hsub (List.mem_cons_of_mem _ hf)
    rw [loadPass]
    split
    · exact hrest
    · next hne =>
      have hfirst : Prog.Emits (RecordsThrough all) (attempt (loadSchemaFromFile depth first)) := by
        intro m a ha k o ho
        obtain ⟨hthrough, hplace⟩ := emits_loadSchemaFromFile depth first m a ha k o ho
        exact ⟨⟨first, hsub List.mem_cons_self, hne, hthrough⟩, hplace⟩
      refine hfirst.bind fun result ↦ ?_
      split
      · exact hrest
      · exact Prog.Emits.lift _
      · split
        · exact hrest
        · split
          · exact Prog.Emits.lift _
          · exact hrest.bind fun _ ↦ Prog.Emits.pure _

theorem emits_loadPasses {all : List String} (hsub : filePaths ⊆ all) :
    Prog.Emits (RecordsThrough all) (loadPasses depth i filePaths) := by
  induction i generalizing filePaths with
  | zero => exact Prog.Emits.pure _
  | succ i ih =>
    rw [loadPasses]
    split
    · exact Prog.Emits.pure _
    · exact (emits_loadPass hsub).bind_of_ok fun rest m as hpass ↦
        ih (List.Subset.trans (subset_of_loadPass hpass) hsub)

variable [LawfulFiles]

/-- **A load that ends at a file that is no map** has recorded all that the files list which it has
come to the end of. -/
theorem recorded_of_stopped (h : loadSchemaFromFile depth filePath m = (.error notMap, acts))
    {k : Kind} {o : String × ℕ} (hthrough : LoadsThrough filePath o.1) (hplace : Place k o) :
    ∃ a ∈ acts, a.origin? k = some o := by
  generalize hfile : o.1 = g at hthrough
  induction hthrough generalizing depth m acts with
  | whole hmaps _ =>
    exact absurd (congrArg Prod.fst h) (avoids_loadSchemaFromFile depth (fun _ ↦ hmaps) m)
  | before hstops hmem hne hreach =>
    obtain ⟨depth', hloaded, -⟩ := loadSchemaFromFile_stopped hstops h
    obtain ⟨before, during, after, hload, rfl⟩ := hloaded _ hmem
    obtain ⟨a, ha, ho⟩ := recorded_of_ok hne hload (by rwa [hfile]) hplace
    exact ⟨a, by simp [ha], ho⟩
  | within hstops _ ih =>
    obtain ⟨depth', -, before, during, hload, rfl⟩ := loadSchemaFromFile_stopped hstops h
    obtain ⟨a, ha, ho⟩ := ih hload hfile
    exact ⟨a, by simp [ha], ho⟩

/-- Every file with policies or extensions is loaded to its end, unless the manager has them
already: no load of a listed file ends, at a file that is no map, before it gets there. -/
def Reached (filePaths : List String) (m : Manager) : Prop :=
  ∀ k o, PartOf filePaths o.1 → Place k o → o ∈ m.origins k ∨ Through filePaths o.1

/-- **Exactly when the manager holds what the files list**: if loading them returns nil, then no
schema is half-initialised and all policies and extensions are recorded exactly once, if and only
if, at each step of the loading, a schema that is put in finds its parent and its namespace, and a
policy or an extension that is recorded has not been recorded before, and the files that list some
are loaded to their ends. -/
theorem orderedLoadSchemasFromFiles_loadedOnce_iff (depth : ℕ) (filePaths : List String)
    (m : Manager) (acts : List Act) (hm : Complete m)
    (h : orderedLoadSchemasFromFiles depth filePaths m = (.ok (), acts)) :
    LoadedOnce filePaths (final Manager.step m acts) ↔
      Along Manager.step Once m acts ∧ Reached filePaths m := by
  have hrecords : ∀ a ∈ acts, RecordsThrough filePaths a := fun a ha ↦
    emits_loadPasses (List.Subset.refl filePaths) m a (by
      rw [orderedLoadSchemasFromFiles] at h
      rwa [h])
  have hall : ∀ k o, Through filePaths o.1 → Place k o →
      o ∈ (final Manager.step m acts).origins k := by
    rintro k o ⟨f, hf, hne, hthrough⟩ hplace
    obtain ⟨a, ha, ho⟩ : ∃ a ∈ acts, a.origin? k = some o := by
      rcases loadPasses_eq_ok h f hf hne with ⟨before, during, after, hload, rfl⟩ |
        ⟨before, during, after, hload, rfl⟩
      · obtain ⟨a, ha, ho⟩ := recorded_of_ok hne hload hthrough.reach hplace
        exact ⟨a, by simp [ha], ho⟩
      · obtain ⟨a, ha, ho⟩ := recorded_of_stopped hload hthrough hplace
        exact ⟨a, by simp [ha], ho⟩
    rw [origins_final]
    exact List.mem_append_right _ (List.mem_filterMap.mpr ⟨a, ha, ho⟩)
  rw [← complete_final_iff hm]
  constructor
  · intro hloaded
    refine ⟨⟨hloaded.schemas, ?_, fun k ↦ List.nodup_iff_count_le_one.mpr fun o ↦ ?_⟩,
      fun k o hpart hplace ↦ ?_⟩
    · have hinv : ∀ t ∈ Machine.states Manager.step m acts,
          ∀ id n, t.namespaceByID id = some n → n.obj.ID = id :=
        Machine.invariant_of_along (fun s a hs (_ : True) ↦ namespaces_step hs a) hm.namespaces
          (Machine.along_of_forall fun _ _ _ ↦ trivial)
      exact hinv _ (Machine.final_mem_states m acts)
    · by_cases hnew : o ∈ acts.filterMap (Act.origin? k)
      · obtain ⟨a, ha, ho⟩ := List.mem_filterMap.mp hnew
        obtain ⟨hthrough, hplace⟩ := hrecords a ha k o ho
        exact (hloaded.once k o hthrough.partOf hplace).le
      · rw [origins_final, List.count_append, List.count_eq_zero.mpr hnew, Nat.add_zero]
        exact List.nodup_iff_count_le_one.mp (hm.origins k) o
    -- what is recorded once in the end was there before, or has been recorded on the way
    · have hmem : o ∈ (final Manager.step m acts).origins k :=
        List.count_pos_iff.mp (by rw [hloaded.once k o hpart hplace]; exact Nat.one_pos)
      rw [origins_final] at hmem
      rcases List.mem_append.mp hmem with hold | hnew
      · exact .inl hold
      · obtain ⟨a, ha, ho⟩ := List.mem_filterMap.mp hnew
        exact .inr (hrecords a ha k o ho).1
  · rintro ⟨hcomplete, hreached⟩
    refine ⟨hcomplete.schemas, fun k o hpart hplace ↦
      List.count_eq_one_of_mem (hcomplete.origins k) ?_⟩
    rcases hreached k o hpart hplace with hold | hthrough
    · rw [origins_final]
      exact List.mem_append_left _ hold
    · exact hall k o hthrough hplace

end Recording

/-! ## A parent and its child -/

omit [Files] in
theorem complete_empty : Complete {} where
  schemas _ _ h := by cases h
  namespaces _ _ h := by cases h
  origins k := by cases k <;> exact List.nodup_nil

omit [RegexpEngine] [Files] in
theorem lawful_ofContents (contents : List (String × Value)) :
    @LawfulFiles (ofContents contents) :=
  @LawfulFiles.mk (ofContents contents) (Go.avoids_ok _) (fun _ _ ↦ Go.avoids_ok _)
    fun _ _ ↦ Go.avoids_ok _

/-- A schema and the one above it, each in a file of its own. -/
def parentFiles : List (String × Value) := [
  ("network.yaml", .map [("schemas", .list [definition "network" [] []])]),
  ("port.yaml", .map [
    ("schemas", .list [definition "port" [("parent", .str "network")] []]),
    ("policies", .list [.map [("id", .str "all"), ("principal", .str "admin")]])])]

omit [RegexpEngine] [Files] in
theorem loadedOnce_network : letI := Re2.engine
    letI := ofContents parentFiles
    ∃ acts, orderedLoadSchemasFromFiles 2 ["network.yaml", "port.yaml"] {} = (.ok (), acts) ∧
      (LoadedOnce ["network.yaml", "port.yaml"] (final Manager.step {} acts) ↔
        Along Manager.step Once {} acts ∧ Reached ["network.yaml", "port.yaml"] {}) := by
  let _ := Re2.engine
  let _ := ofContents parentFiles
  have _ := lawful_ofContents parentFiles
  have hload : (orderedLoadSchemasFromFiles 2 ["network.yaml", "port.yaml"] {}).1 = .ok () := by
    decide +kernel
  obtain ⟨acts, hacts⟩ : ∃ acts,
      orderedLoadSchemasFromFiles 2 ["network.yaml", "port.yaml"] {} = (.ok (), acts) :=
    ⟨(orderedLoadSchemasFromFiles 2 ["network.yaml", "port.yaml"] {}).2, Prog.eq_ok_of_fst hload⟩
  exact ⟨acts, hacts, orderedLoadSchemasFromFiles_loadedOnce_iff 2 ["network.yaml", "port.yaml"] {}
    acts complete_empty hacts⟩

omit [RegexpEngine] [Files] in
/-- When the child comes first, it stays without its parent and its URL. -/
theorem not_loadedOnce_port : letI := Re2.engine
    ¬∀ [Files] [LawfulFiles] (depth : ℕ) (filePaths : List String) (acts : List Act),
      orderedLoadSchemasFromFiles depth filePaths {} = (.ok (), acts) →
        LoadedOnce filePaths (final Manager.step {} acts) := by
  let _ := Re2.engine
  intro h
  let _ := ofContents parentFiles
  have _ := lawful_ofContents parentFiles
  have hload : (orderedLoadSchemasFromFiles 2 ["port.yaml", "network.yaml"] {}).1 = .ok () := by
    decide +kernel
  have hloaded := h 2 ["port.yaml", "network.yaml"]
    (orderedLoadSchemasFromFiles 2 ["port.yaml", "network.yaml"] {}).2
    (Prog.eq_ok_of_fst hload)
  have hurl : ((final Manager.step {} (orderedLoadSchemasFromFiles 2
      ["port.yaml", "network.yaml"] {}).2).schema "port").map (·.URL) = some "" := by
    decide +kernel
  obtain ⟨r, hr, hempty⟩ := Option.map_eq_some_iff.mp hurl
  have hne := (hloaded.schemas "port" r hr).url
  rw [hempty] at hne
  exact baseURL_ne_empty _ _ (String.append_eq_empty_iff.mp hne.symm).1

end Loading

end Gohan
