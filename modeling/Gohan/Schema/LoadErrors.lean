import Gohan.Schema.LoadOrder

/-!
# The error of a file that is no map

`OrderedLoadSchemasFromFiles` tells the files that are no schema files by the text of the error:
`data isn't map` is what `LoadMap` returns for a file that holds something else.  No other part of a
load returns this error, so the load of a file ends in it only when that file, or one that it
includes, is no map (`avoids_loadSchemaFromFile`).

How far such a load gets can be read off the files: `LoadsThrough` has the files that it comes to
the end of before it meets the first file that is no map.
-/

set_option autoImplicit false

namespace Gohan

namespace Loading

open Machine (Prog Along final)
open Machine.Prog (lift act forEach mapEach attempt)

variable [RegexpEngine]

/-- The error of `LoadMap` for a file that holds something else than a map. -/
def notMap : Fault := .error "data isn't map" []

/-- The packages do not return this error. -/
class LawfulFiles [Files] : Prop where
  getwd : Go.Avoids notMap Files.getwd
  fixRelativeURL : ∀ rawurl dir, Go.Avoids notMap (Files.fixRelativeURL rawurl dir)
  validate : ∀ jsonSchema document, Go.Avoids notMap (Files.validate jsonSchema document)

/-! ## Errors of other kinds -/

section Errors

omit [RegexpEngine]

theorem avoids_unknownCondition {α : Type} (condition : Value) (policyID : String) :
    Go.Avoids notMap (unknownCondition condition policyID : Go α) :=
  Go.avoids_errorf (by simp [notMap])

mutual
theorem avoids_precomputeCondition (policyID : String) (filterType : ConditionFilterType) :
    ∀ v, Go.Avoids notMap (precomputeCondition policyID filterType v)
  | .list conditions => by
    rw [precomputeCondition]
    exact avoids_precomputeLoop policyID _ conditions
  | .nil | .bool _ | .int _ | .float _ | .str _ | .strs _ | .map _ => by
    rw [precomputeCondition]
    exact Go.avoids_panicf (by simp [notMap])
    all_goals simp

theorem avoids_precomputeLoop (policyID : String) (actionFilter : ConditionFilter) :
    ∀ vs, Go.Avoids notMap (precomputeLoop policyID actionFilter vs)
  | [] => by
    rw [precomputeLoop]
    exact Go.avoids_ok _
  | condition :: conditions => by
    unfold precomputeLoop
    have hrest := fun filter ↦ avoids_precomputeLoop policyID filter conditions
    dsimp only
    split
    · exact hrest _
    · exact hrest _
    · exact hrest _
    · next m =>
      split
      · next r hr =>
        exact (avoids_precomputeUnder policyID _ _ m r hr).bind fun _ ↦ hrest _
      · split
        · next r hr =>
          exact (avoids_precomputeUnder policyID _ _ m r hr).bind fun _ ↦ hrest _
        · split
          · exact hrest _
          · exact (Go.avoids_panicf (by simp [notMap])).bind hrest
          · exact (avoids_unknownCondition _ _).bind hrest
    · exact (avoids_unknownCondition _ _).bind hrest

theorem avoids_precomputeUnder (policyID : String) (filterType : ConditionFilterType)
    (key : String) : ∀ (m : List (String × Value)) (r : Go ConditionFilter),
      precomputeUnder policyID filterType key m = some r → Go.Avoids notMap r
  | [], r, h => by
    rw [precomputeUnder] at h
    cases h
  | (k, v) :: m, r, h => by
    rw [precomputeUnder] at h
    split at h
    · obtain rfl := Option.some.inj h
      exact avoids_precomputeCondition policyID filterType v
    · exact avoids_precomputeUnder policyID filterType key m r h
end

end Errors

theorem avoids_compile (pattern : String) : Go.Avoids notMap (Regexp.compile pattern) := by
  rw [Regexp.compile]
  split
  · exact Go.avoids_ok _
  · exact Go.avoids_errorf (by simp [notMap])

theorem avoids_getRegexp (input : String) : Go.Avoids notMap (getRegexp input) := by
  rw [getRegexp]
  exact avoids_compile _

omit [RegexpEngine] in
theorem avoids_actionsOf (m : List (String × Value)) : Go.Avoids notMap (actionsOf m) := by
  rw [actionsOf]
  split
  · exact Go.avoids_ok _
  · exact Go.avoids_ok _
  · exact Go.avoids_panicf (by simp [notMap])

theorem avoids_parseEntry (policyID : String) (v : Value) :
    Go.Avoids notMap (parseEntry policyID v) := by
  cases v with
  | str condition =>
    simp only [parseEntry]
    split
    · exact Go.avoids_ok _
    · split
      · exact Go.avoids_ok _
      · split
        · exact Go.avoids_ok _
        · exact Go.avoids_panicf (by simp [notMap])
  | map m =>
    simp only [parseEntry]
    split
    · split
      · refine (avoids_actionsOf m).bind fun actions ↦ Go.Avoids.bind ?_ fun _ ↦ Go.avoids_ok _
        refine (avoids_getRegexp _).bind fun tenantID ↦ (avoids_getRegexp _).bind fun name ↦ ?_
        split
        · exact Go.avoids_panicf (by simp [notMap])
        · exact Go.avoids_ok _
      · split
        · refine (avoids_actionsOf m).bind fun actions ↦ ?_
          split
          · exact Go.avoids_ok _
          · exact Go.avoids_panicf (by simp [notMap])
        · exact Go.avoids_panicf (by simp [notMap])
    · split
      · exact (avoids_precomputeCondition _ _ _).bind fun _ ↦ Go.avoids_ok _
      · split
        · exact (avoids_precomputeCondition _ _ _).bind fun _ ↦ Go.avoids_ok _
        · exact Go.avoids_ok _
  | _ => exact Go.avoids_panicf (by simp [notMap])

theorem avoids_newResourceCondition (rawCondition : List Value) (policyID : String) :
    Go.Avoids notMap (newResourceCondition rawCondition policyID) := by
  have hloop : ∀ (conditions : List Value) (p : ResourceCondition),
      Go.Avoids notMap (addConditions policyID conditions p) := by
    intro conditions
    induction conditions with
    | nil => exact fun p ↦ Go.avoids_ok p
    | cons condition conditions ih =>
      exact fun p ↦ (avoids_parseEntry policyID condition).bind fun entry ↦ ih _
  exact hloop _ _

omit [RegexpEngine] in
theorem avoids_parseTokenTypes (i : ℕ) (types : List Value) :
    Go.Avoids notMap (parseTokenTypes i types) := by
  induction types generalizing i with
  | nil => exact Go.avoids_ok _
  | cons rawTp types ih =>
    unfold parseTokenTypes
    split
    · split
      · exact (ih (i + 1)).bind fun _ ↦ Go.avoids_ok _
      · exact Go.avoids_errorf (by simp [notMap])
    · exact Go.avoids_errorf (by simp [notMap])

theorem avoids_newPolicy (v : Value) : Go.Avoids notMap (newPolicy v) := by
  cases v with
  | map typeData =>
    simp only [newPolicy]
    refine Go.Avoids.bind ?_ fun resource ↦ Go.Avoids.bind ?_ fun tenant ↦ Go.Avoids.bind ?_
      fun scope ↦ Go.Avoids.bind ?_ fun conditions ↦ Go.avoids_ok _
    · refine (avoids_compile _).bind fun path ↦ Go.Avoids.bind ?_ fun _ ↦ Go.avoids_ok _
      rw [PropertyFilter.createFilterFromProperties.eq_def]
      split
      · exact Go.avoids_ok _
      · exact Go.avoids_ok _
      · exact Go.avoids_ok _
      · exact Go.avoids_errorf (by simp [notMap])
    · refine (avoids_getRegexp _).bind fun tenantID ↦ (avoids_getRegexp _).bind fun name ↦ ?_
      split
      · exact Go.avoids_errorf (by simp [notMap])
      · exact Go.avoids_ok _
    · rw [parseTokenScope]
      split
      · exact avoids_parseTokenTypes _ _
      · exact Go.avoids_errorf (by simp [notMap])
      · exact Go.avoids_ok _
    · rw [parseActionAttachOrCondition]
      split
      · split
        · exact Go.avoids_errorf (by simp [notMap])
        · split
          · exact Go.avoids_errorf (by simp [notMap])
          · exact (avoids_newResourceCondition _ _).bind fun _ ↦ Go.avoids_ok _
      · exact (avoids_newResourceCondition _ _).bind fun _ ↦ Go.avoids_ok _
  | _ => exact Go.avoids_panicf (by simp [notMap])

omit [RegexpEngine] in
theorem avoids_parseType (v : Value) : Go.Avoids notMap (parseType v) := by
  cases v with
  | list typeInts =>
    simp only [parseType]
    generalize ("", false) = start
    induction typeInts generalizing start with
    | nil => exact Go.avoids_ok _
    | cons typeInt typeInts ih =>
      rw [List.foldlM_cons]
      refine Go.Avoids.bind ?_ fun next ↦ ih next
      split
      · exact Go.avoids_ok _
      · exact Go.avoids_ok _
      · exact Go.avoids_panicf (by simp [notMap])
  | _ => exact Go.avoids_ok _

section Properties

omit [RegexpEngine]

mutual
theorem avoids_newPropertyFromObj (id : String) (required : Bool) :
    ∀ v, Go.Avoids notMap (newPropertyFromObj id required v)
  | .map typeData => by
    simp only [newPropertyFromObj]
    refine (avoids_parseType _).bind fun type ↦ ?_
    have hproperties : ∀ subrequired, Go.Avoids notMap
        (if type.1 = "object" then parseSubproperties subrequired typeData else .ok []) := by
      intro subrequired
      split
      · exact avoids_parseSubproperties subrequired typeData
      · exact Go.avoids_ok _
    have hitems :
        Go.Avoids notMap (if type.1 = "array" then parseItems typeData else .ok none) := by
      split
      · exact avoids_parseItems typeData
      · exact Go.avoids_ok _
    refine hitems.bind fun items ↦ ?_
    split
    · exact (hproperties _).bind fun _ ↦ Go.avoids_ok _
    · exact (hproperties _).bind fun _ ↦ Go.avoids_ok _
    · exact Go.avoids_panicf (by simp [notMap])
  | .nil | .bool _ | .int _ | .float _ | .str _ | .strs _ | .list _ => by
    simp only [newPropertyFromObj]
    exact Go.avoids_panicf (by simp [notMap])

theorem avoids_parseItems : ∀ m, Go.Avoids notMap (parseItems m)
  | [] => by
    simp only [parseItems]
    exact Go.avoids_ok _
  | (key, v) :: m => by
    unfold parseItems
    split
    · cases v with
      | map typedItems =>
        exact (avoids_newPropertyFromObj _ _ (.map typedItems)).bind fun _ ↦ Go.avoids_ok _
      | list vs => exact Go.avoids_ok _
      | _ => exact Go.avoids_panicf (by simp [notMap])
    · exact avoids_parseItems m

theorem avoids_parseSubproperties (required : List String) :
    ∀ m, Go.Avoids notMap (parseSubproperties required m)
  | [] => by
    simp only [parseSubproperties]
    exact Go.avoids_ok _
  | (key, v) :: m => by
    unfold parseSubproperties
    split
    · cases v with
      | map properties => exact avoids_parseProperties required properties
      | _ => exact Go.avoids_ok _
    · exact avoids_parseSubproperties required m

theorem avoids_parseProperties (required : List String) :
    ∀ m, Go.Avoids notMap (parseProperties required m)
  | [] => by
    simp only [parseProperties]
    exact Go.avoids_ok _
  | (id, v) :: m => by
    simp only [parseProperties]
    exact (avoids_newPropertyFromObj _ _ v).bind fun _ ↦
      (avoids_parseProperties required m).bind fun _ ↦ Go.avoids_ok _
end

end Properties

omit [RegexpEngine] in
theorem avoids_newIndexes (m : List (String × Value)) : Go.Avoids notMap (newIndexes m) := by
  induction m with
  | nil => exact Go.avoids_ok _
  | cons e m ih =>
    unfold newIndexes
    split
    · exact ih.bind fun _ ↦ Go.avoids_ok _
    · exact Go.avoids_errorf (by simp [notMap])
    · next fault hno _ => exact fun h ↦ hno _ _ (Except.error.inj h)

/-! ## The errors of a load -/

section Load

variable [Files]

omit [RegexpEngine] in
theorem avoids_init (s : SchemaObj) : Go.Avoids notMap s.init := by
  rw [SchemaObj.init]
  split
  · exact Go.avoids_ok _
  · exact (avoids_parseProperties _ _).bind fun _ ↦
      (avoids_newIndexes _).bind fun _ ↦ Go.avoids_ok _

omit [RegexpEngine] [Files] in
theorem avoids_requireString (typeData : Dict) (field : String) :
    Go.Avoids notMap (requireString typeData field) := by
  simp only [requireString]
  split
  · exact Go.avoids_errorf (by simp [notMap])
  · exact Go.avoids_ok _

variable [LawfulFiles]

omit [RegexpEngine] in
theorem avoids_newSchemaFromObj (metaschema : Option SchemaObj) (v : Value) :
    Go.Avoids notMap (newSchemaFromObj metaschema v) := by
  cases v with
  | map entries =>
    simp only [newSchemaFromObj]
    refine Go.Avoids.bind ?_ fun _ ↦ (avoids_requireString _ _).bind fun _ ↦
      (avoids_requireString _ _).bind fun _ ↦ (avoids_requireString _ _).bind fun _ ↦
      (avoids_requireString _ _).bind fun _ ↦ (avoids_requireString _ _).bind fun _ ↦ ?_
    · rw [validateBy.eq_def]
      split
      · exact LawfulFiles.validate _ _
      · exact Go.avoids_ok _
    · split
      · exact avoids_init _
      · exact Go.avoids_errorf (by simp [notMap])
  | _ => exact Go.avoids_panicf (by simp [notMap])

omit [RegexpEngine] [LawfulFiles] [Files] in
theorem avoids_getParentURL (r : Registered) : Go.Avoids notMap r.getParentURL := by
  fun_induction Registered.getParentURL r with
  | case1 => exact Go.avoids_ok _
  | case2 => exact Go.avoids_panicf (by simp [notMap])
  | case3 obj parent _ _ _ ih => exact ih.bind fun _ ↦ Go.avoids_ok _

omit [LawfulFiles] [Files] in
theorem avoids_registerSchema (s : SchemaObj) : Prog.Avoids notMap (registerSchema s) := by
  refine Prog.Avoids.act fun m ↦ ?_
  rw [Manager.registerSchema]
  split
  · exact Go.avoids_ok _
  · rw [Manager.link]
    split
    · exact Go.avoids_errorf (by simp [notMap])
    · split
      · exact Go.avoids_errorf (by simp [notMap])
      · simp only [Manager.withURLs]
        split
        · exact Go.avoids_ok _
        · split
          · next fault hfault =>
            exact fun h ↦ avoids_getParentURL _ (hfault.trans (congrArg _ (Except.error.inj h)))
          · exact Go.avoids_ok _

omit [LawfulFiles] [Files] in
theorem avoids_loadNamespace (v : Value) : Prog.Avoids notMap (loadNamespace v) := by
  refine (Prog.Avoids.lift ?_).bind fun obj ↦ Prog.Avoids.act fun m ↦ ?_
  · cases v with
    | map m => exact Go.avoids_ok _
    | _ => exact Go.avoids_panicf (by simp [notMap])
  · rw [Manager.registerNamespace]
    split
    · exact Go.avoids_ok _
    · split
      · exact Go.avoids_errorf (by simp [notMap])
      · exact Go.avoids_ok _

omit [LawfulFiles] in
theorem avoids_extendByBases (bases : List String) (s : SchemaObj) :
    Prog.Avoids notMap (extendByBases bases s) := by
  induction bases generalizing s with
  | nil => exact Prog.Avoids.pure _
  | cons base bases ih =>
    rw [extendByBases]
    refine Prog.Avoids.get.bind fun m ↦ ?_
    split
    · exact Prog.Avoids.lift (Go.avoids_errorf (by simp [notMap]))
    · split
      · exact Prog.Avoids.lift (Go.avoids_errorf (by simp [notMap]))
      · exact (Prog.Avoids.lift (avoids_init _)).bind fun _ ↦ ih _

omit [LawfulFiles] in
theorem avoids_prepareSchema (s : SchemaObj) : Prog.Avoids notMap (prepareSchema s) := by
  rw [prepareSchema]
  split
  · refine Prog.Avoids.bind ((Prog.Avoids.attempt _).bind fun result ↦ ?_)
      fun _ ↦ Prog.Avoids.pure _
    split
    · exact Prog.Avoids.lift (Go.avoids_panicf (by simp [notMap]))
    · exact Prog.Avoids.pure _
  · exact avoids_extendByBases _ _

omit [LawfulFiles] [Files] in
theorem avoids_registerInOrder (schemas : List SchemaObj) :
    Prog.Avoids notMap (registerInOrder schemas) := by
  refine (Prog.Avoids.act fun _ ↦ by simp).bind fun _ ↦ ?_
  split
  · exact Prog.Avoids.pure _
  · refine Prog.Avoids.forEach fun id _ ↦ ?_
    rw [registerByID]
    split
    · exact Prog.Avoids.lift (Go.avoids_panicf (by simp [notMap]))
    · split
      · exact Prog.Avoids.pure _
      · exact avoids_registerSchema _

omit [LawfulFiles] [Files] in
theorem avoids_loadPolicy (filePath : String) (v : Value × ℕ) :
    Prog.Avoids notMap (loadPolicy filePath v) :=
  (Prog.Avoids.lift (avoids_newPolicy v.1)).bind fun _ ↦ Prog.Avoids.act fun _ ↦ by simp

omit [RegexpEngine] [LawfulFiles] in
theorem avoids_remoteCode (codeType url : String) :
    Go.Avoids notMap (remoteCode codeType url) := by
  rw [remoteCode]
  split
  · split
    · exact Go.avoids_ok _
    · exact Go.avoids_errorf (by simp [notMap])
    · next fault hno _ => exact fun h ↦ hno _ _ (Except.error.inj h)
  · exact Go.avoids_ok _

omit [Files] [LawfulFiles] in
theorem avoids_extensionPath (path : String) : Go.Avoids notMap (extensionPath path) := by
  rw [extensionPath]
  split
  · exact Go.avoids_ok _
  · exact Go.avoids_errorf (by simp [notMap])
  · next fault hno _ => exact fun h ↦ hno _ _ (Except.error.inj h)

theorem avoids_newExtension (typeData : Dict) : Go.Avoids notMap (newExtension typeData) := by
  simp only [newExtension]
  refine Go.Avoids.bind ?_ fun url ↦ (avoids_extensionPath _).bind fun path ↦
    (avoids_remoteCode _ _).bind fun _ ↦ Go.avoids_ok _
  rw [extensionURL]
  split
  · exact LawfulFiles.getwd.bind fun wd ↦ LawfulFiles.fixRelativeURL _ wd
  · exact Go.avoids_ok _

theorem avoids_loadExtension (filePath : String) (v : Value × ℕ) :
    Prog.Avoids notMap (loadExtension filePath v) := by
  refine (Prog.Avoids.lift ?_).bind fun _ ↦ Prog.Avoids.act fun _ ↦ by simp
  obtain ⟨raw, position⟩ := v
  cases raw with
  | map entries =>
    simp only [newExtensionOf]
    split
    · exact (LawfulFiles.fixRelativeURL _ _).bind fun _ ↦ avoids_newExtension _
    · exact avoids_newExtension _
  | _ => exact Go.avoids_panicf (by simp [notMap])

theorem avoids_loadEntries {load : String → Load Unit} {list : List Value}
    (hload : ∀ fileName, .str fileName ∈ list → Prog.Avoids notMap (load fileName)) :
    Prog.Avoids notMap (loadEntries load list) := by
  induction list with
  | nil => exact Prog.Avoids.pure _
  | cons raw list ih =>
    have hrest := ih fun fileName hmem ↦ hload fileName (List.mem_cons_of_mem _ hmem)
    rw [loadEntries]
    cases raw with
    | str fileName => exact (hload fileName List.mem_cons_self).bind fun _ ↦ hrest
    | _ =>
      exact Prog.Avoids.get.bind fun m ↦
        (Prog.Avoids.lift (avoids_newSchemaFromObj _ _)).bind fun _ ↦
          hrest.bind fun _ ↦ Prog.Avoids.pure _

/-- A file lists another one among its schemas. -/
def Includes (filePath fileName : String) : Prop :=
  fileName ≠ "" ∧ ∃ data, loadMap filePath = .ok data ∧ .str fileName ∈ listUnder data "schemas"

/-- The file and all that it includes are maps, or fail otherwise. -/
def AllMaps (filePath : String) : Prop :=
  ∀ f, Relation.ReflTransGen Includes filePath f → Go.Avoids notMap (loadMap f)

omit [RegexpEngine] [LawfulFiles] in
theorem AllMaps.of_includes {filePath fileName : String} (h : AllMaps filePath)
    (hincludes : Includes filePath fileName) : AllMaps fileName :=
  fun f hf ↦ h f (.head hincludes hf)

/-- Nor does what follows on the loop over the entries of a file. -/
theorem avoids_afterEntries (filePath : String) (data : Dict) (read : List SchemaObj) :
    Prog.Avoids notMap (do
      let schemaObjList ← mapEach prepareSchema read
      registerInOrder schemaObjList
      forEach (loadPolicy filePath) (listUnder data "policies").zipIdx
      forEach (loadExtension filePath) (listUnder data "extensions").zipIdx
      act (.returned filePath) fun _ ↦ .ok () : Load Unit) :=
  (Prog.Avoids.mapEach fun s _ ↦ avoids_prepareSchema s).bind fun prepared ↦
    (avoids_registerInOrder prepared).bind fun _ ↦
    (Prog.Avoids.forEach fun v _ ↦ avoids_loadPolicy filePath v).bind fun _ ↦
    (Prog.Avoids.forEach fun v _ ↦ avoids_loadExtension filePath v).bind fun _ ↦
    Prog.Avoids.act fun _ ↦ by simp

/-- **The load of a file does not end in this error** when the file and all that it includes are
maps, or fail otherwise. -/
theorem avoids_loadSchemaFromFile (depth : ℕ) {filePath : String}
    (h : filePath ≠ "" → AllMaps filePath) :
    Prog.Avoids notMap (loadSchemaFromFile depth filePath) := by
  induction depth generalizing filePath with
  | zero => exact Prog.Avoids.lift (Go.avoids_panicf (by simp [notMap]))
  | succ depth ih =>
    rw [loadSchemaFromFile]
    split
    · exact Prog.Avoids.pure _
    · next hne =>
      refine Prog.Avoids.lift_bind (h hne filePath .refl) fun data hdata ↦ ?_
      have hentries : Prog.Avoids notMap
          (loadEntries (loadSchemaFromFile depth) (listUnder data "schemas")) :=
        avoids_loadEntries fun fileName hmem ↦
          ih fun hname ↦ (h hne).of_includes ⟨hname, data, hdata, hmem⟩
      exact (Prog.Avoids.forEach fun v _ ↦ avoids_loadNamespace v).bind fun _ ↦
        hentries.bind fun read ↦ avoids_afterEntries filePath data read

/-! ## How far a load gets -/

section Stops

omit [LawfulFiles]

/-- `b` is the first file on the list of `f` that leads to one that is no map, and `earlier` is what
is listed before it. -/
def StopsAt (f : String) (earlier : List Value) (b : String) : Prop :=
  ∃ data later, loadMap f = .ok data ∧
    listUnder data "schemas" = earlier ++ .str b :: later ∧
    (∀ name, .str name ∈ earlier → name ≠ "" → AllMaps name) ∧ b ≠ "" ∧ ¬AllMaps b

/-- A load of `f` comes to the end of `g`, unless it fails for another reason than a file that is no
map: `g` is included before the first such file. -/
inductive LoadsThrough : String → String → Prop
  | whole {f g : String} (h : AllMaps f) (hreach : Relation.ReflTransGen Includes f g) :
      LoadsThrough f g
  | before {f g b name : String} {earlier : List Value} (h : StopsAt f earlier b)
      (hmem : .str name ∈ earlier) (hne : name ≠ "")
      (hreach : Relation.ReflTransGen Includes name g) : LoadsThrough f g
  | within {f g b : String} {earlier : List Value} (h : StopsAt f earlier b)
      (hrest : LoadsThrough b g) : LoadsThrough f g

variable {f g b name : String} {earlier : List Value}

omit [RegexpEngine] in
theorem StopsAt.includes (h : StopsAt f earlier b) : Includes f b := by
  obtain ⟨data, later, hdata, hlist, -, hne, -⟩ := h
  exact ⟨hne, data, hdata, hlist ▸ List.mem_append_right _ List.mem_cons_self⟩

omit [RegexpEngine] in
theorem StopsAt.includes_earlier (h : StopsAt f earlier b) (hmem : .str name ∈ earlier)
    (hne : name ≠ "") : Includes f name := by
  obtain ⟨data, later, hdata, hlist, -⟩ := h
  exact ⟨hne, data, hdata, hlist ▸ List.mem_append_left _ hmem⟩

omit [RegexpEngine] in
theorem LoadsThrough.reach (h : LoadsThrough f g) : Relation.ReflTransGen Includes f g := by
  induction h with
  | whole _ hreach => exact hreach
  | before h hmem hne hreach => exact .head (h.includes_earlier hmem hne) hreach
  | within h _ ih => exact .head h.includes ih

omit [RegexpEngine] in
/-- In a list with a file that leads to one that is no map, there is a first such file. -/
theorem exists_firstStop {list : List Value} (h : .str name ∈ list) (hne : name ≠ "")
    (hname : ¬AllMaps name) : ∃ earlier b later, list = earlier ++ .str b :: later ∧
      (∀ name, .str name ∈ earlier → name ≠ "" → AllMaps name) ∧ b ≠ "" ∧ ¬AllMaps b := by
  induction list with
  | nil => cases h
  | cons raw list ih =>
    by_cases hraw : ∃ b, raw = .str b ∧ b ≠ "" ∧ ¬AllMaps b
    · obtain ⟨b, rfl, hb, hbad⟩ := hraw
      exact ⟨[], b, list, rfl, fun _ hmem ↦ absurd hmem List.not_mem_nil, hb, hbad⟩
    · have hrest : .str name ∈ list := by
        rcases List.mem_cons.mp h with heq | hmem
        · exact absurd ⟨name, heq.symm, hne, hname⟩ hraw
        · exact hmem
      obtain ⟨earlier, b, later, rfl, hearlier, hb⟩ := ih hrest
      refine ⟨raw :: earlier, b, later, rfl, fun name' hmem hne' ↦ ?_, hb⟩
      rcases List.mem_cons.mp hmem with heq | hmem
      · by_contra hbad
        exact hraw ⟨name', heq.symm, hne', hbad⟩
      · exact hearlier name' hmem hne'

omit [RegexpEngine] in
/-- What a load gets to by an entry, when it has come through the entries before it. -/
theorem loadsThrough_of_entry {data : Dict} {later : List Value} (hdata : loadMap f = .ok data)
    (hlist : listUnder data "schemas" = earlier ++ .str name :: later) (hne : name ≠ "")
    (hearlier : ∀ name', .str name' ∈ earlier → name' ≠ "" → AllMaps name')
    (h : LoadsThrough name g) : LoadsThrough f g := by
  by_cases hname : AllMaps name
  · have hincludes : Includes f name :=
      ⟨hne, data, hdata, hlist ▸ List.mem_append_right _ List.mem_cons_self⟩
    by_cases hf : AllMaps f
    · exact .whole hf (.head hincludes h.reach)
    -- another entry leads to a file that is no map, and it comes later
    · obtain ⟨x, hx, hbad⟩ : ∃ x, Relation.ReflTransGen Includes f x ∧
          loadMap x = .error notMap := by
        simpa [AllMaps, Go.Avoids] using hf
      rcases Relation.ReflTransGen.cases_head hx with rfl | ⟨c, ⟨hc, data', hdata', hmem⟩, hreach⟩
      · cases hdata.symm.trans hbad
      · obtain rfl := Except.ok.inj (hdata.symm.trans hdata')
        obtain ⟨earlier', b, later', hlist', hall, hb, hbad'⟩ :=
          exists_firstStop hmem hc fun hmaps ↦ hmaps x hreach hbad
        refine .before ⟨data, later', hdata, hlist', hall, hb, hbad'⟩ ?_ hne h.reach
        rcases List.append_eq_append_iff.mp (hlist.symm.trans hlist') with
          ⟨as, rfl, htail⟩ | ⟨as, rfl, htail⟩
        · cases as with
          | nil =>
            obtain rfl := Value.str.inj (List.cons.inj htail).1
            exact absurd hname hbad'
          | cons a as =>
            rw [← (List.cons.inj htail).1]
            exact List.mem_append_right _ List.mem_cons_self
        · cases as with
          | nil =>
            obtain rfl := Value.str.inj (List.cons.inj htail).1
            exact absurd hname hbad'
          | cons a as =>
            have hmem : .str b ∈ earlier' ++ a :: as := by
              rw [← (List.cons.inj htail).1]
              exact List.mem_append_right _ List.mem_cons_self
            exact absurd (hearlier b hmem hb) hbad'
  · exact .within ⟨data, later, hdata, hlist, hearlier, hne, hname⟩ h

omit [RegexpEngine] in
theorem allMaps_of_entries {data : Dict} (hdata : loadMap f = .ok data)
    (h : ∀ name, .str name ∈ listUnder data "schemas" → name ≠ "" → AllMaps name) :
    AllMaps f := by
  intro x hreach
  rcases Relation.ReflTransGen.cases_head hreach with rfl | ⟨c, ⟨hc, data', hdata', hmem⟩, hreach⟩
  · rw [hdata]
    exact Go.avoids_ok _
  · obtain rfl := Except.ok.inj (hdata.symm.trans hdata')
    exact h c hmem hc x hreach

/-- **A load that ends well has met no file that is no map.** -/
theorem allMaps_of_ok {depth : ℕ} {m : Manager} {acts : List Act} (hne : f ≠ "")
    (h : loadSchemaFromFile depth f m = (.ok (), acts)) : AllMaps f := by
  induction depth generalizing f m acts with
  | zero => exact absurd (Prod.ext_iff.mp h).1 (Go.panicf_ne_ok _ _ _)
  | succ depth ih =>
    obtain ⟨depth', data, read, prepared, as₁, as₂, as₃, as₄, as₅, as₆, heq, hrun, -⟩ :=
      loadSchemaFromFile_eq_ok hne h
    obtain rfl : depth = depth' := Nat.succ.inj heq
    refine allMaps_of_entries hrun.loadMap fun name hmem hname ↦ ?_
    obtain ⟨before, during, after, hload, -⟩ := loadEntries_included hrun.entries hmem
    exact ih hname hload

/-- The actions of the loop over the entries are those of loads that follow on loads which have
ended well. -/
theorem emits_loadEntries {load : String → Load Unit} {list : List Value} {Q : Act → Prop}
    (hload : ∀ earlier name later, list = earlier ++ .str name :: later →
      (∀ name', .str name' ∈ earlier → ∃ m acts, load name' m = (.ok (), acts)) →
        Prog.Emits Q (load name)) : Prog.Emits Q (loadEntries load list) := by
  induction list with
  | nil => exact Prog.Emits.pure _
  | cons raw list ih =>
    rw [loadEntries]
    cases raw with
    | str fileName =>
      have hfirst := hload [] fileName list rfl fun _ hmem ↦ absurd hmem List.not_mem_nil
      refine hfirst.bind_of_ok fun _ m acts hok ↦ ih fun earlier name later heq hearlier ↦ ?_
      refine hload (.str fileName :: earlier) name later (by rw [heq]; rfl) fun name' hmem ↦ ?_
      rcases List.mem_cons.mp hmem with heq | hmem
      · rw [Value.str.inj heq]
        exact ⟨m, acts, hok⟩
      · exact hearlier name' hmem
    | _ =>
      refine Prog.Emits.get.bind fun m ↦ (Prog.Emits.lift _).bind fun _ ↦ Prog.Emits.bind
        (ih fun earlier name later heq hearlier ↦ ?_) fun _ ↦ Prog.Emits.pure _
      refine hload (_ :: earlier) name later (by rw [heq]; rfl) fun name' hmem ↦
        hearlier name' ((List.mem_cons.mp hmem).resolve_left (by simp))

variable [LawfulFiles]

/-- When the loop over the entries ends at a file that is no map, the entries before it have been
loaded. -/
theorem loadEntries_stopped {load : String → Load Unit} {later : List Value} {m : Manager}
    {acts : List Act} (h : loadEntries load (earlier ++ .str b :: later) m = (.error notMap, acts))
    (hearlier : ∀ name, .str name ∈ earlier → Prog.Avoids notMap (load name))
    (hb : ∀ m acts, load b m ≠ (.ok (), acts)) :
    (∀ name, .str name ∈ earlier → ∃ before during after,
      load name (final Manager.step m before) = (.ok (), during) ∧
        acts = before ++ during ++ after) ∧
    ∃ before during, load b (final Manager.step m before) = (.error notMap, during) ∧
      acts = before ++ during := by
  induction earlier generalizing m acts with
  | nil =>
    refine ⟨fun _ hmem ↦ absurd hmem List.not_mem_nil, [], acts, ?_, rfl⟩
    rcases Prog.bind_eq_error.mp h with hfail | ⟨_, as₁, as₂, hok, -⟩
    · exact hfail
    · exact absurd hok (hb _ _)
  | cons raw earlier ih =>
    rw [List.cons_append, loadEntries] at h
    have hrest := fun name hmem ↦ hearlier name (List.mem_cons_of_mem _ hmem)
    cases raw with
    | str fileName =>
      obtain ⟨_, as₁, as₂, hok, hloop, rfl⟩ :=
        Prog.exists_error_of_bind h (hearlier fileName List.mem_cons_self)
      obtain ⟨hloaded, before, during, hstop, rfl⟩ := ih hloop hrest
      refine ⟨fun name hmem ↦ ?_, as₁ ++ before, during, by rwa [Machine.final_append], by simp⟩
      rcases List.mem_cons.mp hmem with heq | hmem
      · rw [Value.str.inj heq]
        exact ⟨[], as₁, _, hok, rfl⟩
      · obtain ⟨before', during', after', hname, hacts⟩ := hloaded name hmem
        exact ⟨as₁ ++ before', during', after', by rwa [Machine.final_append], by simp [hacts]⟩
    | _ =>
      dsimp only [Value.string?] at h
      obtain ⟨m', as₁, as₂, hget, hread, rfl⟩ := Prog.exists_error_of_bind h Prog.Avoids.get
      obtain ⟨-, rfl⟩ := Prod.mk.inj hget
      obtain ⟨s, as₃, as₄, hlift, hloop, rfl⟩ :=
        Prog.exists_error_of_bind hread (Prog.Avoids.lift (avoids_newSchemaFromObj _ _))
      obtain ⟨-, rfl⟩ := Prod.mk.inj hlift
      obtain ⟨hloaded, hstop⟩ := ih (Prog.eq_error_of_bind hloop fun _ ↦ Prog.Avoids.pure _) hrest
      exact ⟨fun name hmem ↦ hloaded name ((List.mem_cons.mp hmem).resolve_left (by simp)), hstop⟩

/-- **A load that ends at a file that is no map** has come through the entries before it. -/
theorem loadSchemaFromFile_stopped {depth : ℕ} {m : Manager} {acts : List Act}
    (hstops : StopsAt f earlier b) (h : loadSchemaFromFile depth f m = (.error notMap, acts)) :
    ∃ depth',
      (∀ name, .str name ∈ earlier → ∃ before during after,
        loadSchemaFromFile depth' name (final Manager.step m before) = (.ok (), during) ∧
          acts = before ++ during ++ after) ∧
      ∃ before during, loadSchemaFromFile depth' b (final Manager.step m before) =
        (.error notMap, during) ∧ acts = before ++ during := by
  obtain ⟨data, later, hdata, hlist, hearlier, hb, hbad⟩ := hstops
  cases depth with
  | zero => exact absurd (congrArg Prod.fst h) (Go.avoids_panicf (by simp [notMap]))
  | succ depth =>
    rw [loadSchemaFromFile] at h
    split at h
    · cases congrArg Prod.fst h
    · rw [hdata] at h
      obtain ⟨data', as, as', hlift, hfile, rfl⟩ :=
        Prog.exists_error_of_bind h (Prog.Avoids.lift (Go.avoids_ok data))
      obtain ⟨heq, rfl⟩ := Prod.mk.inj hlift
      obtain rfl := Except.ok.inj heq
      obtain ⟨_, as₁, as₂, -, hentries, rfl⟩ := Prog.exists_error_of_bind hfile
        (Prog.Avoids.forEach fun v _ ↦ avoids_loadNamespace v)
      have hloop := Prog.eq_error_of_bind hentries (avoids_afterEntries f data)
      rw [hlist] at hloop
      obtain ⟨hloaded, before, during, hstop, rfl⟩ := loadEntries_stopped hloop
        (fun name hmem ↦ avoids_loadSchemaFromFile depth (hearlier name hmem))
        fun m acts hok ↦ hbad (allMaps_of_ok hb hok)
      refine ⟨depth, fun name hmem ↦ ?_, as₁ ++ before, during,
        by rwa [Machine.final_append], by simp⟩
      obtain ⟨before', during', after', hname, hacts⟩ := hloaded name hmem
      exact ⟨as₁ ++ before', during', after', by rwa [Machine.final_append], by simp [hacts]⟩

end Stops

end Load

end Loading

end Gohan
