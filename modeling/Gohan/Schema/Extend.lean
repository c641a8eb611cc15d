import Gohan.Schema.Init

/-!
# A schema and its bases

`loadSchemaFromFile` extends a schema by its bases one after the other.  `Extend` merges the base
into the schema, with another rule for each field, and runs `Init` again.

* `Extended` — what the schema has from its bases: definitions, actions and metadata are those of
  the first that has them, and what one of them requires is required.
* `extendAll_extended` — whatever the bases are, this is what comes of them.
* `extendByBases_eq` — the loop of `loadSchemaFromFile` does this, and leaves the manager, with the
  bases in it, as it is.

`Init` adds the property for the parent once a parent is named and no schema up to there has the
property, and requires it.  A base that comes later does not replace it.
-/

set_option autoImplicit false

namespace Gohan

namespace Loading

namespace SchemaObj

/-- What `Extend` makes of a schema before it calls `Init`. -/
def merged (schema fromSchema : SchemaObj) : SchemaObj :=
  { schema with
    Parent := if schema.Parent = "" then fromSchema.Parent else schema.Parent
    Prefix := if schema.Prefix = "" then fromSchema.Prefix else schema.Prefix
    URL := if schema.URL = "" then fromSchema.URL else schema.URL
    NamespaceID := if schema.NamespaceID = "" then fromSchema.NamespaceID else schema.NamespaceID
    JSONSchema := ((schema.JSONSchema.insert "properties"
      (.map (GoMap.toList (extendMap schema.properties fromSchema.properties)))).insert
      "propertiesOrder" (.strs (if schema.OrderPropertiesBefore.contains fromSchema.ID then
        extendStringList schema.propertiesOrder fromSchema.propertiesOrder
        else extendStringList fromSchema.propertiesOrder schema.propertiesOrder))).insert
      "required" (.strs (extendStringList fromSchema.required schema.required))
    Actions := extendMap schema.Actions fromSchema.Actions
    Metadata := extendMap schema.Metadata fromSchema.Metadata
    IsolationLevel := extendMap schema.IsolationLevel fromSchema.IsolationLevel }

variable {s t base : SchemaObj} {name id : String}

theorem lookup_properties_merged (s base : SchemaObj) (name : String) :
    (s.merged base).properties.lookup name =
      (s.properties.lookup name).or (base.properties.lookup name) := by
  have hget : (s.merged base).JSONSchema.get "properties" =
      .map (GoMap.toList (extendMap s.properties base.properties)) := by
    show GoMap.get (AList.insert _ _ (AList.insert _ _ (AList.insert _ _ _))) "properties" = _
    rw [get_insert_of_ne _ (by decide), get_insert_of_ne _ (by decide), GoMap.get_insert_self]
  rw [properties, hget]
  exact (GoMap.lookup_ofList_toList _ _).trans (GoMap.lookup_union _ _ _)

theorem required_merged (s base : SchemaObj) :
    (s.merged base).required = extendStringList base.required s.required := by
  rw [required]
  show (GoMap.get (AList.insert _ _ _) "required").maybeStringList = _
  rw [GoMap.get_insert_self]
  rfl

/-- `Extend` always leaves a map of properties. -/
theorem hasMap_merged (s base : SchemaObj) :
    ((s.merged base).JSONSchema.get "properties").map?.isSome = true := by
  show ((GoMap.get (AList.insert _ _ (AList.insert _ _ (AList.insert _ _ _)))
    "properties").map?).isSome = true
  rw [get_insert_of_ne _ (by decide), get_insert_of_ne _ (by decide), GoMap.get_insert_self]
  rfl

end SchemaObj

open Machine (Prog final)

/-- The first text that is not empty. -/
def firstNonempty (texts : List String) : String := (texts.find? (· ≠ "")).getD ""

theorem firstNonempty_cons (text : String) (texts : List String) :
    firstNonempty (text :: texts) = if text = "" then firstNonempty texts else text := by
  by_cases htext : text = ""
  · rw [firstNonempty, List.find?_cons_of_neg (by simpa using htext), if_pos htext, firstNonempty]
  · rw [firstNonempty, List.find?_cons_of_pos (by simpa using htext), if_neg htext,
      Option.getD_some]

/-! ## One base -/

/-- What is found under a name when `Init` is done with it: nil is no property for the parent. -/
def orGenerated (parent name : String) (v : Option Value) : Option Value :=
  if v.getD .nil = .nil then (generated parent name).or v else v

theorem orGenerated_of_ne {parent name : String} (h : parent = "" ∨ name ≠ formatParentID parent)
    (v : Option Value) : orGenerated parent name v = v := by
  have hnone : generated parent name = none := by
    rw [generated, if_neg (by tauto)]
  rw [orGenerated, hnone, Option.none_or, ite_self]

theorem exists_orGenerated {parent : String} (h : parent ≠ "") (v : Option Value) :
    ∃ w, orGenerated parent (formatParentID parent) v = some w ∧ w ≠ .nil := by
  by_cases hnil : v.getD .nil = .nil
  · refine ⟨getParentPropertyObj parent parent, ?_, by simp [getParentPropertyObj]⟩
    rw [orGenerated, if_pos hnil, generated, if_pos ⟨h, rfl⟩, Option.some_or]
  · rw [orGenerated, if_neg hnil]
    cases v with
    | none => exact absurd rfl hnil
    | some w => exact ⟨w, rfl, hnil⟩

namespace SchemaObj

variable {s t u base : SchemaObj} {bases : List SchemaObj} {name id : String}

theorem lookup_definitions_eq (s : SchemaObj) (name : String) :
    s.definitions.lookup name = orGenerated s.Parent name (s.properties.lookup name) := by
  by_cases hname : s.Parent ≠ "" ∧ name = formatParentID s.Parent
  · obtain ⟨hparent, rfl⟩ := hname
    have hgenerated : generated s.Parent (formatParentID s.Parent) =
        some (getParentPropertyObj s.Parent s.Parent) :=
      generated_eq_some_iff.mpr ⟨hparent, rfl, rfl⟩
    have hadds : s.lacksParentID s.properties =
        (s.properties.get (formatParentID s.Parent) == .nil) := by
      rw [lacksParentID, bne_iff_ne.mpr hparent, Bool.true_and]
    rw [definitions, orGenerated, hadds, hgenerated, Option.some_or]
    by_cases hnil : s.properties.get (formatParentID s.Parent) = .nil
    · rw [if_pos (beq_iff_eq.mpr hnil), AList.lookup_insert]
      exact (if_pos hnil).symm
    · rw [if_neg (by simpa using hnil)]
      exact (if_neg hnil).symm
  · rw [orGenerated_of_ne (by tauto), definitions]
    split
    · next hadds =>
      have hparent : s.Parent ≠ "" := by
        rw [lacksParentID, Bool.and_eq_true] at hadds
        simpa using hadds.1
      rw [AList.lookup_insert_ne fun heq ↦ hname ⟨hparent, heq⟩]
    · rfl

variable [Files]

/-- `Init` leaves everything but the JSON schema, the properties and the indexes. -/
theorem init_rest (h : s.init = .ok t) : t = { s with
    JSONSchema := t.JSONSchema, Properties := t.Properties, Indexes := t.Indexes } := by
  by_cases hconcrete : s.isAbstract = false
  · exact (initResult hconcrete h).rest
  · rw [init, if_pos (by simpa using hconcrete)] at h
    obtain rfl := Except.ok.inj h
    rfl

theorem init_of_isAbstract (habstract : s.isAbstract = true) (h : s.init = .ok t) : t = s := by
  rw [init, if_pos habstract] at h
  exact (Except.ok.inj h).symm

theorem lookup_properties_extend (hconcrete : s.isAbstract = false) (h : s.extend base = .ok t)
    (name : String) : t.properties.lookup name =
      orGenerated t.Parent name ((s.properties.lookup name).or (base.properties.lookup name)) := by
  have hresult := initResult (s := s.merged base) hconcrete h
  rw [properties, hresult.complete (hasMap_merged s base), hresult.Parent,
    ← lookup_properties_merged, ← lookup_definitions_eq]
  exact GoMap.lookup_ofList_toList _ _

end SchemaObj

/-! ## Actions -/

/-- The loop `MergeAction` over the actions of the base. -/
def mergeActions {α : Type} (ID : α → String) (actions fromActions : List α) : List α :=
  fromActions.foldl (fun actions action ↦
    if actions.any (ID · == ID action) then actions else actions ++ [action]) actions

section MergeActions

variable {α : Type} {ID : α → String}

theorem mergeActions_cons (actions fromActions : List α) (action : α) :
    mergeActions ID actions (action :: fromActions) = mergeActions ID
      (if actions.any (ID · == ID action) then actions else actions ++ [action]) fromActions := rfl

/-- The actions stay, and of the others those follow whose identifier is new. -/
theorem mergeActions_eq {actions fromActions : List α} (hnodup : (fromActions.map ID).Nodup) :
    mergeActions ID actions fromActions =
      actions ++ fromActions.filter fun action ↦ !actions.any (ID · == ID action) := by
  induction fromActions generalizing actions with
  | nil => simp [mergeActions]
  | cons action fromActions ih =>
    obtain ⟨hnew, hnodup⟩ := List.nodup_cons.mp hnodup
    rw [mergeActions_cons, ih hnodup]
    cases hany : actions.any (ID · == ID action) with
    | true => rw [if_pos rfl, List.filter_cons_of_neg (by simp [hany])]
    | false =>
      rw [if_neg Bool.false_ne_true, List.filter_cons_of_pos (by simp [hany]), List.append_assoc,
        List.singleton_append]
      refine congrArg (actions ++ action :: ·) (List.filter_congr fun other hother ↦ ?_)
      have hne : ID action ≠ ID other := fun heq ↦ hnew (List.mem_map.mpr ⟨other, hother, heq.symm⟩)
      simp [hne]

theorem kerase_eq_filter {l : List (Sigma fun _ : String ↦ Value)} (hnodup : l.NodupKeys)
    (key : String) : l.kerase key = l.filter fun e ↦ !(key == e.1) := by
  induction l with
  | nil => rfl
  | cons e l ih =>
    obtain ⟨hnew, hnodup⟩ := List.nodupKeys_cons.mp hnodup
    by_cases hkey : key = e.1
    · rw [List.kerase_cons_eq hkey, List.filter_cons_of_neg (by simp [hkey]), hkey]
      refine (List.filter_eq_self.mpr fun other hother ↦ ?_).symm
      have hne : e.1 ≠ other.1 := fun heq ↦ hnew (heq ▸ List.mem_keys_of_mem hother)
      simpa using hne
    · rw [List.kerase_cons_ne hkey, List.filter_cons_of_pos (by simpa using hkey), ih hnodup]

/-- **The actions are merged by their identifiers.** -/
theorem toList_extendMap (actions fromActions : Dict) :
    GoMap.toList (extendMap actions fromActions) =
      mergeActions Prod.fst (GoMap.toList actions) (GoMap.toList fromActions) := by
  have hkunion : ∀ l l' : List (Sigma fun _ : String ↦ Value), l'.NodupKeys →
      l.kunion l' = l ++ l'.filter fun e ↦ !l.any (·.1 == e.1) := by
    intro l
    induction l with
    | nil => simp
    | cons e l ih =>
      intro l' hnodup
      rw [List.kunion_cons, ih _ (hnodup.kerase e.1), kerase_eq_filter hnodup, List.filter_filter,
        List.cons_append]
      refine congrArg (e :: l ++ ·) (List.filter_congr fun other _ ↦ ?_)
      rw [List.any_cons, Bool.not_or, Bool.and_comm]
  rw [mergeActions_eq (by rw [GoMap.map_fst_toList]; exact fromActions.keys_nodup), extendMap,
    GoMap.toList, AList.union_entries, hkunion _ _ fromActions.nodupKeys, List.map_append,
    GoMap.toList, GoMap.toList, List.filter_map]
  simp [Function.comp_def]

end MergeActions

/-! ## All the bases -/

/-- A schema is extended by bases one after the other. -/
def extendAll [Files] : List SchemaObj → SchemaObj → Go SchemaObj
  | [], schemaObj => .ok schemaObj
  | baseSchema :: bases, schemaObj => do
    let schemaObj ← schemaObj.extend baseSchema
    extendAll bases schemaObj

/-- What the first of the schemas that has it has. -/
def firstOf (field : SchemaObj → Dict) (schemas : List SchemaObj) (key : String) : Option Value :=
  schemas.findSome? fun schema ↦ (field schema).lookup key

theorem firstOf_cons (field : SchemaObj → Dict) (schema : SchemaObj) (schemas : List SchemaObj)
    (key : String) : firstOf field (schema :: schemas) key =
      ((field schema).lookup key).or (firstOf field schemas key) := by
  rw [firstOf, List.findSome?_cons, firstOf]
  cases (field schema).lookup key <;> rfl

/-- Extended by the schemas of `front` and by `base`, the schema has a parent, and before this it
had none that `Extend` has seen. -/
structure NamesParent (s : SchemaObj) (front : List SchemaObj) (base : SchemaObj) : Prop where
  unnamed : front = [] ∨ firstNonempty ((s :: front).map SchemaObj.Parent) = ""
  named : firstNonempty ((s :: front ++ [base]).map SchemaObj.Parent) ≠ ""

/-- None of the schemas up to the one that names the parent has the property for it. -/
def AddsParentID (s : SchemaObj) (bases : List SchemaObj) : Prop :=
  ∃ front base rest, bases = front ++ base :: rest ∧ NamesParent s front base ∧
    (firstOf SchemaObj.properties (s :: front ++ [base]) (formatParentID (firstNonempty
      ((s :: bases).map SchemaObj.Parent)))).getD .nil = .nil

/-- **What a schema has from its bases.** -/
structure Extended (s : SchemaObj) (bases : List SchemaObj) (t : SchemaObj) : Prop where
  unchanged : bases = [] → t = s
  Parent : t.Parent = firstNonempty ((s :: bases).map SchemaObj.Parent)
  Prefix : t.Prefix = firstNonempty ((s :: bases).map SchemaObj.Prefix)
  URL : t.URL = firstNonempty ((s :: bases).map SchemaObj.URL)
  NamespaceID : t.NamespaceID = firstNonempty ((s :: bases).map SchemaObj.NamespaceID)
  /-- The definitions are those of the first that has one. -/
  definitions : ∀ name, s.isAbstract = true ∨ t.Parent = "" ∨ name ≠ formatParentID t.Parent →
    t.properties.lookup name = firstOf SchemaObj.properties (s :: bases) name
  /-- The property for the parent is `Init`'s, if none of those up to the one that names the parent
  has it. -/
  parentProperty : s.isAbstract = false → ∀ front base rest, bases = front ++ base :: rest →
    NamesParent s front base → t.properties.lookup (formatParentID t.Parent) =
      orGenerated t.Parent (formatParentID t.Parent) (firstOf SchemaObj.properties
        (s :: front ++ [base]) (formatParentID t.Parent))
  /-- What one of them requires is required, and nothing else but the parent. -/
  required : ∀ id, id ∈ t.required ↔ (∃ schema ∈ s :: bases, id ∈ schema.required) ∨
    s.isAbstract = false ∧ AddsParentID s bases ∧ id = formatParentID t.Parent
  required_nodup : (∀ schema ∈ (s :: bases).getLast?, schema.required.Nodup) →
    (s.isAbstract = false → AddsParentID s bases →
      ∀ schema ∈ s :: bases, formatParentID t.Parent ∉ schema.required) → t.required.Nodup
  /-- The actions of the bases are merged into those of the schema. -/
  mergedActions : GoMap.toList t.Actions = bases.foldl (fun actions base ↦
    mergeActions Prod.fst actions (GoMap.toList base.Actions)) (GoMap.toList s.Actions)
  actionIDs : ((GoMap.toList t.Actions).map Prod.fst).Nodup
  Actions : ∀ id, t.Actions.lookup id = firstOf SchemaObj.Actions (s :: bases) id
  Metadata : ∀ key, t.Metadata.lookup key = firstOf SchemaObj.Metadata (s :: bases) key
  IsolationLevel : ∀ key,
    t.IsolationLevel.lookup key = firstOf SchemaObj.IsolationLevel (s :: bases) key

section ExtendAll

variable [Files] {s t u base : SchemaObj} {bases : List SchemaObj} {name id : String}

theorem extendAll_cons_eq_ok (h : extendAll (base :: bases) s = .ok t) :
    ∃ u, s.extend base = .ok u ∧ extendAll bases u = .ok t := by
  rw [extendAll] at h
  exact Go.bind_eq_ok.mp h

theorem extend_rest (h : s.extend base = .ok t) : t = { s.merged base with
    JSONSchema := t.JSONSchema, Properties := t.Properties, Indexes := t.Indexes } :=
  SchemaObj.init_rest (s := s.merged base) h

theorem isAbstract_extend (h : s.extend base = .ok t) : t.isAbstract = s.isAbstract := by
  rw [extend_rest h]
  rfl

/-- A field of which the schema takes over the first that is not empty. -/
theorem extendAll_text {field : SchemaObj → String}
    (hstep : ∀ s base t, SchemaObj.extend s base = .ok t →
      field t = if field s = "" then field base else field s)
    (h : extendAll bases s = .ok t) : field t = firstNonempty ((s :: bases).map field) := by
  induction bases generalizing s with
  | nil =>
    obtain rfl := Except.ok.inj h
    rw [List.map_cons, firstNonempty_cons, List.map_nil]
    split
    · next hempty => exact hempty
    · rfl
  | cons base bases ih =>
    obtain ⟨u, hu, h⟩ := extendAll_cons_eq_ok h
    rw [ih h, List.map_cons, List.map_cons, List.map_cons, firstNonempty_cons, firstNonempty_cons,
      firstNonempty_cons, hstep s base u hu]
    by_cases hempty : field s = ""
    · simp only [if_pos hempty]
    · simp only [if_neg hempty]

theorem extendAll_Parent (h : extendAll bases s = .ok t) :
    t.Parent = firstNonempty ((s :: bases).map SchemaObj.Parent) :=
  extendAll_text (fun s base t h ↦ by rw [extend_rest h]; rfl) h

/-- A field of which the schema takes over what it does not have. -/
theorem extendAll_dict {field : SchemaObj → Dict}
    (hstep : ∀ s base t, SchemaObj.extend s base = .ok t →
      field t = extendMap (field s) (field base))
    (h : extendAll bases s = .ok t) (key : String) :
    (field t).lookup key = firstOf field (s :: bases) key := by
  induction bases generalizing s with
  | nil =>
    obtain rfl := Except.ok.inj h
    rw [firstOf_cons]
    exact (Option.or_none).symm
  | cons base bases ih =>
    obtain ⟨u, hu, h⟩ := extendAll_cons_eq_ok h
    rw [ih h, firstOf_cons, firstOf_cons, firstOf_cons, hstep s base u hu, extendMap,
      GoMap.lookup_union, Option.or_assoc]

theorem toList_extendAll (h : extendAll bases s = .ok t) :
    GoMap.toList t.Actions = bases.foldl (fun actions base ↦
      mergeActions Prod.fst actions (GoMap.toList base.Actions)) (GoMap.toList s.Actions) := by
  induction bases generalizing s with
  | nil =>
    obtain rfl := Except.ok.inj h
    rfl
  | cons base bases ih =>
    obtain ⟨u, hu, h⟩ := extendAll_cons_eq_ok h
    have hactions : u.Actions = extendMap s.Actions base.Actions := by
      rw [extend_rest hu]
      rfl
    rw [ih h, hactions, toList_extendMap]
    rfl

/-! ### Parents -/

theorem Parent_extend (h : s.extend base = .ok u) :
    u.Parent = if s.Parent = "" then base.Parent else s.Parent := by
  rw [extend_rest h]
  rfl

/-- The base comes between the schema and the bases that are still to come. -/
theorem firstNonempty_extend (h : s.extend base = .ok u) (texts : List String) :
    firstNonempty (u.Parent :: texts) = firstNonempty (s.Parent :: base.Parent :: texts) := by
  rw [firstNonempty_cons, firstNonempty_cons, firstNonempty_cons, Parent_extend h]
  by_cases hempty : s.Parent = ""
  · simp only [if_pos hempty]
  · simp only [if_neg hempty]

/-- A parent is not replaced. -/
theorem Parent_extendAll_of_ne (h : extendAll bases s = .ok t) (hparent : s.Parent ≠ "") :
    t.Parent = s.Parent := by
  rw [extendAll_Parent h, List.map_cons, firstNonempty_cons, if_neg hparent]

/-! ### Definitions -/

theorem lookup_extend_of_ne (h : s.extend base = .ok u)
    (hname : s.isAbstract = true ∨ u.Parent = "" ∨ name ≠ formatParentID u.Parent) :
    u.properties.lookup name = (s.properties.lookup name).or (base.properties.lookup name) := by
  cases habstract : s.isAbstract with
  | true =>
    rw [SchemaObj.init_of_isAbstract (s := s.merged base) habstract h,
      SchemaObj.lookup_properties_merged]
  | false =>
    rw [SchemaObj.lookup_properties_extend habstract h, orGenerated_of_ne]
    exact hname.resolve_left (by rw [habstract]; exact Bool.false_ne_true)

/-- What is not the property for the parent is defined by the first that has it. -/
theorem lookup_extendAll_of_ne (h : extendAll bases s = .ok t)
    (hname : s.isAbstract = true ∨ t.Parent = "" ∨ name ≠ formatParentID t.Parent) :
    t.properties.lookup name = firstOf SchemaObj.properties (s :: bases) name := by
  induction bases generalizing s with
  | nil =>
    obtain rfl := Except.ok.inj h
    rw [firstOf_cons]
    exact (Option.or_none).symm
  | cons base bases ih =>
    obtain ⟨u, hu, h⟩ := extendAll_cons_eq_ok h
    have hbefore : s.isAbstract = true ∨ u.Parent = "" ∨ name ≠ formatParentID u.Parent := by
      refine hname.imp id fun hname ↦ ?_
      by_cases hparent : u.Parent = ""
      · exact .inl hparent
      · rwa [Parent_extendAll_of_ne h hparent] at hname
    rw [ih h (hname.imp (isAbstract_extend hu).trans id), firstOf_cons, firstOf_cons, firstOf_cons,
      lookup_extend_of_ne hu hbefore, Option.or_assoc]

/-- A definition is not replaced. -/
theorem lookup_extendAll_of_some {v : Value} (hconcrete : s.isAbstract = false)
    (h : extendAll bases s = .ok t) (hv : s.properties.lookup name = some v) (hnil : v ≠ .nil) :
    t.properties.lookup name = some v := by
  induction bases generalizing s with
  | nil =>
    obtain rfl := Except.ok.inj h
    exact hv
  | cons base bases ih =>
    obtain ⟨u, hu, h⟩ := extendAll_cons_eq_ok h
    refine ih ((isAbstract_extend hu).trans hconcrete) h ?_
    rw [SchemaObj.lookup_properties_extend hconcrete hu, hv, Option.some_or]
    exact if_neg hnil

theorem lookup_extendAll_parentID {front rest : List SchemaObj} (hconcrete : s.isAbstract = false)
    (h : extendAll (front ++ base :: rest) s = .ok t) (hnames : NamesParent s front base) :
    t.properties.lookup (formatParentID t.Parent) =
      orGenerated t.Parent (formatParentID t.Parent) (firstOf SchemaObj.properties
        (s :: front ++ [base]) (formatParentID t.Parent)) := by
  induction front generalizing s with
  | nil =>
    obtain ⟨u, hu, h⟩ := extendAll_cons_eq_ok h
    have hparent : u.Parent ≠ "" := by
      have hnamed : firstNonempty [s.Parent, base.Parent] ≠ "" := hnames.named
      rw [← firstNonempty_extend hu, firstNonempty_cons] at hnamed
      intro hempty
      rw [if_pos hempty] at hnamed
      exact hnamed rfl
    have hlookup := SchemaObj.lookup_properties_extend hconcrete hu (formatParentID u.Parent)
    obtain ⟨v, hv, hnil⟩ := exists_orGenerated hparent
      ((s.properties.lookup (formatParentID u.Parent)).or
        (base.properties.lookup (formatParentID u.Parent)))
    rw [Parent_extendAll_of_ne h hparent, List.singleton_append, firstOf_cons, firstOf_cons,
      firstOf, List.findSome?_nil, Option.or_none, hv]
    exact lookup_extendAll_of_some ((isAbstract_extend hu).trans hconcrete) h (hlookup.trans hv)
      hnil
  | cons first front ih =>
    obtain ⟨u, hu, h⟩ := extendAll_cons_eq_ok h
    have hunnamed : firstNonempty (u.Parent :: front.map SchemaObj.Parent) = "" :=
      (firstNonempty_extend hu _).trans (hnames.unnamed.resolve_left (by simp))
    have hempty : u.Parent = "" := by
      by_contra hparent
      rw [firstNonempty_cons, if_neg hparent] at hunnamed
      exact hparent hunnamed
    have hnamed : firstNonempty (u.Parent :: (front ++ [base]).map SchemaObj.Parent) ≠ "" := by
      rw [firstNonempty_extend hu]
      exact hnames.named
    rw [ih ((isAbstract_extend hu).trans hconcrete) h ⟨.inr hunnamed, hnamed⟩, List.cons_append,
      List.cons_append, firstOf_cons, lookup_extend_of_ne hu (.inr (.inl hempty)), List.cons_append,
      firstOf_cons, firstOf_cons, Option.or_assoc]

/-! ### What is required -/

omit [Files] in
theorem addsParent_merged : (s.merged base).addsParent = true ↔ (s.merged base).Parent ≠ "" ∧
    (firstOf SchemaObj.properties [s, base] (formatParentID (s.merged base).Parent)).getD .nil =
      .nil := by
  rw [SchemaObj.addsParent, SchemaObj.lacksParentID, Bool.and_eq_true, bne_iff_ne, beq_iff_eq,
    GoMap.get, SchemaObj.lookup_properties_merged, firstOf_cons, firstOf_cons, firstOf,
    List.findSome?_nil, Option.or_none]

theorem mem_required_extend (hconcrete : s.isAbstract = false) (h : s.extend base = .ok u) :
    id ∈ u.required ↔ (id ∈ s.required ∨ id ∈ base.required) ∨
      (s.merged base).addsParent = true ∧ id = formatParentID u.Parent := by
  have hresult := SchemaObj.initResult (s := s.merged base) hconcrete h
  rw [hresult.required_eq, SchemaObj.initRequired, SchemaObj.mem_withParentID,
    SchemaObj.required_merged, mem_extendStringList, or_comm (a := id ∈ base.required),
    hresult.Parent]

omit [Files] in
/-- Once there is a property for the parent, none is added. -/
theorem not_addsParentID (hparent : s.Parent ≠ "") {v : Value}
    (hv : s.properties.lookup (formatParentID s.Parent) = some v) (hnil : v ≠ .nil) :
    ¬AddsParentID s bases := by
  rintro ⟨front, base, rest, -, -, hlookup⟩
  rw [List.map_cons, firstNonempty_cons, if_neg hparent, List.cons_append, firstOf_cons,
    hv] at hlookup
  exact hnil hlookup

/-- `Init` adds the property for the parent with the first base or with one that comes later. -/
theorem addsParentID_cons (hconcrete : s.isAbstract = false) (h : s.extend base = .ok u) :
    AddsParentID s (base :: bases) ↔
      (s.merged base).addsParent = true ∨ AddsParentID u bases := by
  have hmerged : (s.merged base).Parent = u.Parent := by
    rw [extend_rest h]
  have hparents : firstNonempty ((s :: base :: bases).map SchemaObj.Parent) =
      firstNonempty ((u :: bases).map SchemaObj.Parent) := (firstNonempty_extend h _).symm
  have hsame : u.Parent = "" → ∀ schemas name, firstOf SchemaObj.properties (u :: schemas) name =
      firstOf SchemaObj.properties (s :: base :: schemas) name := fun hempty schemas name ↦ by
    rw [firstOf_cons, firstOf_cons, firstOf_cons, lookup_extend_of_ne h (.inr (.inl hempty)),
      Option.or_assoc]
  rw [addsParent_merged, hmerged]
  constructor
  · rintro ⟨front, next, rest, heq, hnames, hlookup⟩
    rw [hparents] at hlookup
    cases front with
    | nil =>
      obtain ⟨rfl, rfl⟩ := List.cons.inj heq
      have hnamed : firstNonempty [s.Parent, base.Parent] ≠ "" := hnames.named
      have hparent : u.Parent ≠ "" := by
        intro hempty
        rw [← firstNonempty_extend h, firstNonempty_cons, if_pos hempty] at hnamed
        exact hnamed rfl
      rw [List.map_cons, firstNonempty_cons, if_neg hparent] at hlookup
      exact .inl ⟨hparent, hlookup⟩
    | cons first front =>
      obtain ⟨rfl, rfl⟩ := List.cons.inj heq
      have hunnamed : firstNonempty (u.Parent :: front.map SchemaObj.Parent) = "" :=
        (firstNonempty_extend h _).trans (hnames.unnamed.resolve_left (by simp))
      have hempty : u.Parent = "" := by
        by_contra hparent
        rw [firstNonempty_cons, if_neg hparent] at hunnamed
        exact hparent hunnamed
      refine .inr ⟨front, next, rest, rfl, ⟨.inr hunnamed, fun hnone ↦ hnames.named ?_⟩, ?_⟩
      · exact (firstNonempty_extend h _).symm.trans hnone
      · rw [List.cons_append, hsame hempty]
        exact hlookup
  · rintro (⟨hparent, hlookup⟩ | hadds)
    · refine ⟨[], base, bases, rfl, ⟨.inl rfl, fun hnone ↦ ?_⟩, ?_⟩
      · have hnamed := (firstNonempty_extend h []).trans hnone
        rw [firstNonempty_cons, if_neg hparent] at hnamed
        exact hparent hnamed
      · rw [hparents, List.map_cons, firstNonempty_cons, if_neg hparent]
        exact hlookup
    · by_cases hempty : u.Parent = ""
      · obtain ⟨front, next, rest, rfl, hnames, hlookup⟩ := hadds
        refine ⟨base :: front, next, rest, rfl, ⟨.inr ?_, fun hnone ↦ hnames.named ?_⟩, ?_⟩
        · refine (firstNonempty_extend h _).symm.trans ?_
          rcases hnames.unnamed with rfl | hunnamed
          · rw [firstNonempty_cons, if_pos hempty]
            rfl
          · exact hunnamed
        · exact (firstNonempty_extend h _).trans hnone
        · rw [hparents, List.cons_append, List.cons_append, ← hsame hempty]
          exact hlookup
      · obtain ⟨v, hv, hnil⟩ := exists_orGenerated hempty
          ((s.properties.lookup (formatParentID u.Parent)).or
            (base.properties.lookup (formatParentID u.Parent)))
        rw [← SchemaObj.lookup_properties_extend hconcrete h] at hv
        exact absurd hadds (not_addsParentID hempty hv hnil)

theorem mem_required_extendAll (h : extendAll bases s = .ok t) : id ∈ t.required ↔
    (∃ schema ∈ s :: bases, id ∈ schema.required) ∨
      s.isAbstract = false ∧ AddsParentID s bases ∧ id = formatParentID t.Parent := by
  induction bases generalizing s with
  | nil =>
    obtain rfl := Except.ok.inj h
    have hnone : ¬AddsParentID s [] := fun ⟨front, base, rest, heq, _⟩ ↦ by simp at heq
    simp [hnone]
  | cons base bases ih =>
    obtain ⟨u, hu, h⟩ := extendAll_cons_eq_ok h
    rw [ih h, isAbstract_extend hu]
    cases hconcrete : s.isAbstract with
    | true =>
      rw [SchemaObj.init_of_isAbstract (s := s.merged base) hconcrete hu]
      simp [SchemaObj.required_merged, mem_extendStringList]
      tauto
    | false =>
      have hparent : (s.merged base).addsParent = true → t.Parent = u.Parent := fun hadds ↦ by
        refine Parent_extendAll_of_ne h ?_
        rw [extend_rest hu]
        exact (addsParent_merged.mp hadds).1
      simp only [List.mem_cons, exists_eq_or_imp, mem_required_extend hconcrete hu,
        addsParentID_cons hconcrete hu]
      constructor
      · rintro ((((hid | hid) | ⟨hadds, hid⟩) | hid) | ⟨-, hadds, hid⟩)
        · exact .inl (.inl hid)
        · exact .inl (.inr (.inl hid))
        · exact .inr ⟨trivial, .inl hadds, (hparent hadds) ▸ hid⟩
        · exact .inl (.inr (.inr hid))
        · exact .inr ⟨trivial, .inr hadds, hid⟩
      · rintro ((hid | hid | hid) | ⟨-, hadds | hadds, hid⟩)
        · exact .inl (.inl (.inl (.inl hid)))
        · exact .inl (.inl (.inl (.inr hid)))
        · exact .inl (.inr hid)
        · exact .inl (.inl (.inr ⟨hadds, (hparent hadds) ▸ hid⟩))
        · exact .inr ⟨trivial, hadds, hid⟩

/-- Nothing is required twice that the last base does not require twice, but the parent, when the
property for it is required before it is added. -/
theorem nodup_required_extendAll (h : extendAll bases s = .ok t)
    (hlast : ∀ schema ∈ (s :: bases).getLast?, schema.required.Nodup)
    (hparentID : s.isAbstract = false → AddsParentID s bases →
      ∀ schema ∈ s :: bases, formatParentID t.Parent ∉ schema.required) : t.required.Nodup := by
  induction bases generalizing s with
  | nil =>
    obtain rfl := Except.ok.inj h
    exact hlast s rfl
  | cons base bases ih =>
    obtain ⟨u, hu, h⟩ := extendAll_cons_eq_ok h
    by_cases hbases : bases = []
    · subst hbases
      obtain rfl := Except.ok.inj h
      have hmerged : (s.merged base).required.Nodup := by
        rw [SchemaObj.required_merged, nodup_extendStringList_iff]
        exact hlast base rfl
      cases hconcrete : s.isAbstract with
      | true => rwa [SchemaObj.init_of_isAbstract (s := s.merged base) hconcrete hu]
      | false =>
        have hresult := SchemaObj.initResult (s := s.merged base) hconcrete hu
        rw [hresult.required_eq, SchemaObj.initRequired, SchemaObj.withParentID]
        split
        · next hadds =>
          have hnew := hparentID hconcrete ((addsParentID_cons hconcrete hu).mpr (.inl hadds))
          rw [← List.concat_eq_append, List.nodup_concat, SchemaObj.required_merged,
            mem_extendStringList, ← hresult.Parent]
          refine ⟨?_, hmerged⟩
          rintro (hmem | hmem)
          · exact hnew base (by simp) hmem
          · exact hnew s (by simp) hmem
        · exact hmerged
    · refine ih h (fun schema hschema ↦ hlast schema ?_) fun hconcrete hadds schema hschema ↦ ?_
      · obtain ⟨first, rest, rfl⟩ := List.exists_cons_of_ne_nil hbases
        exact hschema
      · rw [isAbstract_extend hu] at hconcrete
        have hbefore := hparentID hconcrete ((addsParentID_cons hconcrete hu).mpr (.inr hadds))
        rcases List.mem_cons.mp hschema with rfl | hschema
        · intro hmem
          rcases (mem_required_extend hconcrete hu).mp hmem with (hmem | hmem) | ⟨hfirst, -⟩
          · exact hbefore s (by simp) hmem
          · exact hbefore base (by simp) hmem
          · -- the property for the parent is there already
            have hparent : schema.Parent ≠ "" := by
              rw [extend_rest hu]
              exact (addsParent_merged.mp hfirst).1
            obtain ⟨v, hv, hnil⟩ := exists_orGenerated hparent
              ((s.properties.lookup (formatParentID schema.Parent)).or
                (base.properties.lookup (formatParentID schema.Parent)))
            rw [← SchemaObj.lookup_properties_extend hconcrete hu] at hv
            exact not_addsParentID hparent hv hnil hadds
        · exact hbefore schema (by simp [hschema])

/-- **What comes of the bases.** -/
theorem extended (h : extendAll bases s = .ok t) : Extended s bases t where
  unchanged hnone := by
    subst hnone
    exact (Except.ok.inj h).symm
  Parent := extendAll_Parent h
  Prefix := extendAll_text (fun s base t h ↦ by rw [extend_rest h]; rfl) h
  URL := extendAll_text (fun s base t h ↦ by rw [extend_rest h]; rfl) h
  NamespaceID := extendAll_text (fun s base t h ↦ by rw [extend_rest h]; rfl) h
  definitions name hname := lookup_extendAll_of_ne h hname
  parentProperty hconcrete front base rest heq hnames :=
    lookup_extendAll_parentID hconcrete (heq ▸ h) hnames
  required id := mem_required_extendAll h
  required_nodup := nodup_required_extendAll h
  mergedActions := toList_extendAll h
  actionIDs := by
    rw [GoMap.map_fst_toList]
    exact t.Actions.keys_nodup
  Actions := extendAll_dict (fun s base t h ↦ by rw [extend_rest h]; rfl) h
  Metadata := extendAll_dict (fun s base t h ↦ by rw [extend_rest h]; rfl) h
  IsolationLevel := extendAll_dict (fun s base t h ↦ by rw [extend_rest h]; rfl) h

end ExtendAll

/-! ## Schemas that can be extended -/

/-- A definition that a property can be made from. -/
def Readable (v : Value) : Prop := ∀ id required, ∃ p, newPropertyFromObj id required v = .ok p

theorem exists_parseProperties {required : List String} {definitions : List (String × Value)}
    (h : ∀ e ∈ definitions, ∃ p, newPropertyFromObj e.1 (required.contains e.1) e.2 = .ok p) :
    ∃ properties, parseProperties required definitions = .ok properties := by
  induction definitions with
  | nil => exact ⟨[], rfl⟩
  | cons e definitions ih =>
    obtain ⟨p, hp⟩ := h e List.mem_cons_self
    obtain ⟨ps, hps⟩ := ih fun e he ↦ h e (List.mem_cons_of_mem _ he)
    refine ⟨p :: ps, ?_⟩
    rw [parseProperties, hp, hps]
    rfl

theorem readable_getParentPropertyObj (title parent : String) :
    Readable (getParentPropertyObj title parent) := fun id required ↦ by
  rw [getParentPropertyObj, newPropertyFromObj]
  exact ⟨_, rfl⟩

namespace SchemaObj

/-- All that `Init` reads of a schema is well-formed. -/
structure WellFormed (s : SchemaObj) : Prop where
  properties : ∀ name v, s.properties.lookup name = some v → Readable v
  indexes : ∃ indexes, newIndexes (GoMap.toList (s.JSONSchema.get "indexes").maybeMap) = .ok indexes

variable [Files] {s t base : SchemaObj} {bases : List SchemaObj}

theorem exists_init_of_unsorted {properties : List NestedProperty} {indexes : List Index}
    (hunsorted : s.unsorted = .ok properties)
    (hindexes : newIndexes (GoMap.toList (s.JSONSchema.get "indexes").maybeMap) = .ok indexes) :
    ∃ t, s.init = .ok t := by
  by_cases habstract : s.isAbstract = true
  · exact ⟨s, by rw [init, if_pos habstract]⟩
  · rw [init, if_neg habstract]
    exact ⟨_, Go.bind_eq_ok.mpr ⟨properties, hunsorted,
      Go.bind_eq_ok.mpr ⟨indexes, hindexes, rfl⟩⟩⟩

theorem WellFormed.exists_init (h : s.WellFormed) : ∃ t, s.init = .ok t := by
  have hdefinitions : ∀ e ∈ GoMap.toList s.definitions, Readable e.2 := by
    rintro ⟨name, v⟩ he
    have hv := GoMap.mem_toList.mp he
    rw [lookup_definitions_eq, orGenerated] at hv
    split at hv
    · rcases Option.or_eq_some_iff.mp hv with hv | ⟨-, hv⟩
      · obtain ⟨-, -, rfl⟩ := generated_eq_some_iff.mp hv
        exact readable_getParentPropertyObj _ _
      · exact h.properties name v hv
    · exact h.properties name v hv
  obtain ⟨properties, hproperties⟩ : ∃ properties, s.unsorted = .ok properties :=
    exists_parseProperties fun e he ↦ hdefinitions e he _ _
  obtain ⟨indexes, hindexes⟩ := h.indexes
  exact exists_init_of_unsorted hproperties hindexes

/-- A schema can be extended by one that `Init` could read, and then by more. -/
theorem WellFormed.extend (h : s.WellFormed) (hbase : base.WellFormed)
    (hext : s.extend base = .ok t) : t.WellFormed := by
  have hmerged : (s.merged base).JSONSchema.get "indexes" = s.JSONSchema.get "indexes" := by
    show GoMap.get (AList.insert _ _ (AList.insert _ _ (AList.insert _ _ _))) "indexes" = _
    rw [get_insert_of_ne _ (by decide), get_insert_of_ne _ (by decide),
      get_insert_of_ne _ (by decide)]
  have hproperties : ∀ name v,
      (s.properties.lookup name).or (base.properties.lookup name) = some v → Readable v := by
    intro name v hv
    rcases Option.or_eq_some_iff.mp hv with hv | ⟨-, hv⟩
    · exact h.properties name v hv
    · exact hbase.properties name v hv
  cases hconcrete : s.isAbstract with
  | true =>
    rw [init_of_isAbstract (s := s.merged base) hconcrete hext]
    refine ⟨fun name v hv ↦ hproperties name v ?_, hmerged ▸ h.indexes⟩
    rwa [← lookup_properties_merged]
  | false =>
    have hresult := initResult (s := s.merged base) hconcrete hext
    refine ⟨fun name v hv ↦ ?_, ?_⟩
    · rw [lookup_properties_extend hconcrete hext, orGenerated] at hv
      split at hv
      · rcases Option.or_eq_some_iff.mp hv with hv | ⟨-, hv⟩
        · obtain ⟨-, -, rfl⟩ := generated_eq_some_iff.mp hv
          exact readable_getParentPropertyObj _ _
        · exact hproperties name v hv
      · exact hproperties name v hv
    · rw [hresult.JSONSchema _ (by decide) (by decide) (by decide), hmerged]
      exact h.indexes

theorem WellFormed.exists_extend (h : s.WellFormed) (hbase : base.WellFormed) :
    ∃ t, s.extend base = .ok t := by
  refine WellFormed.exists_init (s := s.merged base) ⟨fun name v hv ↦ ?_, ?_⟩
  · rw [lookup_properties_merged] at hv
    rcases Option.or_eq_some_iff.mp hv with hv | ⟨-, hv⟩
    · exact h.properties name v hv
    · exact hbase.properties name v hv
  · show ∃ indexes, newIndexes (GoMap.toList (GoMap.get (AList.insert _ _ (AList.insert _ _
      (AList.insert _ _ _))) "indexes").maybeMap) = .ok indexes
    rw [get_insert_of_ne _ (by decide), get_insert_of_ne _ (by decide),
      get_insert_of_ne _ (by decide)]
    exact h.indexes

theorem WellFormed.exists_extendAll (h : s.WellFormed) (hbases : ∀ base ∈ bases, base.WellFormed) :
    ∃ t, extendAll bases s = .ok t := by
  induction bases generalizing s with
  | nil => exact ⟨s, rfl⟩
  | cons base bases ih =>
    obtain ⟨hbase, hbases⟩ := List.forall_mem_cons.mp hbases
    obtain ⟨u, hu⟩ := h.exists_extend hbase
    obtain ⟨t, ht⟩ := ih (h.extend hbase hu) hbases
    exact ⟨t, Go.bind_eq_ok.mpr ⟨u, hu, ht⟩⟩

end SchemaObj

/-! ## The bases in the manager -/

section Manager

variable [Files] [RegexpEngine] {m : Manager} {ids : List String} {bases : List SchemaObj}

/-- The identifiers are those of abstract schemas in the manager. -/
def AreBases (m : Manager) (ids : List String) (bases : List SchemaObj) : Prop :=
  List.Forall₂ (fun id base ↦ (∃ r, m.schema id = some r ∧ r.obj = base) ∧ base.isAbstract = true)
    ids bases

/-- **The loop of `loadSchemaFromFile` extends the schema by what the manager has, and does nothing
to the manager.** -/
theorem extendByBases_eq (h : AreBases m ids bases) (s : SchemaObj) :
    extendByBases ids s m = (extendAll bases s, []) := by
  induction h generalizing s with
  | nil => rfl
  | @cons id base ids bases hbase _ ih =>
    obtain ⟨⟨r, hr, rfl⟩, habstract⟩ := hbase
    rw [extendByBases, extendAll]
    show Prog.bind Prog.get _ m = _
    simp only [Prog.bind, Prog.get_apply, final, List.foldl_nil, hr, habstract, Bool.not_true,
      Bool.false_eq_true, if_false, List.nil_append]
    show Prog.bind (Prog.lift (s.extend r.obj)) _ m = _
    cases hu : s.extend r.obj with
    | error fault =>
      simp only [Prog.bind, Prog.lift_apply]
      rfl
    | ok u =>
      simp only [Prog.bind, Prog.lift_apply, final, List.foldl_nil, ih u, List.append_nil]
      rfl

end Manager

/-- **What comes of extending a schema by bases**: whatever they are, it can be done if all of them
can be read, each field is merged by its own rule, and in the loop of `loadSchemaFromFile` this is
all that happens.  That no base is changed holds of the model by itself, as schemas are values
here; the source makes new maps and lists for it (`ExtendMap`, `ExtendStringList`). -/
theorem extendAll_extended [Files] [RegexpEngine] (s : SchemaObj) (bases : List SchemaObj) :
    (∀ t, extendAll bases s = .ok t → Extended s bases t) ∧
      ((∀ schema ∈ s :: bases, schema.WellFormed) → ∃ t, extendAll bases s = .ok t) ∧
      ∀ m ids, AreBases m ids bases → extendByBases ids s m = (extendAll bases s, []) :=
  ⟨fun _ h ↦ extended h,
    fun h ↦ (h s List.mem_cons_self).exists_extendAll fun base hbase ↦
      h base (List.mem_cons_of_mem _ hbase),
    fun _ _ h ↦ extendByBases_eq h s⟩

/-- An abstract schema with a parent, which neither defines nor requires a property for it. -/
def childBase : SchemaObj :=
  { bareSchema "child" with type := "abstract", Parent := "network" }

/-- **More is required than the schemas require**: the property for the parent is. -/
theorem extendAll_requires_parentID : letI := ofContents []
    ¬∀ (s : SchemaObj) (bases : List SchemaObj) (t : SchemaObj), extendAll bases s = .ok t →
      ∀ id ∈ t.required, ∃ schema ∈ s :: bases, id ∈ schema.required := by
  let files := ofContents []
  intro h
  have hrequired : (extendAll [childBase] (bareSchema "port")).map SchemaObj.required =
      .ok ["network_id"] := by decide +kernel
  obtain ⟨t, ht, hids⟩ := Go.map_eq_ok.mp hrequired
  obtain ⟨schema, hschema, hid⟩ := h _ _ t ht "network_id" (by rw [hids]; simp)
  rcases List.mem_pair.mp hschema with rfl | rfl <;> exact absurd hid (by decide +kernel)

end Loading

end Gohan
