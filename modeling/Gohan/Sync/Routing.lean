import Gohan.Sync.Event
import Gohan.Logic.Visit

/-!
# From the path of a resource back to the resource

A resource has two paths: its URL path, and the path under which it is synced, which is the
rendered template of its schema if the schema has one.  `GetSchemaByURLPath`, `GetSchemaByPath` and
`GetResourceIDFromPath` go back.  The first two return the first schema that fits, of a map that is
visited in any order.

`routesBack_iff` says when they come back to where the path is from: when no other schema fits, for
each of the two, and the template leads to the identifier.
-/

set_option autoImplicit false

namespace Gohan

open Sync

namespace Sync

/-- The path has as many segments as the template, and has the template's segments except where
those begin with `{{`. -/
def Fits (template path : String) : Prop :=
  List.Forall₂ (fun v w ↦ hasPrefix v "\x7b\x7b" = true ∨ w = v) (splitPath template)
    (splitPath path)

/-- What the path has where the template has `{{id}}`, if it does. -/
def idSegment (template path : String) : String :=
  (splitPath path)[(splitPath template).idxOf "{{id}}"]?.getD ""

/-- The path could be one of the schema: it fits the template, or begins with the URL. -/
def Covers (c : Schema) (path : String) : Prop :=
  match c.syncKeyTemplate with
  | none => c.url.toList <+: path.toList
  | some template => Fits template path

/-! ## Finding the schema -/

theorem checkIfPathMatches_iff {path template : String} :
    checkIfPathMatchesSyncKeyTemplate path template = true ↔ Fits template path := by
  rw [checkIfPathMatchesSyncKeyTemplate, Fits, Bool.and_eq_true, List.forall₂_iff_zip,
    List.all_eq_true, beq_iff_eq, eq_comm]
  refine and_congr_right fun _ ↦ ?_
  simp only [Prod.forall, Bool.or_eq_true, beq_iff_eq]

/-- The test of `GetSchemaByPath`. -/
def covers (path : String) (c : Schema) : Bool :=
  match c.syncKeyTemplate with
  | some syncKeyTemplate => checkIfPathMatchesSyncKeyTemplate path syncKeyTemplate
  | none => hasPrefix path c.url

theorem covers_iff {path : String} {c : Schema} : covers path c = true ↔ Covers c path := by
  rw [covers, Covers]
  cases c.syncKeyTemplate with
  | none => exact List.isPrefixOf_iff_prefix
  | some template => exact checkIfPathMatches_iff

theorem forall_getSchemaByPath_iff {schemas : List Schema} {path : String} {s : Schema} :
    (∀ order : List Schema, order.Perm schemas → getSchemaByPath order path = some s) ↔
      (s ∈ schemas ∧ Covers s path) ∧ ∀ c ∈ schemas, c ≠ s → ¬Covers c path := by
  have hfirst : (∀ order : List Schema, order.Perm schemas → getSchemaByPath order path = some s) ↔
      (s ∈ schemas ∧ covers path s = true) ∧ ∀ c ∈ schemas, covers path c = true → c = s :=
    Visit.forall_perm_find?_iff
  simp only [hfirst, covers_iff]
  exact and_congr_right fun _ ↦ forall_congr' fun c ↦ forall_congr' fun _ ↦
    ⟨fun h hne hc ↦ hne (h hc), fun h hc ↦ by_contra fun hne ↦ h hne hc⟩

/-- The identifier a template leads to. -/
theorem find?_zip {template path : List String} (hlength : template.length = path.length)
    (segment : String) :
    ((template.zip path).find? (·.1 == segment)).elim "" (·.2) =
      path[template.idxOf segment]?.getD "" := by
  induction template generalizing path with
  | nil =>
    obtain rfl := List.eq_nil_of_length_eq_zero hlength.symm
    rfl
  | cons v template ih =>
    cases path with
    | nil => cases hlength
    | cons w path =>
      rw [List.zip_cons_cons, List.idxOf_cons, List.find?_cons]
      cases v == segment with
      | true => rfl
      | false => exact ih (by simpa using hlength)

theorem trimPrefix_append (keyPrefix path : String) :
    trimPrefix (keyPrefix ++ path) keyPrefix = path := by
  rw [trimPrefix, if_pos (hasPrefix_append path keyPrefix), String.toList_append,
    List.drop_left, String.ofList_toList]

/-- **The identifier that is read from a path that fits.** -/
theorem getResourceIDFromPath_of_fits {s : Schema} {template path : String}
    (htemplate : s.syncKeyTemplate = some template) (hfits : Fits template path) :
    s.getResourceIDFromPath path = idSegment template path := by
  have hlength : (splitPath template).length = (splitPath path).length := hfits.length_eq
  rw [Schema.getResourceIDFromPath, htemplate, idSegment, ← find?_zip hlength]
  simp only [hlength, ge_iff_le, le_refl, if_true]
  cases ((splitPath template).zip (splitPath path)).find? (·.1 == "{{id}}") <;> rfl

/-! ## The condition -/

variable [TextEngine]

/-- The path under which a resource is synced, as `generatePath` makes it for the resource's own
schema, without the prefix for configurations: where a template cannot be rendered it is the URL
path. -/
def Resource.syncPath (r : Resource) : String :=
  match r.schema.syncKeyTemplate with
  | none => r.path
  | some _ =>
    match r.json.unmarshalMap >>= r.schema.generateCustomPath with
    | .ok path => path
    | .error _ => r.path

/-- **The way back**, in every order in which the schemas are visited. -/
structure RoutesBack (schemas : List Schema) (r : Resource) : Prop where
  byURL : ∀ order : List Schema, order.Perm schemas →
    getSchemaByURLPath order r.path = some r.schema
  byPath : ∀ order : List Schema, order.Perm schemas →
    getSchemaByPath order r.syncPath = some r.schema
  id : r.schema.getResourceIDFromPath r.syncPath = r.ID
  /-- An event under the path reaches the resource. -/
  reaches : r.schema.stateVersioning = true → ∀ order : List Schema, order.Perm schemas →
    ∀ (keyPrefix : String) (event : Event), event.Key = keyPrefix ++ r.syncPath →
      target order keyPrefix event = some (r.schema, r.ID)

/-- The schemas and the resource are such that there is a way back. -/
structure Routable (schemas : List Schema) (r : Resource) : Prop where
  /-- The URL of no other schema is above that of the resource's schema, or is the path of the
  resource. -/
  urls : ∀ c ∈ schemas, c ≠ r.schema →
    ¬(c.url ++ "/").toList <+: r.schema.url.toList ∧ c.url ≠ r.path
  /-- No other schema covers the path under which the resource is synced. -/
  others : ∀ c ∈ schemas, c ≠ r.schema → ¬Covers c r.syncPath
  /-- The rendered template fits the template, and has the identifier in its place. -/
  own : ∀ template, r.schema.syncKeyTemplate = some template →
    Fits template r.syncPath ∧ idSegment template r.syncPath = r.ID

/-! ## The way back -/

/-- The resource's own schema covers its path when the rendered template fits. -/
theorem covers_own_iff (r : Resource) :
    Covers r.schema r.syncPath ↔
      ∀ template, r.schema.syncKeyTemplate = some template → Fits template r.syncPath := by
  rw [Covers]
  cases htemplate : r.schema.syncKeyTemplate with
  | none =>
    refine iff_of_true ?_ fun template h ↦ by cases h
    have hpath : r.syncPath = r.path := by rw [Resource.syncPath, htemplate]
    rw [hpath, Resource.path, String.append_assoc, String.toList_append]
    exact List.prefix_append _ _
  | some template =>
    exact ⟨fun h t ht ↦ Option.some.inj ht ▸ h, fun h ↦ h template rfl⟩

/-- The path of a resource matches another schema when the URL of that is above, or the path. -/
theorem matches_iff {r : Resource} (hid : '/' ∉ r.ID.toList) {c : Schema}
    (hurl : c.url ≠ r.schema.url) :
    c.Matches r.path ↔ (c.url ++ "/").toList <+: r.schema.url.toList ∨ c.url = r.path := by
  have hslash : "/".toList = ['/'] := rfl
  rw [Schema.Matches, hasPrefix, List.isPrefixOf_iff_prefix]
  simp only [Resource.path, String.toList_append, hslash]
  constructor
  · intro h
    rcases List.prefix_concat_iff.mp h with heq | hshort
    · refine .inr (String.toList_inj.mp ?_)
      simpa using List.append_cancel_right heq
    · refine .inl ?_
      have hurl' : c.url.toList ++ ['/'] ≠ r.schema.url.toList ++ ['/'] := fun heq ↦
        hurl (String.toList_inj.mp (List.append_cancel_right heq))
      rcases List.prefix_or_prefix_of_prefix hshort (List.prefix_append _ r.ID.toList) with
        hprefix | ⟨rest, hrest⟩
      · exact (List.prefix_concat_iff.mp hprefix).resolve_left hurl'
      · -- the rest ends with a slash and is a part of the identifier
        rcases List.eq_nil_or_concat rest with rfl | ⟨rest, last, rfl⟩
        · exact absurd (by simpa using hrest.symm) hurl'
        · rw [List.concat_eq_append, ← List.append_assoc] at hrest
          obtain ⟨-, hlast⟩ := List.append_inj' hrest rfl
          obtain rfl := List.singleton_inj.mp hlast
          rw [← hrest, List.append_assoc, List.prefix_append_right_inj] at hshort
          exact absurd (hshort.mem (List.mem_append_right _ (List.mem_singleton_self _))) hid
  · rintro (habove | hpath)
    · refine habove.trans ?_
      simp only [List.append_assoc]
      exact List.prefix_append _ _
    · rw [hpath]
      simp

omit [TextEngine] in
theorem forall_getSchemaByURLPath_iff {schemas : List Schema} {path : String} {s : Schema} :
    (∀ order : List Schema, order.Perm schemas → getSchemaByURLPath order path = some s) ↔
      (s ∈ schemas ∧ s.Matches path) ∧ ∀ c ∈ schemas, c ≠ s → ¬c.Matches path := by
  simp only [getSchemaByURLPath, Visit.forall_perm_find?_iff, decide_eq_true_eq]
  exact and_congr_right fun _ ↦ forall_congr' fun c ↦ forall_congr' fun _ ↦
    ⟨fun h hne hc ↦ hne (h hc), fun h hc ↦ by_contra fun hne ↦ h hne hc⟩

/-- **Exactly when there is a way back.** -/
theorem routesBack_iff (schemas : List Schema) (r : Resource) (hschema : r.schema ∈ schemas)
    (hurls : ∀ c ∈ schemas, c ≠ r.schema → c.url ≠ r.schema.url) (hid : '/' ∉ r.ID.toList) :
    RoutesBack schemas r ↔ Routable schemas r := by
  constructor
  · intro h
    obtain ⟨-, hmatches⟩ := forall_getSchemaByURLPath_iff.mp h.byURL
    obtain ⟨⟨-, hcovers⟩, hothers⟩ := forall_getSchemaByPath_iff.mp h.byPath
    refine ⟨fun c hc hne ↦ ?_, hothers, fun template htemplate ↦ ?_⟩
    · have hnot := mt (matches_iff hid (hurls c hc hne)).mpr (hmatches c hc hne)
      exact not_or.mp hnot
    · have hfits := (covers_own_iff r).mp hcovers template htemplate
      exact ⟨hfits, (getResourceIDFromPath_of_fits htemplate hfits).symm.trans h.id⟩
  · intro h
    have hbyPath : ∀ order : List Schema, order.Perm schemas →
        getSchemaByPath order r.syncPath = some r.schema :=
      forall_getSchemaByPath_iff.mpr ⟨⟨hschema, (covers_own_iff r).mpr fun template htemplate ↦
        (h.own template htemplate).1⟩, h.others⟩
    have hID : r.schema.getResourceIDFromPath r.syncPath = r.ID := by
      cases htemplate : r.schema.syncKeyTemplate with
      | none =>
        rw [Schema.getResourceIDFromPath, Resource.syncPath, htemplate]
        exact trimPrefix_append _ _
      | some template =>
        obtain ⟨hfits, hsegment⟩ := h.own template htemplate
        exact (getResourceIDFromPath_of_fits htemplate hfits).trans hsegment
    refine ⟨forall_getSchemaByURLPath_iff.mpr ⟨⟨hschema, r.matches_path⟩, fun c hc hne hmatches ↦
      ?_⟩, hbyPath, hID, fun hversioned order horder keyPrefix event hkey ↦ ?_⟩
    · obtain ⟨habove, hpath⟩ := h.urls c hc hne
      exact ((matches_iff hid (hurls c hc hne)).mp hmatches).elim habove hpath
    · simp only [target, hkey, trimPrefix_append, hbyPath order horder, hversioned, hID,
        Bool.not_true, Bool.false_eq_true, if_false]

/-! ## URLs that begin alike -/

/-- A schema of a few words. -/
def plainSchema (id url : String) (metadata : Dict) : Schema where
  id
  singular := id
  plural := id ++ "s"
  url
  metadata
  properties := [{ id := "id" }]

/-- Devices are under the site they are at. -/
def deviceSchema : Schema :=
  plainSchema "device" "/v2.0/devices"
    (GoMap.ofList [("sync_key_template", .str "/v1.0/sites/{{site}}/devices/{{id}}")])

/-- Sites, which have no template. -/
def siteSchema : Schema := plainSchema "site" "/v2.0/sites" ∅

/-- A device at a site. -/
def device : Resource := ⟨deviceSchema, GoMap.ofList [("id", .str "d1"), ("site", .str "tokyo")]⟩

omit [TextEngine] in
theorem routesBack_device : letI := placeholders
    RoutesBack [siteSchema, deviceSchema] device := by
  let _ := placeholders
  have hother : ∀ c ∈ [siteSchema, deviceSchema], c ≠ device.schema → c = siteSchema := by
    intro c hc hne
    rcases List.mem_cons.mp hc with rfl | hc
    · rfl
    · exact absurd (List.mem_singleton.mp hc) hne
  refine (routesBack_iff [siteSchema, deviceSchema] device (by simp [device])
    (fun c hc hne ↦ hother c hc hne ▸ by decide) (by decide +kernel)).mpr
      ⟨fun c hc hne ↦ ?_, fun c hc hne ↦ ?_, fun template htemplate ↦ ?_⟩
  · rw [hother c hc hne]
    decide +kernel
  · rw [hother c hc hne, ← covers_iff]
    decide +kernel
  · have heq : device.schema.syncKeyTemplate = some "/v1.0/sites/{{site}}/devices/{{id}}" := by
      decide +kernel
    obtain rfl := Option.some.inj (htemplate.symm.trans heq)
    rw [← checkIfPathMatches_iff]
    decide +kernel

omit [TextEngine] in
/-- The path of a network begins with the URL of the nets. -/
theorem not_routesBack : letI := placeholders
    ¬∀ (schemas : List Schema) (r : Resource), r.schema ∈ schemas →
      (schemas.map (·.url)).Nodup → (schemas.filterMap (·.syncKeyTemplate)).Nodup →
        '/' ∉ r.ID.toList → RoutesBack schemas r := by
  let _ := placeholders
  intro h
  have hback := h [plainSchema "net" "/v2.0/net" ∅, plainSchema "network" "/v2.0/networks" ∅]
    ⟨plainSchema "network" "/v2.0/networks" ∅, GoMap.ofList [("id", .str "n1")]⟩ (by simp)
    (by decide +kernel) (by decide +kernel) (by decide +kernel)
  have hfound := congrArg (Option.map Schema.id) (hback.byPath _ (List.Perm.refl _))
  revert hfound
  decide +kernel

end Sync

end Gohan
