import Gohan.Schema.Defaults

/-!
# What filling in defaults adds

`declaredDefault` says what is declared for a property: its default, or, for an object without one,
an object made of what is declared for the properties in it.  The masks have the same, and nil maps
besides, for the objects without any default in them (`prune_defaultMask`).

* `populateDefaults_filled` — nothing that is supplied is changed, but for a null at the top level,
  and what is not supplied is added where something is declared for it.  An added object may have
  nil maps, or objects with nothing but nil maps, in it, which `prune` takes out.
* `populateDefaults_populateDefaults` — the second time nothing is added.
-/

set_option autoImplicit false

namespace Gohan

/-! ## Defaults that are declared -/

namespace NestedProperty

mutual
/-- What is declared for a property. -/
def declaredDefault : NestedProperty → Option Value
  | mk own properties _ =>
    if own.default ≠ .nil then some own.default
    else if own.type ≠ "object" then none
    else if (declaredDefaults properties).isEmpty then none
    else some (.map (declaredDefaults properties))

/-- The defaults that some properties declare. -/
def declaredDefaults : List NestedProperty → List (String × Value)
  | [] => []
  | property :: properties =>
    (property.declaredDefault.map fun v ↦ (property.own.id, v)).toList ++
      declaredDefaults properties
end

/-- The property at a path, on which all but the last are objects. -/
def propertyAt (properties : List NestedProperty) : List String → Option NestedProperty
  | [] => none
  | [key] => find properties key
  | key :: path => (find properties key).bind fun p ↦
    if p.own.type = "object" then propertyAt p.properties path else none

end NestedProperty

/-- What is stored at a path. -/
def Value.at? : List String → Value → Option Value
  | [], v => some v
  | key :: path, v => (v.map?.bind (·.lookup key)).bind (at? path)

open NestedProperty in
/-- What is declared for the property at a path: what it has in the default of the outermost. -/
def defaultAt (properties : List NestedProperty) (path : List String) : Option Value :=
  if (propertyAt properties path).isSome then
    ((path.head?.bind (find properties)).bind declaredDefault).bind (Value.at? path.tail)
  else none

namespace Datum

/-- What is stored at a path. -/
def at? : List String → Datum → Option Datum
  | [], d => some d
  | key :: path, .map m => (m.lookup key).bind (at? path)
  | _ :: _, _ => none

mutual
/-- A datum without the nil maps in it, and without what has nothing but nil maps in it. -/
def prune : Datum → Option Value
  | .value v _ => some v
  | .nilMap => none
  | .map m => if !m.isEmpty && (pruneEntries m).isEmpty then none else some (.map (pruneEntries m))

/-- The entries of a map, pruned. -/
def pruneEntries : List (String × Datum) → List (String × Value)
  | [] => []
  | (k, d) :: m => ((prune d).map fun v ↦ (k, v)).toList ++ pruneEntries m
end

mutual
theorem prune_ofValue : ∀ v : Value, (ofValue v).prune = some v
  | .map m => by
    rw [ofValue, prune, pruneEntries_ofEntries m]
    cases m with
    | nil => rfl
    | cons e m => simp
  | .nil => rfl
  | .bool _ => rfl
  | .int _ => rfl
  | .float _ => rfl
  | .str _ => rfl
  | .strs _ => rfl
  | .list _ => rfl

theorem pruneEntries_ofEntries : ∀ m : List (String × Value), pruneEntries (ofEntries m) = m
  | [] => rfl
  | (k, v) :: m => by
    rw [ofEntries, pruneEntries, prune_ofValue v, pruneEntries_ofEntries m]
    rfl
end

theorem at?_ofValue (path : List String) (v : Value) :
    (ofValue v).at? path = (v.at? path).map ofValue := by
  induction path generalizing v with
  | nil => rfl
  | cons key path ih =>
    cases v with
    | map m =>
      rw [ofValue, at?, NestedProperty.lookup_ofEntries, Value.at?, Value.map?, Option.bind_some]
      cases m.lookup key with
      | none => rfl
      | some v => exact ih v
    | _ => rfl

theorem ofMap_of_asMap {d : Datum} {m : MapVar} (h : d.asMap = .ok m) : ofMap m = d := by
  cases d with
  | value v hv => cases h
  | nilMap => rw [← Except.ok.inj h]; rfl
  | map m => rw [← Except.ok.inj h]; rfl

theorem at?_ofMap (m : MapVar) (key : String) (path : List String) :
    (ofMap m).at? (key :: path) = (m.get key).bind (at? path) := by
  cases m <;> rfl

theorem at?_singleton (m : List (String × Datum)) (key : String) :
    (Datum.map m).at? [key] = m.lookup key := by
  rw [at?]
  cases m.lookup key <;> rfl

/-- What is at a path that leads to a map is a map. -/
theorem eq_map_of_at? {path : List String} {d : Datum} {data : List (String × Datum)}
    (h : d.at? path = some (.map data)) : ∃ m, d = .map m := by
  cases d with
  | map m => exact ⟨m, rfl⟩
  | value v hv => cases path <;> cases h
  | nilMap => cases path <;> cases h

theorem of_at?_cons {first : String} {path : List String} {m data : List (String × Datum)}
    (h : (Datum.map m).at? (first :: path) = some (.map data)) :
    ∃ inner, m.lookup first = some (.map inner) ∧
      (Datum.map inner).at? path = some (.map data) := by
  rw [at?] at h
  cases hm : m.lookup first with
  | none => rw [hm] at h; cases h
  | some d =>
    rw [hm, Option.bind_some] at h
    obtain ⟨inner, rfl⟩ := eq_map_of_at? h
    exact ⟨inner, rfl, h⟩

theorem at?_append {path : List String} {d : Datum} {data : List (String × Datum)}
    (h : d.at? path = some (.map data)) (key : String) :
    d.at? (path ++ [key]) = data.lookup key := by
  induction path generalizing d with
  | nil =>
    obtain rfl := Option.some.inj h
    exact at?_singleton data key
  | cons first path ih =>
    obtain ⟨m, rfl⟩ := eq_map_of_at? h
    rw [at?] at h
    rw [List.cons_append, at?]
    cases hm : m.lookup first with
    | none => rw [hm] at h; cases h
    | some d => rw [hm] at h; exact ih h

theorem ofValue_ne_map {v : Value} (h : v.map? = none) : ∀ m, ofValue v ≠ .map m := by
  intro m heq
  obtain ⟨e, he⟩ := NestedProperty.asMap_ofValue_of_not_map h
  rw [heq] at he
  cases he

theorem isNull_ofValue {v : Value} (h : v ≠ .nil) : (ofValue v).isNull = false := by
  cases v <;> first | rfl | exact absurd rfl h

/-- A datum in which no map has a key twice, or which has been read as a whole. -/
inductive Keyed : Datum → Prop
  | read (v : Value) : Keyed (ofValue v)
  | nilMap : Keyed .nilMap
  | map {m : List (String × Datum)} (hkeys : (m.map Prod.fst).Nodup)
      (hentries : ∀ e ∈ m, Keyed e.2) : Keyed (.map m)

theorem lookup_pruneEntries_of_notMem {m : List (String × Datum)} {key : String}
    (h : key ∉ m.map Prod.fst) : (pruneEntries m).lookup key = none := by
  induction m with
  | nil => rfl
  | cons e m ih =>
    obtain ⟨k, d⟩ := e
    rw [List.map_cons, List.mem_cons, not_or] at h
    rw [pruneEntries]
    cases d.prune with
    | none => exact ih h.2
    | some v =>
      exact (KeyedUpdate.lookup_cons_ne (Ne.symm h.1) v (pruneEntries m)).trans (ih h.2)

theorem lookup_pruneEntries {m : List (String × Datum)} (h : (m.map Prod.fst).Nodup)
    (key : String) : (pruneEntries m).lookup key = (m.lookup key).bind prune := by
  induction m with
  | nil => rfl
  | cons e m ih =>
    obtain ⟨k, d⟩ := e
    rw [List.map_cons, List.nodup_cons] at h
    rw [pruneEntries]
    by_cases hk : k = key
    · subst hk
      rw [List.lookup_cons_self, Option.bind_some]
      cases d.prune with
      | none => exact lookup_pruneEntries_of_notMem h.1
      | some v => exact List.lookup_cons_self
    · rw [KeyedUpdate.lookup_cons_ne hk, ← ih h.2]
      cases d.prune with
      | none => rfl
      | some v => exact KeyedUpdate.lookup_cons_ne hk v (pruneEntries m)

theorem lookup_mem {m : List (String × Datum)} {key : String} {d : Datum}
    (h : m.lookup key = some d) : (key, d) ∈ m := by
  obtain ⟨before, after, rfl, -⟩ := List.lookup_eq_some_iff.mp h
  exact List.mem_append_right _ List.mem_cons_self

/-- What is at a path of a pruned datum. -/
theorem at?_prune (path : List String) {d : Datum} (h : d.Keyed) :
    d.prune.bind (Value.at? path) = (d.at? path).bind prune := by
  induction path generalizing d with
  | nil =>
    show d.prune.bind some = d.prune
    cases d.prune <;> rfl
  | cons key path ih =>
    cases h with
    | read v =>
      rw [prune_ofValue, at?_ofValue, Option.bind_some]
      cases v.at? (key :: path) with
      | none => rfl
      | some w => exact (prune_ofValue w).symm
    | nilMap => rfl
    | @map m hkeys hentries =>
      have hlookup := lookup_pruneEntries hkeys key
      have hinside : (m.lookup key).bind (fun d ↦ d.prune.bind (Value.at? path)) =
          ((Datum.map m).at? (key :: path)).bind prune := by
        rw [at?]
        cases hd : m.lookup key with
        | none => rfl
        | some d => exact ih (hentries _ (lookup_mem hd))
      rw [← hinside, ← Option.bind_assoc, ← hlookup, prune]
      split
      · next hempty =>
        rw [Bool.and_eq_true, List.isEmpty_iff] at hempty
        rw [hempty.2]
        rfl
      · rfl

end Datum

namespace NestedProperty

/-! ## The masks -/

/-- The entries that `defaultMasks` makes, in their order. -/
def maskEntries (properties : List NestedProperty) : List (String × Datum) :=
  properties.filterMap fun p ↦ p.defaultMask.map fun mask ↦ (p.own.id, mask)

theorem maskEntries_cons (p : NestedProperty) (properties : List NestedProperty) :
    maskEntries (p :: properties) =
      (p.defaultMask.map fun mask ↦ (p.own.id, mask)).toList ++ maskEntries properties := by
  rw [maskEntries, List.filterMap_cons]
  cases p.defaultMask <;> rfl

theorem map_fst_maskEntries_sublist (properties : List NestedProperty) :
    ((maskEntries properties).map Prod.fst).Sublist (properties.map (·.own.id)) := by
  induction properties with
  | nil => exact .slnil
  | cons p properties ih =>
    rw [maskEntries_cons]
    cases p.defaultMask with
    | none => exact ih.cons _
    | some mask => exact ih.cons_cons _

/-- Where no identifier occurs twice every mask is put at the end. -/
theorem defaultMasks_eq {properties : List NestedProperty}
    (hids : (properties.map (·.own.id)).Nodup) (mask : MapVar)
    (hfresh : ∀ p ∈ properties, p.own.id ∉ (mask.getD []).map Prod.fst) :
    defaultMasks properties mask =
      if (maskEntries properties).isEmpty then mask
      else some (mask.getD [] ++ maskEntries properties) := by
  induction properties generalizing mask with
  | nil => rw [defaultMasks]; rfl
  | cons p properties ih =>
    rw [List.map_cons, List.nodup_cons] at hids
    have hrest := fun q hq ↦ hfresh q (List.mem_cons_of_mem p hq)
    rw [defaultMasks, maskEntries_cons]
    cases p.defaultMask with
    | none => exact ih hids.2 mask hrest
    | some first =>
      have hput := KeyedUpdate.put_of_notMem (hfresh p List.mem_cons_self) first
      have hfresh' : ∀ q ∈ properties,
          q.own.id ∉ ((some (mask.getD [] ++ [(p.own.id, first)])).getD []).map Prod.fst := by
        intro q hq hmem
        rw [Option.getD_some, List.map_append, List.mem_append] at hmem
        rcases hmem with hmem | hmem
        · exact hrest q hq hmem
        · have heq : q.own.id = p.own.id := List.mem_singleton.mp hmem
          exact hids.1 (heq ▸ List.mem_map_of_mem hq)
      show defaultMasks properties (some (KeyedUpdate.put p.own.id first (mask.getD []))) = _
      rw [hput, ih hids.2 _ hfresh']
      cases maskEntries properties with
      | nil => rfl
      | cons e m => simp

/-- The mask of an object without a default of its own. -/
theorem defaultMask_of_object {own : Property} {properties : List NestedProperty}
    {items : Option NestedProperty} (hids : (properties.map (·.own.id)).Nodup)
    (hdefault : own.default = .nil) (htype : own.type = "object") :
    (mk own properties items).defaultMask = some (.ofMap
      (if (maskEntries properties).isEmpty then none else some (maskEntries properties))) := by
  rw [defaultMask, if_neg (not_not.mpr hdefault), if_neg (not_not.mpr htype),
    defaultMasks_eq hids none fun p hp ↦ List.not_mem_nil]
  rfl

theorem keyed_defaultMask (p : NestedProperty) :
    p.DistinctIDs → ∀ mask, p.defaultMask = some mask → mask.Keyed := by
  induction p using induct with
  | h own properties items ih =>
    rintro ⟨hids, hinner⟩ mask hmask
    by_cases hdefault : own.default = .nil
    · by_cases htype : own.type = "object"
      · rw [defaultMask_of_object hids hdefault htype, Option.some.injEq] at hmask
        subst hmask
        split
        · exact .nilMap
        · refine .map (hids.sublist (map_fst_maskEntries_sublist properties)) fun e he ↦ ?_
          obtain ⟨q, hq, hentry⟩ := List.mem_filterMap.mp he
          obtain ⟨mask, hmask, rfl⟩ := Option.map_eq_some_iff.mp hentry
          exact ih q hq (hinner q hq) mask hmask
      · rw [defaultMask, if_neg (not_not.mpr hdefault), if_pos htype] at hmask
        cases hmask
    · rw [defaultMask, if_pos hdefault, Option.some.injEq] at hmask
      exact hmask ▸ .read own.default

theorem pruneEntries_maskEntries {properties : List NestedProperty}
    (h : ∀ q ∈ properties, q.defaultMask.bind Datum.prune = q.declaredDefault) :
    Datum.pruneEntries (maskEntries properties) = declaredDefaults properties := by
  induction properties with
  | nil => rw [declaredDefaults]; rfl
  | cons q properties ih =>
    rw [maskEntries_cons, declaredDefaults, ← h q List.mem_cons_self,
      ← ih fun p hp ↦ h p (List.mem_cons_of_mem _ hp)]
    cases q.defaultMask with
    | none => rfl
    | some mask =>
      show Datum.pruneEntries ((q.own.id, mask) :: maskEntries properties) = _
      rw [Datum.pruneEntries]
      rfl

/-- **The mask of a property has what is declared for it.** -/
theorem prune_defaultMask (p : NestedProperty) :
    p.DistinctIDs → p.defaultMask.bind Datum.prune = p.declaredDefault := by
  induction p using induct with
  | h own properties items ih =>
    rintro ⟨hids, hinner⟩
    by_cases hdefault : own.default = .nil
    · by_cases htype : own.type = "object"
      · have hentries := pruneEntries_maskEntries fun q hq ↦ ih q hq (hinner q hq)
        rw [defaultMask_of_object hids hdefault htype, declaredDefault,
          if_neg (not_not.mpr hdefault), if_neg (not_not.mpr htype), Option.bind_some, ← hentries]
        cases maskEntries properties with
        | nil => rfl
        | cons e m =>
          show (Datum.map (e :: m)).prune = _
          rw [Datum.prune]
          rfl
      · rw [defaultMask, if_neg (not_not.mpr hdefault), if_pos htype, declaredDefault,
          if_neg (not_not.mpr hdefault), if_pos htype]
        rfl
    · rw [defaultMask, if_pos hdefault, declaredDefault, if_pos hdefault]
      exact Datum.prune_ofValue own.default

/-! ## What is stored at a path -/

/-- What is at a place after the defaults have been filled in, if `before` was there.  What was
there is kept, unless it was an object, which may have more in it now; a default is added where
there was nothing, if the place is that of a property. -/
structure Placed (property : Option NestedProperty) (default : Option Value)
    (before after : Option Datum) : Prop where
  kept : ∀ d, before = some d → (∀ m, d ≠ .map m) → after = some d
  object : ∀ m, before = some (.map m) → ∃ m', after = some (.map m')
  added : before = none → property.isSome = true → after.bind Datum.prune = default
  undeclared : before = none → property = none → after = none

/-- A place that the loop does not touch. -/
theorem placed_refl {property : Option NestedProperty} {default : Option Value}
    {before : Option Datum} (h : before = none → property.isSome = true → default = none) :
    Placed property default before before where
  kept _ hd _ := hd
  object m hm := ⟨m, hm⟩
  added hnone hsome := by rw [hnone, h hnone hsome]; rfl
  undeclared hnone _ := hnone

/-- Nothing is stored in a nil map. -/
theorem fillProperty_none {p : NestedProperty} {mask m' : MapVar}
    (h : p.fillProperty none mask = .ok m') : m' = none := by
  obtain ⟨own, properties, items⟩ := p
  rw [fillProperty] at h
  cases hmask : mask.get own.id with
  | none =>
    rw [hmask] at h
    exact (Except.ok.inj h).symm
  | some entry =>
    rw [hmask] at h
    by_cases htype : own.type = "object"
    · simp only [htype, if_true] at h
      cases hentry : entry.asMap with
      | error e => rw [hentry] at h; cases h
      | ok maskMap =>
        rw [hentry] at h
        change (if _ then _ else _) = _ at h
        split at h
        · cases h
        · exact (Except.ok.inj h).symm
    · simp only [htype, if_false] at h
      cases h

theorem fillProperties_none {properties : List NestedProperty} {mask m' : MapVar}
    (h : fillProperties properties none mask = .ok m') : m' = none := by
  induction properties with
  | nil =>
    rw [fillProperties] at h
    exact (Except.ok.inj h).symm
  | cons p properties ih =>
    rw [fillProperties] at h
    cases hfirst : p.fillProperty none mask with
    | error e => rw [hfirst] at h; cases h
    | ok m =>
      obtain rfl := fillProperty_none hfirst
      rw [hfirst] at h
      exact ih h

/-- An object is filled in with a map, and a nil map is left. -/
theorem of_fillEntry_some {p : NestedProperty} (htype : p.own.type = "object")
    {mask filled : Datum} {after : Option Datum} (h : p.fillEntry mask (some filled) = .ok after) :
    ∃ maskMap resourceMap resourceMap', mask.asMap = .ok maskMap ∧ filled.asMap = .ok resourceMap ∧
      p.fillObjectDefaults resourceMap maskMap = .ok resourceMap' ∧
        after = some (.ofMap resourceMap') := by
  rw [fillEntry_some htype] at h
  cases hmask : mask.asMap with
  | error e => rw [hmask] at h; cases h
  | ok maskMap =>
    cases hfilled : filled.asMap with
    | error e => rw [hmask, hfilled] at h; cases h
    | ok resourceMap =>
      rw [hmask, hfilled] at h
      change (do let resourceMap ← p.fillObjectDefaults resourceMap maskMap; _) = _ at h
      cases hfill : p.fillObjectDefaults resourceMap maskMap with
      | error e => rw [hfill] at h; cases h
      | ok resourceMap' =>
        rw [hfill] at h
        exact ⟨maskMap, resourceMap, resourceMap', rfl, rfl, hfill, (Except.ok.inj h).symm⟩

theorem fillObjectDefaults_some {p : NestedProperty} {data : List (String × Datum)}
    {mask m' : MapVar} (h : p.fillObjectDefaults (some data) mask = .ok m') :
    ∃ data', m' = some data' ∧
      KeyedUpdate.updateAll (·.own.id) (innerEntry mask) p.properties data = .ok data' := by
  rw [fillObjectDefaults, fillProperties_some] at h
  cases hall : KeyedUpdate.updateAll (·.own.id) (innerEntry mask) p.properties data with
  | error e => rw [hall] at h; cases h
  | ok data' =>
    rw [hall] at h
    exact ⟨data', (Except.ok.inj h).symm, rfl⟩

theorem fillEntry_placed {p : NestedProperty} {mask : Datum} {before after : Option Datum}
    (h : p.fillEntry mask before = .ok after) : Placed (some p) mask.prune before after := by
  by_cases htype : p.own.type = "object"
  · cases before with
    | none =>
      rw [fillEntry_none htype] at h
      refine ⟨fun d hd ↦ (by cases hd), fun m hm ↦ (by cases hm), fun _ _ ↦ ?_,
        fun _ hp ↦ (by cases hp)⟩
      cases mask with
      | value v hv => cases h
      | nilMap =>
        rw [← Except.ok.inj h]
        rfl
      | map m =>
        rw [← Except.ok.inj h]
        rfl
    | some filled =>
      obtain ⟨maskMap, resourceMap, resourceMap', -, hfilled, hfill, rfl⟩ :=
        of_fillEntry_some htype h
      refine ⟨fun d hd hmap ↦ ?_, fun m hm ↦ ?_, fun hnone ↦ (by cases hnone),
        fun hnone ↦ (by cases hnone)⟩
      · obtain rfl := Option.some.inj hd
        cases filled with
        | value v hv => cases hfilled
        | nilMap =>
          obtain rfl := Except.ok.inj hfilled
          rw [fillProperties_none hfill]
          rfl
        | map m => exact absurd rfl (hmap m)
      · obtain rfl := Option.some.inj hm
        obtain rfl := Except.ok.inj hfilled
        obtain ⟨data', rfl, -⟩ := fillObjectDefaults_some hfill
        exact ⟨data', rfl⟩
  · rw [fillEntry_of_not_object htype] at h
    obtain rfl := Except.ok.inj h
    refine ⟨fun d hd _ ↦ by rw [hd]; rfl, fun m hm ↦ ⟨m, by rw [hm]; rfl⟩, fun hnone _ ↦ ?_,
      fun _ hp ↦ by cases hp⟩
    rw [hnone]
    rfl

theorem innerEntry_placed {p : NestedProperty} {mask : MapVar} {before after : Option Datum}
    (h : innerEntry mask p before = .ok after) :
    Placed (some p) ((mask.get p.own.id).bind Datum.prune) before after := by
  cases hentry : mask.get p.own.id with
  | none =>
    rw [innerEntry_of_none hentry] at h
    obtain rfl := Except.ok.inj h
    exact placed_refl fun _ _ ↦ rfl
  | some entry =>
    rw [innerEntry_of_some hentry] at h
    exact fillEntry_placed h

/-- Nothing that is stored is removed. -/
theorem innerEntry_keeps (mask : MapVar) : KeyedUpdate.Keeps (innerEntry mask) := by
  intro p d h
  have hplaced := innerEntry_placed h
  by_cases hmap : ∃ m, d = .map m
  · obtain ⟨m, rfl⟩ := hmap
    obtain ⟨m', hm'⟩ := hplaced.object m rfl
    cases hm'
  · have hkept := hplaced.kept d rfl fun m hm ↦ hmap ⟨m, hm⟩
    cases hkept

theorem propertyAt_cons (properties : List NestedProperty) (key : String) {path : List String}
    (h : path ≠ []) : propertyAt properties (key :: path) = (find properties key).bind fun p ↦
      if p.own.type = "object" then propertyAt p.properties path else none := by
  cases path with
  | nil => exact absurd rfl h
  | cons second path => rw [propertyAt]; exact h

theorem notMem_of_find_eq_none {properties : List NestedProperty} {key : String}
    (h : find properties key = none) : key ∉ properties.map (·.own.id) := by
  intro hmem
  obtain ⟨p, hp, rfl⟩ := List.mem_map.mp hmem
  exact absurd (List.find?_eq_none.mp h p hp) (by simp)

/-- What filling in an object leaves at a path of which everything but the last is supplied. -/
def PlacedAlong (outer : List String) : Prop :=
  ∀ {properties : List NestedProperty} {mask : MapVar} {m m' data : List (String × Datum)},
    (properties.map (·.own.id)).Nodup → (∀ q ∈ properties, q.DistinctIDs) →
    KeyedUpdate.updateAll (·.own.id) (innerEntry mask) properties m = .ok m' →
    (Datum.map m).at? outer = some (.map data) → ∀ key,
    Placed (propertyAt properties (outer ++ [key]))
      (((Datum.ofMap mask).at? (outer ++ [key])).bind Datum.prune) (data.lookup key)
      ((Datum.map m').at? (outer ++ [key]))

/-- The same, where the object is that of one property. -/
theorem PlacedAlong.fillEntry {outer : List String} (h : PlacedAlong outer) {p : NestedProperty}
    (hdistinct : p.DistinctIDs) {mask : Datum} {m data : List (String × Datum)}
    {after : Option Datum} (hfill : p.fillEntry mask (some (.map m)) = .ok after)
    (hdata : (Datum.map m).at? outer = some (.map data)) (key : String) :
    Placed (if p.own.type = "object" then propertyAt p.properties (outer ++ [key]) else none)
      ((mask.at? (outer ++ [key])).bind Datum.prune) (data.lookup key)
      (after.bind (Datum.at? (outer ++ [key]))) := by
  by_cases htype : p.own.type = "object"
  · obtain ⟨maskMap, resourceMap, resourceMap', hmaskMap, hresource, hinner, rfl⟩ :=
      of_fillEntry_some htype hfill
    obtain rfl := Except.ok.inj hresource
    obtain ⟨m', rfl, hall⟩ := fillObjectDefaults_some hinner
    obtain ⟨hids, hinnerDistinct⟩ := hdistinct
    have hplaced := h hids hinnerDistinct hall hdata key
    rw [if_pos htype]
    rwa [Datum.ofMap_of_asMap hmaskMap] at hplaced
  · rw [fillEntry_of_not_object htype] at hfill
    obtain rfl := Except.ok.inj hfill
    rw [if_neg htype]
    show Placed none _ _ ((Datum.map m).at? (outer ++ [key]))
    rw [Datum.at?_append hdata key]
    exact placed_refl fun _ h ↦ by cases h

theorem placedAlong (outer : List String) : PlacedAlong outer := by
  induction outer with
  | nil =>
    intro properties mask m m' data hids hdistinct hfill hdata key
    obtain rfl : m = data := Datum.map.inj (Option.some.inj hdata)
    rw [List.nil_append, Datum.at?_singleton, Datum.at?_ofMap, propertyAt]
    cases hfind : find properties key with
    | none =>
      rw [KeyedUpdate.lookup_updateAll_of_notMem hfill (notMem_of_find_eq_none hfind)]
      exact placed_refl fun _ h ↦ by cases h
    | some q =>
      obtain ⟨hq, rfl⟩ := find_eq_some hfind
      have hentry := innerEntry_placed
        (KeyedUpdate.lookup_updateAll (innerEntry_keeps mask) hids hfill q hq)
      have hmask : (mask.get q.own.id).bind (Datum.at? []) = mask.get q.own.id := by
        cases mask.get q.own.id <;> rfl
      rwa [hmask]
  | cons first outer ih =>
    intro properties mask m m' data hids hdistinct hfill hdata key
    have hne : outer ++ [key] ≠ [] := List.append_ne_nil_of_right_ne_nil _ (by simp)
    obtain ⟨inner, hm, hinner⟩ := Datum.of_at?_cons hdata
    rw [List.cons_append, propertyAt_cons _ _ hne, Datum.at?_ofMap, Datum.at?]
    cases hfind : find properties first with
    | none =>
      rw [KeyedUpdate.lookup_updateAll_of_notMem hfill (notMem_of_find_eq_none hfind), hm,
        Option.bind_some, Datum.at?_append hinner key]
      exact placed_refl fun _ h ↦ by cases h
    | some q =>
      obtain ⟨hq, rfl⟩ := find_eq_some hfind
      have hentry := KeyedUpdate.lookup_updateAll (innerEntry_keeps mask) hids hfill q hq
      rw [hm] at hentry
      cases hmask : mask.get q.own.id with
      | none =>
        rw [innerEntry_of_none hmask] at hentry
        rw [← Except.ok.inj hentry, Option.bind_some (f := Datum.at? _),
          Datum.at?_append hinner key]
        exact placed_refl fun _ _ ↦ rfl
      | some entry =>
        rw [innerEntry_of_some hmask] at hentry
        exact ih.fillEntry (hdistinct q hq) hentry hinner key

/-! ## The properties of the schema -/

theorem topEntry_placed {p : NestedProperty} (hdistinct : p.DistinctIDs)
    {before after : Option Datum} (h : p.topEntry before = .ok after)
    (hnull : p.own.type = "object" → before.any Datum.isNull = false) :
    Placed (some p) p.declaredDefault before after := by
  rw [← prune_defaultMask p hdistinct]
  rw [topEntry] at h
  cases hmask : p.defaultMask with
  | none =>
    rw [hmask] at h
    obtain rfl := Except.ok.inj h
    exact placed_refl fun _ _ ↦ rfl
  | some mask =>
    rw [hmask] at h
    change (if _ then _ else _) = _ at h
    rw [if_neg (by
      rintro ⟨htype, htrue⟩
      rw [hnull htype] at htrue
      cases htrue)] at h
    exact fillEntry_placed h

theorem topEntry_keeps : KeyedUpdate.Keeps topEntry := by
  intro p d h
  rw [topEntry] at h
  cases hmask : p.defaultMask with
  | none => rw [hmask] at h; cases h
  | some mask =>
    rw [hmask] at h
    change (if _ then _ else _) = _ at h
    split at h
    · cases hmap : mask.asMap <;> rw [hmap] at h <;> cases h
    · have hentry : innerEntry (some [(p.own.id, mask)]) p (some d) = .ok none := by
        have hget : MapVar.get (some [(p.own.id, mask)]) p.own.id = some mask :=
          List.lookup_cons_self
        rw [innerEntry_of_some hget]
        exact h
      exact innerEntry_keeps _ p d hentry

end NestedProperty

open NestedProperty

variable {properties : List NestedProperty} {m m' data : List (String × Datum)}

theorem defaultAt_of_find {first : String} {p : NestedProperty} (hdistinct : p.DistinctIDs)
    (h : find properties first = some p) {path : List String}
    (hpath : (propertyAt properties (first :: path)).isSome = true) :
    defaultAt properties (first :: path) =
      (p.defaultMask.bind (Datum.at? path)).bind Datum.prune := by
  rw [defaultAt, if_pos hpath, List.head?_cons, List.tail_cons, Option.bind_some, h,
    Option.bind_some, ← prune_defaultMask p hdistinct]
  cases hmask : p.defaultMask with
  | none => rfl
  | some mask => exact Datum.at?_prune path (keyed_defaultMask p hdistinct mask hmask)

/-- **What `PopulateDefaults` leaves at a path** of which everything but the last is supplied. -/
theorem populateDefaults_placed (hids : (properties.map (·.own.id)).Nodup)
    (hdistinct : ∀ p ∈ properties, p.DistinctIDs)
    (h : populateDefaults properties m = .ok m') (outer : List String)
    (hdata : (Datum.map m).at? outer = some (.map data)) (key : String)
    (hnull : outer = [] → ∀ p, find properties key = some p → p.own.type = "object" →
      (data.lookup key).any Datum.isNull = false) :
    Placed (propertyAt properties (outer ++ [key])) (defaultAt properties (outer ++ [key]))
      (data.lookup key) ((Datum.map m').at? (outer ++ [key])) := by
  rw [populateDefaults_eq] at h
  cases outer with
  | nil =>
    obtain rfl : m = data := Datum.map.inj (Option.some.inj hdata)
    rw [List.nil_append, Datum.at?_singleton]
    cases hfind : find properties key with
    | none =>
      rw [KeyedUpdate.lookup_updateAll_of_notMem h (notMem_of_find_eq_none hfind), propertyAt,
        hfind]
      exact placed_refl fun _ h ↦ by cases h
    | some p =>
      have hdefault : defaultAt properties [key] = p.declaredDefault := by
        rw [defaultAt, propertyAt, hfind, List.head?_cons, Option.bind_some, hfind,
          if_pos Option.isSome_some, Option.bind_some]
        cases p.declaredDefault <;> rfl
      rw [hdefault, propertyAt, hfind]
      obtain ⟨hp, rfl⟩ := find_eq_some hfind
      exact topEntry_placed (hdistinct p hp)
        (KeyedUpdate.lookup_updateAll topEntry_keeps hids h p hp) (hnull rfl p hfind)
  | cons first outer =>
    have hne : outer ++ [key] ≠ [] := List.append_ne_nil_of_right_ne_nil _ (by simp)
    obtain ⟨inner, hm, hinner⟩ := Datum.of_at?_cons hdata
    rw [List.cons_append, Datum.at?]
    cases hfind : find properties first with
    | none =>
      rw [KeyedUpdate.lookup_updateAll_of_notMem h (notMem_of_find_eq_none hfind), hm,
        Option.bind_some, Datum.at?_append hinner key, propertyAt_cons _ _ hne, hfind]
      exact placed_refl fun _ h ↦ by cases h
    | some p =>
      obtain ⟨hp, hid⟩ := find_eq_some hfind
      have hentry := KeyedUpdate.lookup_updateAll topEntry_keeps hids h p hp
      rw [hid, hm, topEntry] at hentry
      cases hmask : p.defaultMask with
      | none =>
        rw [hmask] at hentry
        rw [← Except.ok.inj hentry, Option.bind_some, Datum.at?_append hinner key]
        refine placed_refl fun _ hsome ↦ ?_
        rw [defaultAt_of_find (hdistinct p hp) hfind hsome, hmask]
        rfl
      | some mask =>
        rw [hmask] at hentry
        change (if _ then _ else _) = _ at hentry
        rw [if_neg (by simp [Datum.isNull])] at hentry
        have hplaced :=
          PlacedAlong.fillEntry (@placedAlong outer) (hdistinct p hp) hentry hinner key
        have hproperty : propertyAt properties (first :: (outer ++ [key])) =
            if p.own.type = "object" then propertyAt p.properties (outer ++ [key]) else none := by
          rw [propertyAt_cons _ _ hne, hfind, Option.bind_some]
        rw [hproperty]
        refine ⟨hplaced.kept, hplaced.object, fun hnone hsome ↦ ?_, hplaced.undeclared⟩
        rw [hplaced.added hnone hsome, defaultAt_of_find (hdistinct p hp) hfind (hproperty ▸ hsome),
          hmask]
        rfl

/-! ## The resource as a whole -/

/-- What `PopulateDefaults` makes of a resource.  `outer` is the path of an object that is supplied,
or nothing for the resource itself, and `key` that of something in it. -/
structure Filled (properties : List NestedProperty) (resource : List (String × Value))
    (result : List (String × Datum)) : Prop where
  /-- What is supplied and is not an object stays, unless it is a null for an object at the top. -/
  kept : ∀ outer data key v, (Value.map resource).at? outer = some (.map data) →
    data.lookup key = some v → v.map? = none →
    ¬ (outer = [] ∧ v = .nil ∧ ∃ p, find properties key = some p ∧ p.own.type = "object") →
    (Datum.map result).at? (outer ++ [key]) = some (.ofValue v)
  /-- An object stays an object. -/
  object : ∀ outer data key m, (Value.map resource).at? outer = some (.map data) →
    data.lookup key = some (.map m) → ∃ m', (Datum.map result).at? (outer ++ [key]) = some (.map m')
  /-- What is not supplied is there afterwards if it is declared, and as it is declared. -/
  added : ∀ outer data key, (Value.map resource).at? outer = some (.map data) →
    data.lookup key = none →
    ((Datum.map result).at? (outer ++ [key])).bind Datum.prune =
      defaultAt properties (outer ++ [key])
  /-- Nothing is stored under the identifier of no property. -/
  undeclared : ∀ outer data key, (Value.map resource).at? outer = some (.map data) →
    data.lookup key = none → propertyAt properties (outer ++ [key]) = none →
    (Datum.map result).at? (outer ++ [key]) = none
  /-- A null for an object at the top is as if it were not supplied. -/
  null : ∀ key p v, find properties key = some p → p.own.type = "object" →
    resource.lookup key = some .nil → p.declaredDefault = some v →
    (result.lookup key).bind Datum.prune = some v

theorem filled_of_populateDefaults {resource : List (String × Value)}
    {result : List (String × Datum)} (hids : (properties.map (·.own.id)).Nodup)
    (hdistinct : ∀ p ∈ properties, p.DistinctIDs)
    (h : populateDefaults properties (Datum.ofEntries resource) = .ok result) :
    Filled properties resource result := by
  have hpath : ∀ outer data, (Value.map resource).at? outer = some (.map data) →
      (Datum.map (Datum.ofEntries resource)).at? outer = some (.map (Datum.ofEntries data)) := by
    intro outer data hdata
    have hread := Datum.at?_ofValue outer (.map resource)
    rwa [hdata, Option.map_some, Datum.ofValue, Datum.ofValue] at hread
  have hplaced := fun outer data hdata key ↦ populateDefaults_placed hids hdistinct h outer
    (hpath outer data hdata) key
  have hlookup : ∀ (data : List (String × Value)) key v, data.lookup key = v →
      (Datum.ofEntries data).lookup key = v.map .ofValue := by
    rintro data key _ rfl
    exact lookup_ofEntries data key
  refine ⟨fun outer data key v hdata hv hmap hnot ↦ ?_, fun outer data key m hdata hm ↦ ?_,
    fun outer data key hdata hnone ↦ ?_, fun outer data key hdata hnone hundeclared ↦ ?_,
    fun key p v hfind htype hnull hdeclared ↦ ?_⟩
  · have hread := hlookup data key _ hv
    refine (hplaced outer data hdata key ?_).kept _ hread (Datum.ofValue_ne_map hmap)
    intro houter p hfind htype
    rw [hread]
    exact Datum.isNull_ofValue fun hnil ↦ hnot ⟨houter, hnil, p, hfind, htype⟩
  · have hread := hlookup data key _ hm
    refine (hplaced outer data hdata key ?_).object (Datum.ofEntries m) ?_
    · intro _ _ _ _
      rw [hread]
      rfl
    · rw [hread, Option.map_some, Datum.ofValue]
  · have hread := hlookup data key _ hnone
    have hat := hplaced outer data hdata key fun _ _ _ _ ↦ by rw [hread]; rfl
    cases hproperty : propertyAt properties (outer ++ [key]) with
    | some p => exact hat.added hread (by rw [hproperty]; rfl)
    | none =>
      rw [hat.undeclared hread hproperty, defaultAt, hproperty]
      rfl
  · have hread := hlookup data key _ hnone
    have hat := hplaced outer data hdata key fun _ _ _ _ ↦ by rw [hread]; rfl
    exact hat.undeclared hread hundeclared
  · obtain ⟨hp, rfl⟩ := find_eq_some hfind
    rw [populateDefaults_eq] at h
    have hentry := KeyedUpdate.lookup_updateAll topEntry_keeps hids h p hp
    rw [hlookup resource _ _ hnull] at hentry
    rw [← prune_defaultMask p (hdistinct p hp)] at hdeclared
    obtain ⟨mask, hmask, hprune⟩ := Option.bind_eq_some_iff.mp hdeclared
    rw [topEntry, hmask] at hentry
    change (if _ then _ else _) = _ at hentry
    rw [if_pos ⟨htype, rfl⟩] at hentry
    cases mask with
    | value v hv => cases hentry
    | nilMap => cases hprune
    | map m =>
      rw [← Except.ok.inj hentry]
      exact hprune

/-! ## The second time -/

/-- There are objects in the mask of a property wherever the property has them. -/
inductive ObjectMask : NestedProperty → Datum → Prop
  | mk {p : NestedProperty} {mask : Datum} {maskMap : MapVar} (hmask : mask.asMap = .ok maskMap)
      (hinner : ∀ q ∈ p.properties, q.own.type = "object" → ∀ entry,
        maskMap.get q.own.id = some entry → ObjectMask q entry) : ObjectMask p mask

namespace NestedProperty

theorem fillObjectDefaults_eq {p : NestedProperty} {m m' : List (String × Datum)} {mask : MapVar}
    (h : KeyedUpdate.updateAll (·.own.id) (innerEntry mask) p.properties m = .ok m') :
    p.fillObjectDefaults (some m) mask = .ok (some m') := by
  rw [fillObjectDefaults, fillProperties_some, h]
  rfl

/-- An object that is its own mask. -/
theorem fillEntry_self (p : NestedProperty) : p.own.type = "object" → ∀ mask, ObjectMask p mask →
    p.fillEntry mask (some mask) = .ok (some mask) := by
  induction p using induct with
  | h own properties items ih =>
    rintro htype mask ⟨hmask, hinner⟩
    rename_i maskMap
    have hsame : (mk own properties items).fillObjectDefaults maskMap maskMap = .ok maskMap := by
      cases maskMap with
      | none => exact fillProperties_nilMask properties none
      | some m =>
        refine fillObjectDefaults_eq (KeyedUpdate.updateAll_eq_self fun q hq ↦ ?_)
        cases hentry : MapVar.get (some m) q.own.id with
        | none => exact innerEntry_of_none hentry _
        | some entry =>
          have hread : m.lookup q.own.id = some entry := hentry
          rw [innerEntry_of_some hentry, hread]
          by_cases hqtype : q.own.type = "object"
          · exact ih q hq hqtype entry (hinner q hq hqtype entry hentry)
          · exact fillEntry_of_not_object hqtype entry _
    rw [fillEntry_some htype, hmask]
    show (do let resourceMap ← (mk own properties items).fillObjectDefaults maskMap maskMap; _) = _
    rw [hsame]
    exact congrArg (Except.ok ∘ some) (Datum.ofMap_of_asMap hmask)

/-- **What has been filled in for a property is not filled in again.** -/
theorem fillEntry_fillEntry (p : NestedProperty) : p.DistinctIDs → ∀ mask before after,
    (p.own.type = "object" → ObjectMask p mask) → p.fillEntry mask before = .ok after →
    p.fillEntry mask after = .ok after := by
  induction p using induct with
  | h own properties items ih =>
    rintro ⟨hids, hdistinct⟩ mask before after hobject hfill
    by_cases htype : (mk own properties items).own.type = "object"
    · obtain ⟨hmask, hinner⟩ := hobject htype
      rename_i maskMap
      cases before with
      | none =>
        rw [fillEntry_none htype, hmask] at hfill
        obtain rfl := Except.ok.inj hfill
        cases maskMap with
        | some m => exact fillEntry_self _ htype mask (.mk hmask hinner)
        | none =>
          show fillEntry _ mask none = _
          rw [fillEntry_none htype, hmask]
          rfl
      | some filled =>
        obtain ⟨maskMap', resourceMap, resourceMap', hmask', hfilled, hfillInner, rfl⟩ :=
          of_fillEntry_some htype hfill
        obtain rfl : maskMap = maskMap' := Except.ok.inj (hmask.symm.trans hmask')
        have hagain : (mk own properties items).fillObjectDefaults resourceMap' maskMap =
            .ok resourceMap' := by
          cases resourceMap with
          | none =>
            obtain rfl := fillProperties_none hfillInner
            exact hfillInner
          | some m =>
            obtain ⟨m', rfl, hall⟩ := fillObjectDefaults_some hfillInner
            refine fillObjectDefaults_eq (KeyedUpdate.updateAll_updateAll (innerEntry_keeps maskMap)
              hids (fun q hq b c hentry ↦ ?_) hall)
            cases hget : maskMap.get q.own.id with
            | none => exact innerEntry_of_none hget c
            | some entry =>
              rw [innerEntry_of_some hget] at hentry ⊢
              exact ih q hq (hdistinct q hq) entry b c
                (fun hqtype ↦ hinner q hq hqtype entry hget) hentry
        have hread : (Datum.ofMap resourceMap').asMap = .ok resourceMap' := by
          cases resourceMap' <;> rfl
        rw [fillEntry_some htype, hmask, hread]
        show (do let r ← (mk own properties items).fillObjectDefaults resourceMap' maskMap; _) = _
        rw [hagain]
        rfl
    · rw [fillEntry_of_not_object htype] at hfill ⊢
      obtain rfl := Except.ok.inj hfill
      rfl

/-- What is stored for an object is not null. -/
theorem any_isNull_of_fillEntry {p : NestedProperty} (htype : p.own.type = "object") {mask : Datum}
    {before after : Option Datum} (h : p.fillEntry mask before = .ok after) :
    after.any Datum.isNull = false := by
  cases before with
  | none =>
    rw [fillEntry_none htype] at h
    cases mask with
    | value v hv => cases h
    | nilMap => rw [← Except.ok.inj h]; rfl
    | map m => rw [← Except.ok.inj h]; rfl
  | some filled =>
    obtain ⟨_, _, resourceMap', _, _, _, rfl⟩ := of_fillEntry_some htype h
    cases resourceMap' <;> rfl

theorem topEntry_topEntry {p : NestedProperty} (hdistinct : p.DistinctIDs)
    (hobject : p.own.type = "object" → ∀ mask, p.defaultMask = some mask → ObjectMask p mask)
    {before after : Option Datum} (h : p.topEntry before = .ok after) :
    p.topEntry after = .ok after := by
  rw [topEntry] at h ⊢
  cases hmask : p.defaultMask with
  | none => rfl
  | some mask =>
    rw [hmask] at h
    change (if _ then _ else _) = _ at h
    show (if _ then _ else _) = _
    split at h
    · next hnull =>
      obtain ⟨hmaskMap, -⟩ := hobject hnull.1 mask hmask
      rename_i maskMap
      rw [hmaskMap] at h
      obtain rfl := Except.ok.inj h
      cases maskMap with
      | none => rw [if_pos ⟨hnull.1, rfl⟩, hmaskMap]; rfl
      | some m =>
        obtain rfl := Datum.ofMap_of_asMap hmaskMap
        rw [if_neg fun h ↦ by cases h.2]
        exact fillEntry_self p hnull.1 _ (hobject hnull.1 _ hmask)
    · next hnull =>
      have hsame := fillEntry_fillEntry p hdistinct mask before after
        (fun htype ↦ hobject htype mask hmask) h
      rw [if_neg fun hnull' ↦ by
        rw [any_isNull_of_fillEntry hnull'.1 h] at hnull'
        cases hnull'.2]
      exact hsame

end NestedProperty

/-- The second time nothing is added. -/
theorem populateDefaults_populateDefaults (hids : (properties.map (·.own.id)).Nodup)
    (hdistinct : ∀ p ∈ properties, p.DistinctIDs)
    (hobject : ∀ p ∈ properties, p.own.type = "object" → ∀ mask, p.defaultMask = some mask →
      ObjectMask p mask) (h : populateDefaults properties m = .ok m') :
    populateDefaults properties m' = .ok m' := by
  rw [populateDefaults_eq] at h ⊢
  exact KeyedUpdate.updateAll_updateAll topEntry_keeps hids
    (fun p hp _ _ hentry ↦ topEntry_topEntry (hdistinct p hp) (hobject p hp) hentry) h

/-- **What `PopulateDefaults` does where the way is clear.** -/
theorem populateDefaults_filled (hids : (properties.map (·.own.id)).Nodup)
    (hdistinct : ∀ p ∈ properties, p.DistinctIDs) {resource : List (String × Value)}
    (hclear : Unobstructed properties resource) :
    ∃ result, populateDefaults properties (Datum.ofEntries resource) = .ok result ∧
      Filled properties resource result ∧
      ((∀ p ∈ properties, p.own.type = "object" → ∀ mask, p.defaultMask = some mask →
        ObjectMask p mask) → populateDefaults properties result = .ok result) := by
  obtain ⟨result, h⟩ : ∃ result, populateDefaults properties (Datum.ofEntries resource) =
      .ok result := by
    rw [populateDefaults_eq, KeyedUpdate.updateAll_isOk hids]
    intro p hp
    rw [lookup_ofEntries]
    exact (topEntry_isOk_iff (hdistinct p hp) _).mpr (hclear p hp)
  exact ⟨result, h, filled_of_populateDefaults hids hdistinct h,
    fun hobject ↦ populateDefaults_populateDefaults hids hdistinct hobject h⟩

/-- An object is supplied without anything in it; one of its properties has a default. -/
theorem populateDefaults_filled_mtu :
    let config : NestedProperty := .mk { id := "config", type := "object" }
      [.mk { id := "mtu", type := "integer", default := .int 1500 } [] none] none
    ∃ result, populateDefaults [config] (Datum.ofEntries [("config", .map [])]) = .ok result ∧
      Filled [config] [("config", .map [])] result ∧
      ((∀ p ∈ [config], p.own.type = "object" → ∀ mask, p.defaultMask = some mask →
        ObjectMask p mask) → populateDefaults [config] result = .ok result) := by
  intro config
  have hdistinct : config.DistinctIDs := .mk (by decide) fun q hq ↦ by
    obtain rfl := List.mem_singleton.mp hq
    exact .mk .nil fun r hr ↦ absurd hr List.not_mem_nil
  refine populateDefaults_filled (by decide) (fun p hp ↦ List.mem_singleton.mp hp ▸ hdistinct) ?_
  intro p hp
  obtain rfl := List.mem_singleton.mp hp
  exact (topEntry_isOk_iff hdistinct (some (.map []))).mp ⟨_, rfl⟩

/-- A null that is supplied for an object at the top is replaced by the default. -/
theorem populateDefaults_replaces_null : ¬ ∀ definitions properties resource result,
    Loading.parseProperties [] definitions = .ok properties →
      conformsAll definitions resource = true →
        populateDefaults properties (Datum.ofEntries resource) = .ok result →
          ∀ key v, resource.lookup key = some v → v.map? = none →
            result.lookup key = some (Datum.ofValue v) := by
  intro h
  have hsame := h [("providor_networks", .map [("type", .list [.str "object", .str "null"]),
      ("default", .map [])])]
    [.mk { id := "providor_networks", type := "object", nullable := true, default := .map [] }
      [] none]
    [("providor_networks", .nil)] [("providor_networks", .map [])] (by rfl) (by decide) (by rfl)
    "providor_networks" .nil (by rfl) (by rfl)
  cases hsame

end Gohan
