import Gohan.Logic.KeyedUpdate
import Gohan.Schema.Load
import Mathlib.Logic.Relation

/-!
# Filling in defaults

A property has a default mask: its default, or, for an object without one, a map of the masks of the
properties in it.  `PopulateDefaults` stores the mask of a property that is not supplied, and goes
into an object that is supplied, with what the mask has for it.

The mask of an object without any default in it is a nil map.  A nil map is not nil once it is in
an `interface{}`, so it is an entry of the mask of the object around it, and the way into the object
is open wherever that one is supplied.  At the top level `PopulateDefaults` looks whether what is
supplied is null; inside an object it is taken to be a map, and so is what the mask has for it.

* `isOk_newEntry_iff` — what it takes for the defaults of one property to be filled in.
* `populateDefaults_isOk_iff` — `PopulateDefaults` comes back exactly when it finds objects for all
  the properties that are objects, wherever it gets to.
-/

set_option autoImplicit false

namespace Gohan

/-! ## Values with nil maps -/

/-- What is behind an `interface{}`, where a map may be nil. -/
inductive Datum where
  /-- Anything but a map. -/
  | value (v : Value) (h : v.map? = none)
  | nilMap
  | map (m : List (String × Datum))

/-- A variable of the type `map[string]interface{}`. -/
abbrev MapVar := Option (List (String × Datum))

namespace Datum

mutual
/-- Nothing that is read has a nil map in it. -/
def ofValue : Value → Datum
  | .map m => .map (ofEntries m)
  | .nil => .value .nil rfl
  | .bool b => .value (.bool b) rfl
  | .int n => .value (.int n) rfl
  | .float q => .value (.float q) rfl
  | .str s => .value (.str s) rfl
  | .strs ss => .value (.strs ss) rfl
  | .list vs => .value (.list vs) rfl

/-- The entries of a map that is read. -/
def ofEntries : List (String × Value) → List (String × Datum)
  | [] => []
  | (k, v) :: m => (k, ofValue v) :: ofEntries m
end

/-- A map behind an `interface{}`. -/
def ofMap : MapVar → Datum
  | none => .nilMap
  | some m => .map m

/-- `.(map[string]interface{})`. -/
def asMap : Datum → Go MapVar
  | .value _ _ => .panicf "interface conversion: interface {} is not map[string]interface {}"
  | .nilMap => .ok none
  | .map m => .ok (some m)

/-- The value is null. -/
def isNull : Datum → Bool
  | .value .nil _ => true
  | _ => false

theorem eq_of_isNull {d : Datum} (h : d.isNull = true) : d = .value .nil rfl := by
  unfold isNull at h
  split at h
  · rfl
  · cases h

end Datum

namespace MapVar

/-- Nothing is found in a nil map. -/
def get (m : MapVar) (k : String) : Option Datum := (m.getD []).lookup k

/-- Nothing can be stored in a nil map. -/
def set (m : MapVar) (k : String) (d : Datum) : Go MapVar :=
  match m with
  | none => .panicf "assignment to entry in nil map"
  | some m => .ok (some (KeyedUpdate.put k d m))

end MapVar

/-! ## Masks -/

namespace NestedProperty

mutual
/-- `generateDefaultMask`: the mask of a property. -/
def defaultMask : NestedProperty → Option Datum
  | mk own properties _ =>
    if own.default ≠ .nil then some (.ofValue own.default)
    else if own.type ≠ "object" then none
    else some (.ofMap (defaultMasks properties none))

/-- The loop over the properties of an object: a map is made when there is something to store. -/
def defaultMasks : List NestedProperty → MapVar → MapVar
  | [], defaultMask => defaultMask
  | prop :: properties, defaultMask =>
    match prop.defaultMask with
    | none => defaultMasks properties defaultMask
    | some mask =>
      defaultMasks properties (some (KeyedUpdate.put prop.own.id mask (defaultMask.getD [])))
end

mutual
/-- `fillObjectDefaults`: the loop over the properties of an object. -/
def fillProperties : List NestedProperty → MapVar → MapVar → Go MapVar
  | [], resourceMap, _ => .ok resourceMap
  | innerProperty :: properties, resourceMap, defaultValueMaskMap => do
    let resourceMap ← innerProperty.fillProperty resourceMap defaultValueMaskMap
    fillProperties properties resourceMap defaultValueMaskMap

/-- The body of the loop. -/
def fillProperty : NestedProperty → MapVar → MapVar → Go MapVar
  | mk own properties items, resourceMap, defaultValueMaskMap =>
    match defaultValueMaskMap.get own.id with
    | none => .ok resourceMap
    | some objectMaskInnerProperty =>
      if own.type = "object" then do
        let innerPropertyMaskMap ← objectMaskInnerProperty.asMap
        match resourceMap.get own.id with
        | some resourceFilledProperty => do
          let innerMap ← resourceFilledProperty.asMap
          let innerMap ← fillProperties properties innerMap innerPropertyMaskMap
          -- the inner map has been changed in its place
          resourceMap.set own.id (.ofMap innerMap)
        | none =>
          if innerPropertyMaskMap.isSome ∧ (mk own properties items).defaultMask.isSome then
            resourceMap.set own.id objectMaskInnerProperty
          else .ok resourceMap
      else
        match resourceMap.get own.id with
        | some _ => .ok resourceMap
        | none => resourceMap.set own.id objectMaskInnerProperty
end

/-- `fillObjectDefaults`. -/
def fillObjectDefaults (objectProperty : NestedProperty) (resourceMap mask : MapVar) : Go MapVar :=
  fillProperties objectProperty.properties resourceMap mask

/-- The body of the loop of `PopulateDefaults`. -/
def populateProperty (resource : List (String × Datum)) (property : NestedProperty) :
    Go (List (String × Datum)) :=
  match property.defaultMask with
  | none => .ok resource
  | some defaultValueMask =>
    if property.own.type = "object" then do
      let defaultValueMaskMap ← defaultValueMask.asMap
      match resource.lookup property.own.id with
      | none | some (.value .nil _) =>
        if defaultValueMaskMap.isSome then
          .ok (KeyedUpdate.put property.own.id defaultValueMask resource)
        else .ok resource
      | some resourceProperty => do
        let resourceMap ← resourceProperty.asMap
        let resourceMap ← property.fillObjectDefaults resourceMap defaultValueMaskMap
        .ok (KeyedUpdate.put property.own.id (.ofMap resourceMap) resource)
    else
      match resource.lookup property.own.id with
      | some _ => .ok resource
      | none => .ok (KeyedUpdate.put property.own.id defaultValueMask resource)

end NestedProperty

/-- `PopulateDefaults`, with the properties of the schema. -/
def populateDefaults (properties : List NestedProperty) (resource : List (String × Datum)) :
    Go (List (String × Datum)) :=
  properties.foldlM NestedProperty.populateProperty resource

/-! ## One property -/

namespace NestedProperty

/-- A property of all the properties in a property, and of it. -/
theorem induct {P : NestedProperty → Prop}
    (h : ∀ own properties items, (∀ q ∈ properties, P q) → P (mk own properties items)) :
    ∀ p, P p
  | mk own properties items => h own properties items fun q _ ↦ induct h q
termination_by p => sizeOf p
decreasing_by
  have hlt := List.sizeOf_lt_of_mem ‹q ∈ properties›
  simp only [mk.sizeOf_spec]
  omega

/-- What is stored for a property, if its mask is `mask` and `filled` is there. -/
def fillEntry (p : NestedProperty) (mask : Datum) (filled : Option Datum) : Go (Option Datum) :=
  if p.own.type = "object" then do
    let maskMap ← mask.asMap
    match filled with
    | some filled => do
      let resourceMap ← filled.asMap
      let resourceMap ← p.fillObjectDefaults resourceMap maskMap
      .ok (some (.ofMap resourceMap))
    | none => .ok (if maskMap.isSome then some mask else none)
  else .ok (some (filled.getD mask))

/-- The same for a property of an object with the mask `maskMap`. -/
def innerEntry (maskMap : MapVar) (p : NestedProperty) (filled : Option Datum) :
    Go (Option Datum) :=
  match maskMap.get p.own.id with
  | none => .ok filled
  | some mask => p.fillEntry mask filled

/-- The same for a property of the schema. -/
def topEntry (p : NestedProperty) (filled : Option Datum) : Go (Option Datum) :=
  match p.defaultMask with
  | none => .ok filled
  | some mask =>
    if p.own.type = "object" ∧ filled.any Datum.isNull = true then do
      let maskMap ← mask.asMap
      .ok (some (if maskMap.isSome then mask else .value .nil rfl))
    else p.fillEntry mask filled

theorem isSome_defaultMask {p : NestedProperty} (h : p.own.type = "object") :
    p.defaultMask.isSome = true := by
  obtain ⟨own, properties, items⟩ := p
  rw [defaultMask]
  split
  · rfl
  · rw [if_neg (show ¬ own.type ≠ "object" from not_not.mpr h)]
    rfl

/-! ## The loops -/

variable {p : NestedProperty} {properties : List NestedProperty} {mask maskMap : MapVar}
  {m m' : List (String × Datum)}

theorem get_some (m : List (String × Datum)) (k : String) :
    MapVar.get (some m) k = m.lookup k := rfl

/-- One turn of the loop stores what `innerEntry` says. -/
theorem fillProperty_some (p : NestedProperty) (mask : MapVar) (m : List (String × Datum)) :
    p.fillProperty (some m) mask =
      (KeyedUpdate.update (·.own.id) (innerEntry mask) m p).map some := by
  have hdefault : p.own.type = "object" → p.defaultMask.isSome = true := isSome_defaultMask
  obtain ⟨own, properties, items⟩ := p
  rw [fillProperty, KeyedUpdate.update, innerEntry, get_some]
  show _ = Except.map some (Except.map _ (match mask.get own.id with
    | none => .ok (m.lookup own.id)
    | some mask => (mk own properties items).fillEntry mask (m.lookup own.id)))
  cases mask.get own.id with
  | none => exact congrArg (Except.ok ∘ some) (KeyedUpdate.putIfSome_lookup own.id m).symm
  | some entry =>
    show _ = Except.map some (Except.map _
      ((mk own properties items).fillEntry entry (m.lookup own.id)))
    unfold fillEntry
    by_cases htype : own.type = "object"
    · simp only [show (mk own properties items).own.type = "object" from htype, if_pos htype,
        if_true]
      cases entry.asMap with
      | error e => rfl
      | ok maskMap =>
        cases hfilled : m.lookup own.id with
        | none =>
          simp only [hdefault htype, and_true]
          cases maskMap <;> rfl
        | some filled =>
          show (do let innerMap ← filled.asMap; _) = Except.map some (Except.map _ (do
            let innerMap ← filled.asMap; _))
          cases filled.asMap with
          | error e => rfl
          | ok innerMap =>
            show (do let innerMap ← fillProperties properties innerMap maskMap; _) =
              Except.map some (Except.map _ (do
                let innerMap ← fillProperties properties innerMap maskMap; _))
            cases fillProperties properties innerMap maskMap <;> rfl
    · simp only [show ¬ (mk own properties items).own.type = "object" from htype, if_neg htype,
        if_false]
      cases hfilled : m.lookup own.id with
      | none => rfl
      | some filled => exact congrArg (Except.ok ∘ some) (KeyedUpdate.put_eq_self hfilled).symm

theorem fillProperties_some (properties : List NestedProperty) (mask : MapVar)
    (m : List (String × Datum)) : fillProperties properties (some m) mask =
      (KeyedUpdate.updateAll (·.own.id) (innerEntry mask) properties m).map some := by
  induction properties generalizing m with
  | nil => rw [fillProperties]; rfl
  | cons p properties ih =>
    rw [fillProperties, fillProperty_some, KeyedUpdate.updateAll, List.foldlM_cons]
    cases KeyedUpdate.update (·.own.id) (innerEntry mask) m p with
    | error e => rfl
    | ok m₁ => exact ih m₁

/-- Nothing comes of a nil mask. -/
theorem fillProperties_nilMask (properties : List NestedProperty) (m : MapVar) :
    fillProperties properties m none = .ok m := by
  induction properties with
  | nil => rw [fillProperties]
  | cons p properties ih =>
    have hfirst : p.fillProperty m none = .ok m := by
      obtain ⟨own, properties, items⟩ := p
      rw [fillProperty]
      rfl
    rw [fillProperties, hfirst]
    exact ih

/-- One turn of the loop of `PopulateDefaults` stores what `topEntry` says. -/
theorem populateProperty_eq (m : List (String × Datum)) (p : NestedProperty) :
    populateProperty m p = KeyedUpdate.update (·.own.id) topEntry m p := by
  rw [populateProperty, KeyedUpdate.update, topEntry]
  cases p.defaultMask with
  | none => exact congrArg Except.ok (KeyedUpdate.putIfSome_lookup p.own.id m).symm
  | some mask =>
    by_cases htype : p.own.type = "object"
    · simp only [htype, if_true, true_and]
      cases hfilled : m.lookup p.own.id with
      | none =>
        simp only [Option.any_none, Bool.false_eq_true, if_false, fillEntry, htype, if_true]
        cases mask.asMap with
        | error e => rfl
        | ok maskMap => cases maskMap <;> rfl
      | some filled =>
        by_cases hnull : filled.isNull = true
        · obtain rfl := Datum.eq_of_isNull hnull
          simp only [Option.any_some, hnull, if_true]
          cases mask.asMap with
          | error e => rfl
          | ok maskMap =>
            cases maskMap with
            | none => exact congrArg Except.ok (KeyedUpdate.put_eq_self hfilled).symm
            | some maskMap => rfl
        · simp only [Option.any_some, hnull, fillEntry, htype, if_true]
          cases mask.asMap with
          | error e => rfl
          | ok maskMap =>
            cases filled with
            | value v _ => cases v <;> first | exact absurd rfl hnull | rfl
            | nilMap =>
              simp only [Datum.asMap, bind, Except.bind]
              cases p.fillObjectDefaults none maskMap <;> rfl
            | map inner =>
              simp only [Datum.asMap, bind, Except.bind]
              cases p.fillObjectDefaults (some inner) maskMap <;> rfl
    · simp only [htype, if_false, false_and, fillEntry]
      cases hfilled : m.lookup p.own.id with
      | none => rfl
      | some filled => exact congrArg Except.ok (KeyedUpdate.put_eq_self hfilled).symm

end NestedProperty

theorem populateDefaults_eq (properties : List NestedProperty) (m : List (String × Datum)) :
    populateDefaults properties m =
      KeyedUpdate.updateAll (·.own.id) NestedProperty.topEntry properties m := by
  rw [populateDefaults, KeyedUpdate.updateAll]
  exact congrArg (List.foldlM · m properties)
    (funext fun m ↦ funext fun p ↦ NestedProperty.populateProperty_eq m p)

/-! ## Where `PopulateDefaults` gets to -/

/-- A property, what is supplied for it, and its mask. -/
structure Spot where
  property : NestedProperty
  supplied : Option Value
  mask : Datum

namespace Spot

/-- From a property that is supplied `PopulateDefaults` goes on to the objects in it that its mask
has something for. -/
inductive Inside : Spot → Spot → Prop
  | mk {p q : NestedProperty} {data : List (String × Value)} {mask entry : Datum}
      {maskMap : MapVar} (hmask : mask.asMap = .ok maskMap) (hq : q ∈ p.properties)
      (htype : q.own.type = "object") (hentry : maskMap.get q.own.id = some entry) :
      Inside ⟨p, some (.map data), mask⟩ ⟨q, data.lookup q.own.id, entry⟩

/-- The mask is a map, and so is what is supplied, if anything is. -/
def HasObjects (s : Spot) : Prop :=
  s.mask.asMap.isOk = true ∧ ∀ v, s.supplied = some v → v.map?.isSome = true

/-- There are objects wherever `PopulateDefaults` gets to from here. -/
def Clear (s : Spot) : Prop := ∀ t, Relation.ReflTransGen Inside s t → t.HasObjects

theorem clear_iff {s : Spot} : s.Clear ↔ s.HasObjects ∧ ∀ t, Inside s t → t.Clear := by
  constructor
  · exact fun h ↦ ⟨h s .refl, fun t hst u htu ↦ h u (.head hst htu)⟩
  · rintro ⟨hhere, hinside⟩ u hsu
    rcases hsu.cases_head with rfl | ⟨t, hst, htu⟩
    · exact hhere
    · exact hinside t hst u htu

end Spot

/-- The identifiers of the properties of an object are distinct, being the keys of a map. -/
inductive NestedProperty.DistinctIDs : NestedProperty → Prop
  | mk {own : Property} {properties : List NestedProperty} {items : Option NestedProperty}
      (hids : (properties.map (·.own.id)).Nodup) (hinner : ∀ q ∈ properties, q.DistinctIDs) :
      DistinctIDs (.mk own properties items)

/-- There are objects for the properties that are objects, wherever `PopulateDefaults` gets to.  At
the top level, null counts as not supplied. -/
def Unobstructed (properties : List NestedProperty) (resource : List (String × Value)) : Prop :=
  ∀ p ∈ properties, p.own.type = "object" → ∀ mask, p.defaultMask = some mask →
    Spot.Clear ⟨p, (resource.lookup p.own.id).filter (· ≠ .nil), mask⟩

namespace NestedProperty

theorem lookup_ofEntries (m : List (String × Value)) (k : String) :
    (Datum.ofEntries m).lookup k = (m.lookup k).map Datum.ofValue := by
  induction m with
  | nil => rfl
  | cons e m ih =>
    obtain ⟨l, v⟩ := e
    rw [Datum.ofEntries, List.lookup_cons, List.lookup_cons, ih]
    split <;> rfl

theorem asMap_ofValue_of_not_map {v : Value} (h : v.map? = none) :
    ∃ e, (Datum.ofValue v).asMap = .error e := by
  cases v <;> first | exact ⟨_, rfl⟩ | cases h

theorem eq_map_of_map? {v : Value} {data : List (String × Value)} (h : v.map? = some data) :
    v = .map data := by
  cases v <;> first | cases h; rfl | cases h

theorem fillEntry_of_not_object {p : NestedProperty} (h : p.own.type ≠ "object") (mask : Datum)
    (filled : Option Datum) : p.fillEntry mask filled = .ok (some (filled.getD mask)) := by
  rw [fillEntry, if_neg h]

theorem fillEntry_none {p : NestedProperty} (h : p.own.type = "object") (mask : Datum) :
    p.fillEntry mask none = mask.asMap.map fun maskMap ↦
      if maskMap.isSome then some mask else none := by
  rw [fillEntry, if_pos h]
  cases mask.asMap <;> rfl

theorem fillEntry_some {p : NestedProperty} (h : p.own.type = "object") (mask filled : Datum) :
    p.fillEntry mask (some filled) = (do
      let maskMap ← mask.asMap
      let resourceMap ← filled.asMap
      let resourceMap ← p.fillObjectDefaults resourceMap maskMap
      .ok (some (.ofMap resourceMap))) := by
  rw [fillEntry, if_pos h]

theorem innerEntry_of_none {mask : MapVar} {q : NestedProperty} (h : mask.get q.own.id = none)
    (filled : Option Datum) : innerEntry mask q filled = .ok filled := by
  rw [innerEntry, h]

theorem innerEntry_of_some {mask : MapVar} {q : NestedProperty} {entry : Datum}
    (h : mask.get q.own.id = some entry) (filled : Option Datum) :
    innerEntry mask q filled = q.fillEntry entry filled := by
  rw [innerEntry, h]

/-- What is supplied has been filled in if this has been done for each property in it. -/
theorem fillObjectDefaults_isOk_iff {p : NestedProperty} (h : (p.properties.map (·.own.id)).Nodup)
    (data : List (String × Datum)) (mask : MapVar) :
    (∃ r, p.fillObjectDefaults (some data) mask = .ok r) ↔
      ∀ q ∈ p.properties, ∃ d, innerEntry mask q (data.lookup q.own.id) = .ok d := by
  rw [← KeyedUpdate.updateAll_isOk h, fillObjectDefaults, fillProperties_some]
  cases KeyedUpdate.updateAll (·.own.id) (innerEntry mask) p.properties data with
  | error e => simp [Except.map]
  | ok m => simp [Except.map]

/-- **The defaults of one property are filled in exactly when the way is clear.** -/
theorem fillEntry_isOk_iff (p : NestedProperty) : p.DistinctIDs → p.own.type = "object" →
    ∀ (supplied : Option Value) (mask : Datum),
    ((∃ d, p.fillEntry mask (supplied.map .ofValue) = .ok d) ↔ Spot.Clear ⟨p, supplied, mask⟩) := by
  induction p using induct with
  | h own properties items ih =>
    rintro ⟨hids, hinner⟩ htype supplied mask
    rw [Spot.clear_iff]
    cases hmask : mask.asMap with
    | error e =>
      refine iff_of_false ?_ fun hclear ↦ ?_
      · rintro ⟨d, hd⟩
        cases supplied with
        | none =>
          rw [Option.map_none, fillEntry_none htype, hmask] at hd
          cases hd
        | some v =>
          rw [Option.map_some, fillEntry_some htype, hmask] at hd
          cases hd
      · have hok : mask.asMap.isOk = true := hclear.1.1
        rw [hmask] at hok
        cases hok
    | ok maskMap =>
      have hok : mask.asMap.isOk = true := by rw [hmask]; rfl
      cases supplied with
      | none =>
        refine iff_of_true ⟨_, by rw [Option.map_none, fillEntry_none htype, hmask]; rfl⟩ ?_
        exact ⟨⟨hok, fun v hv ↦ by cases hv⟩, fun t hst ↦ by cases hst⟩
      | some v =>
        rw [Option.map_some, fillEntry_some htype, hmask]
        cases hv : v.map? with
        | none =>
          obtain ⟨e, he⟩ := asMap_ofValue_of_not_map hv
          refine iff_of_false ?_ fun hclear ↦ ?_
          · rintro ⟨d, hd⟩
            rw [he] at hd
            cases hd
          · have hmap := hclear.1.2 v rfl
            rw [hv] at hmap
            cases hmap
        | some data =>
          obtain rfl := eq_map_of_map? hv
          have hfill := fillObjectDefaults_isOk_iff (p := mk own properties items) hids
            (Datum.ofEntries data) maskMap
          have hentries : (∃ d, (do
              let resourceMap ← (mk own properties items).fillObjectDefaults
                (some (Datum.ofEntries data)) maskMap
              .ok (some (Datum.ofMap resourceMap))) = (.ok d : Go (Option Datum))) ↔
              ∃ r, (mk own properties items).fillObjectDefaults
                (some (Datum.ofEntries data)) maskMap = .ok r := by
            cases (mk own properties items).fillObjectDefaults (some (Datum.ofEntries data)) maskMap
              <;> simp [bind, Except.bind]
          refine (hentries.trans hfill).trans ?_
          constructor
          · intro hall
            refine ⟨⟨hok, fun v hv ↦ by cases hv; rfl⟩, fun t hst ↦ ?_⟩
            cases hst with
            | @mk _ q _ _ entry _ hmask' hq hqtype hentry =>
              obtain rfl : maskMap = _ := Except.ok.inj (hmask.symm.trans hmask')
              obtain ⟨d, hd⟩ := hall q hq
              rw [innerEntry_of_some hentry, lookup_ofEntries] at hd
              exact (ih q hq (hinner q hq) hqtype _ entry).mp ⟨d, hd⟩
          · rintro ⟨-, hinside⟩ q hq
            cases hentry : maskMap.get q.own.id with
            | none => exact ⟨_, innerEntry_of_none hentry _⟩
            | some entry =>
              rw [innerEntry_of_some hentry]
              by_cases hqtype : q.own.type = "object"
              · rw [lookup_ofEntries]
                exact (ih q hq (hinner q hq) hqtype _ entry).mpr
                  (hinside _ (.mk hmask hq hqtype hentry))
              · exact ⟨_, fillEntry_of_not_object hqtype entry _⟩

/-- The same for a property of the schema, where null counts as not supplied. -/
theorem topEntry_isOk_iff {p : NestedProperty} (hdistinct : p.DistinctIDs)
    (supplied : Option Value) : (∃ d, p.topEntry (supplied.map .ofValue) = .ok d) ↔
      (p.own.type = "object" → ∀ mask, p.defaultMask = some mask →
        Spot.Clear ⟨p, supplied.filter (· ≠ .nil), mask⟩) := by
  rw [topEntry]
  cases hmask : p.defaultMask with
  | none => exact iff_of_true ⟨_, rfl⟩ fun _ mask hnone ↦ by cases hnone
  | some mask =>
    by_cases htype : p.own.type = "object"
    · simp only [htype, true_and, forall_true_left, Option.some.injEq, forall_eq']
      by_cases hnull : supplied = some .nil
      · subst hnull
        have hfilter : (some Value.nil).filter (· ≠ .nil) = none := rfl
        rw [hfilter, ← fillEntry_isOk_iff p hdistinct htype, Option.map_none, fillEntry_none htype]
        rw [if_pos (show ((some Value.nil).map Datum.ofValue).any Datum.isNull = true from rfl)]
        cases mask.asMap with
        | error e => simp [bind, Except.bind, Except.map]
        | ok maskMap => simp [bind, Except.bind, Except.map]
      · have hfilter : supplied.filter (· ≠ .nil) = supplied := by
          cases supplied with
          | none => rfl
          | some v => exact Option.filter_some_pos (by simpa using hnull)
        have hany : (supplied.map Datum.ofValue).any Datum.isNull = false := by
          cases supplied with
          | none => rfl
          | some v => cases v <;> first | rfl | exact absurd rfl hnull
        rw [hfilter, hany, ← fillEntry_isOk_iff p hdistinct htype]
        simp
    · refine iff_of_true ⟨some ((supplied.map .ofValue).getD mask), ?_⟩ fun h ↦ absurd h htype
      show (if _ then _ else _) = _
      rw [if_neg fun h ↦ htype h.1, fillEntry_of_not_object htype]

end NestedProperty

/-- **`PopulateDefaults` comes back with a result, and does not panic, exactly when there are
objects wherever it gets to.** -/
theorem populateDefaults_isOk_iff {properties : List NestedProperty}
    (hids : (properties.map (·.own.id)).Nodup) (hdistinct : ∀ p ∈ properties, p.DistinctIDs)
    (resource : List (String × Value)) :
    (∃ result, populateDefaults properties (Datum.ofEntries resource) = .ok result) ↔
      Unobstructed properties resource := by
  rw [populateDefaults_eq, KeyedUpdate.updateAll_isOk hids]
  refine forall₂_congr fun p hp ↦ ?_
  rw [NestedProperty.lookup_ofEntries]
  exact NestedProperty.topEntry_isOk_iff (hdistinct p hp) _

/-- Nothing is supplied inside `config`, of which one property has a default and one has none. -/
theorem populateDefaults_isOk_vlans :
    let config : NestedProperty := .mk { id := "config", type := "object" } [
      .mk { id := "mtu", type := "integer", default := .int 1500 } [] none,
      .mk { id := "vlan", type := "object" } [] none] none
    (∃ result, populateDefaults [config] (Datum.ofEntries [("config", .map [])]) = .ok result) ↔
      Unobstructed [config] [("config", .map [])] :=
  populateDefaults_isOk_iff (by decide) (by
    intro p hp
    obtain rfl := List.mem_singleton.mp hp
    refine .mk (by decide) fun q hq ↦ ?_
    rcases List.mem_cons.mp hq with rfl | hq
    · exact .mk .nil fun r hr ↦ absurd hr List.not_mem_nil
    · obtain rfl := List.mem_singleton.mp hq
      exact .mk .nil fun r hr ↦ absurd hr List.not_mem_nil) _

/-! ## Resources that are valid for a schema -/

/-- The types of a JSON schema that a value is of. -/
def Value.hasType : Value → String → Bool
  | .nil, name => name == "null"
  | .bool _, name => name == "boolean"
  | .int _, name => name == "integer" || name == "number"
  | .float q, name => name == "number" || (name == "integer" && q.den == 1)
  | .str _, name => name == "string"
  | .strs _, name => name == "array"
  | .list _, name => name == "array"
  | .map _, name => name == "object"

/-- The types that the definition of a property lists. -/
def declaredTypes (typeData : List (String × Value)) : List String :=
  match typeData.lookup "type" with
  | some (.str name) => [name]
  | some (.list names) => names.filterMap Value.string?
  | _ => []

mutual
/-- A value is of one of the types that its definition lists, and so is what it is made of. -/
def conforms : Value → Value → Bool
  | .map typeData, v =>
    (declaredTypes typeData).any v.hasType && conformsInside typeData v
  | _, _ => false

/-- `conforms` for what a value is made of: the properties of an object, the items of an array. -/
def conformsInside : List (String × Value) → Value → Bool
  | [], _ => true
  | (key, definition) :: typeData, v =>
    (match key, definition, v with
      | "properties", .map definitions, .map data => conformsAll definitions data
      | "items", items, .list vs => vs.all (conforms items)
      | _, _, _ => true) && conformsInside typeData v

/-- What is there of some properties is as their definitions say. -/
def conformsAll : List (String × Value) → List (String × Value) → Bool
  | [], _ => true
  | (id, definition) :: definitions, data =>
    (data.lookup id).all (conforms definition) && conformsAll definitions data
end

/-- An object in an object, which may be null and is. -/
theorem populateDefaults_panics : ¬ ∀ definitions properties resource,
    Loading.parseProperties [] definitions = .ok properties →
      conformsAll definitions resource = true →
        ∃ result, populateDefaults properties (Datum.ofEntries resource) = .ok result := by
  intro h
  have hpanics := h [("config", .map [("type", .str "object"), ("properties", .map
    [("vlan", .map [("type", .list [.str "object", .str "null"])])])])]
    [.mk { id := "config", type := "object", nullable := true } [
      .mk { id := "vlan", type := "object", nullable := true } [] none] none]
    [("config", .map [("vlan", .nil)])] (by rfl) (by decide)
  obtain ⟨result, hresult⟩ := hpanics
  cases hresult

end Gohan
