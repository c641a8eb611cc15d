import Gohan.Extension.RoundTrip

/-!
# A map in a structure and back

`resourceFromMap` followed by `ResourceToMap`, the other way round than a round trip of a structure.
What comes back has the same keys and values when it is the same JSON: an integer may become an
`int` that was a `float64`, and a `[]map[string]interface{}` may come out of a `[]interface{}`.

`comesBack_iff` says which maps come back (`Intact`).  A wrapper remembers whether it was in the
map, but a plain field does not, so it must be there, and with a value of its kind; a pointer and a
slice may be left out, but they must not be null.  Nothing else may be in the map.
-/

set_option autoImplicit false

namespace Gohan.Goplugin

open Sync

/-! ## The same JSON -/

namespace Iface

/-- A number, of any type. -/
def number : Iface → Option ℚ
  | .int n => some n
  | .float q => some q
  | _ => none

/-- A map behind an `interface{}`; one that is nil is `null` in JSON. -/
def ofMap : Option Entries → Iface
  | none => .nil
  | some m => .map m

/-- The elements of a slice, of any type. -/
def elems : Iface → Option (List Iface)
  | .list vs => some vs
  | .maps ms => some (ms.map ofMap)
  | _ => none

/-- **Two values are the same JSON.** -/
inductive SameJson : Iface → Iface → Prop
  | nil : SameJson .nil .nil
  | bool (b : Bool) : SameJson (.bool b) (.bool b)
  | str (s : String) : SameJson (.str s) (.str s)
  | number {v w : Iface} {q : ℚ} (hv : v.number = some q) (hw : w.number = some q) : SameJson v w
  | slice {v w : Iface} {vs ws : List Iface} (hv : v.elems = some vs) (hw : w.elems = some ws)
      (h : List.Forall₂ SameJson vs ws) : SameJson v w
  | map {m m' : Entries} (h : ∀ name, Option.Rel SameJson (m.lookup name) (m'.lookup name)) :
      SameJson (.map m) (.map m')

/-- Two maps have the same keys, with the same values in JSON. -/
def SameEntries (m m' : Entries) : Prop :=
  ∀ name, Option.Rel SameJson (m.lookup name) (m'.lookup name)

@[simp] theorem sameJson_nil {v : Iface} : SameJson .nil v ↔ v = .nil := by
  constructor
  · intro h
    cases h with
    | nil => rfl
    | number hv | slice hv => cases hv
  · rintro rfl
    exact .nil

@[simp] theorem sameJson_bool {b : Bool} {v : Iface} : SameJson (.bool b) v ↔ v = .bool b := by
  constructor
  · intro h
    cases h with
    | bool => rfl
    | number hv | slice hv => cases hv
  · rintro rfl
    exact .bool b

@[simp] theorem sameJson_str {s : String} {v : Iface} : SameJson (.str s) v ↔ v = .str s := by
  constructor
  · intro h
    cases h with
    | str => rfl
    | number hv | slice hv => cases hv
  · rintro rfl
    exact .str s

@[simp] theorem sameJson_int {n : ℤ} {v : Iface} :
    SameJson (.int n) v ↔ v.number = some (n : ℚ) := by
  constructor
  · intro h
    cases h with
    | number hv hw => exact hw.trans hv.symm
    | slice hv => cases hv
  · exact .number rfl

@[simp] theorem sameJson_float {q : ℚ} {v : Iface} :
    SameJson (.float q) v ↔ v.number = some q := by
  constructor
  · intro h
    cases h with
    | number hv hw => exact hw.trans hv.symm
    | slice hv => cases hv
  · exact .number rfl

theorem sameJson_map {m : Entries} {v : Iface} :
    SameJson (.map m) v ↔ ∃ m', v = .map m' ∧ SameEntries m m' := by
  constructor
  · intro h
    cases h with
    | map h => exact ⟨_, rfl, h⟩
    | number hv | slice hv => cases hv
  · rintro ⟨m', rfl, h⟩
    exact .map h

theorem sameJson_map_map {m m' : Entries} : SameJson (.map m) (.map m') ↔ SameEntries m m' := by
  rw [sameJson_map]
  simp only [map.injEq, exists_eq_left']

theorem sameJson_of_elems {v w : Iface} {vs : List Iface} (hv : v.elems = some vs) :
    SameJson v w ↔ ∃ ws, w.elems = some ws ∧ List.Forall₂ SameJson vs ws := by
  constructor
  · intro h
    cases h with
    | slice hv' hw h =>
      obtain rfl := Option.some.inj (hv.symm.trans hv')
      exact ⟨_, hw, h⟩
    | number hn =>
      cases v with
      | list | maps => cases hn
      | nil | bool | int | float | str | map => cases hv
    | nil | bool | str | map => cases hv
  · rintro ⟨ws, hw, h⟩
    exact .slice hv hw h

mutual
theorem SameJson.refl : (v : Iface) → SameJson v v
  | .nil => .nil
  | .bool b => .bool b
  | .int _ => .number rfl rfl
  | .float _ => .number rfl rfl
  | .str s => .str s
  | .list vs => .slice rfl rfl (sameJson_list vs)
  | .maps ms => .slice rfl rfl (sameJson_maps ms)
  | .map m => .map (SameEntries.refl m)

theorem sameJson_list : (vs : List Iface) → List.Forall₂ SameJson vs vs
  | [] => .nil
  | v :: vs => .cons (SameJson.refl v) (sameJson_list vs)

theorem sameJson_maps : (ms : List (Option (List (String × Iface)))) →
    List.Forall₂ SameJson (ms.map ofMap) (ms.map ofMap)
  | [] => .nil
  | none :: ms => .cons .nil (sameJson_maps ms)
  | some m :: ms => .cons (.map (SameEntries.refl m)) (sameJson_maps ms)

theorem SameEntries.refl : (m : List (String × Iface)) → SameEntries m m
  | [] => fun _ ↦ .none
  | (key, v) :: m => fun name ↦ by
    rw [List.lookup_cons]
    cases name == key with
    | true => exact .some (SameJson.refl v)
    | false => exact SameEntries.refl m name
end

theorem sameJson_iface (kind : Kind) (v : kind.Val) : SameJson (kind.iface v) (kind.iface v) := by
  cases kind with
  | string => exact .str v
  | int | float => exact .number rfl rfl
  | bool => exact .bool v

end Iface

open Iface

/-! ## What comes back -/

section Intact

variable [FloatConversion]

/-- A value that a field has as it is: a number for an integer must be an `int64`. -/
def Kind.Fits : Kind → Iface → Prop
  | .string, .str _ => True
  | .int, .int _ => True
  | .int, .float q => q = int64OfFloat q
  | .float, .float _ => True
  | .bool, .bool _ => True
  | _, _ => False

mutual
/-- What a map has under the name of a field comes back. -/
def FieldType.Intact : FieldType → String → Option Iface → Prop
  | .plain kind, name, mapValue =>
    ∃ v, mapValue = some v ∧ kind.Fits v ∧ (name = "id" → v ≠ .str "")
  | .maybe kind, _, mapValue => ∀ v, mapValue = some v → v = .nil ∨ kind.Fits v
  | .ptr _, _, none => True
  | .ptr type, _, some (.map m) => type.Intact m
  | .ptr _, _, some _ => False
  | .maybeStruct _, _, none => True
  | .maybeStruct _, _, some .nil => True
  | .maybeStruct type, _, some (.map m) => type.Intact m
  | .maybeStruct _, _, some _ => False
  | .slice _, _, none => True
  | .slice elem, _, some (.maps ms) => ∀ m ∈ ms, elem.IntactMap m
  | .slice elem, _, some (.list vs) => ∀ v ∈ vs, elem.IntactInterface v
  | .slice _, _, some _ => False

/-- An element of a `[]map[string]interface{}` comes back. -/
def FieldType.IntactMap : FieldType → Option Entries → Prop
  | .ptr _, none => True
  | .ptr type, some m => type.Intact m
  | .maybeStruct type, some m => type.Intact m
  | .maybeStruct _, none => False
  | .maybe _, _ => False
  | .slice _, _ => False
  | .plain _, _ => False

/-- An element of a `[]interface{}` comes back. -/
def FieldType.IntactInterface : FieldType → Iface → Prop
  | .plain kind, v => ∃ w, v = kind.iface w
  | .ptr type, .map m => type.Intact m
  | .ptr _, _ => False
  | .maybeStruct _, _ => False
  | .maybe _, _ => False
  | .slice _, _ => False

/-- **A map comes back**: each field does, and there is nothing in the map besides the fields. -/
def StructType.Intact : StructType → Entries → Prop
  | .nil, m => m = []
  | .cons name field rest, m =>
    (if known name then field.Intact name (m.lookup name) else m.lookup name = none) ∧
      rest.Intact (m.filter (·.1 != name))
end

variable (newUUID : List String → String)

/-- **A map in a structure and back**: a structure is made of a map, and a map of the structure,
which is the same JSON. -/
def StructType.ComesBack (type : StructType) (place : List String) (m : Entries) : Prop :=
  ∃ r, type.fromMap m = .ok r ∧
    ∃ m' w, type.toMap newUUID place r = .ok (m', w) ∧ SameEntries m' m

/-- What the map has for a field comes back from the structure. -/
def FieldType.ComesBack (field : FieldType) (name : String) (place : List String)
    (mapValue : Option Iface) : Prop :=
  ∃ r, field.fromMap name mapValue = .ok r ∧
    ∃ entry w, field.toMap newUUID name place r = .ok (entry, w) ∧
      Option.Rel SameJson entry mapValue

/-- An element of a slice comes back from a `[]map[string]interface{}`. -/
def FieldType.MapComesBack (elem : FieldType) (place : List String) (m : Option Entries) : Prop :=
  ∃ r, elem.fromMaps m = .ok r ∧
    ∃ m' w, elem.toMaps newUUID place r = .ok (m', w) ∧ SameJson (ofMap m') (ofMap m)

/-- An element of a slice comes back from a `[]interface{}`. -/
def FieldType.InterfaceComesBack (elem : FieldType) (place : List String) (v : Iface) : Prop :=
  ∃ r, elem.fromInterface v = .ok r ∧
    ∃ m w, elem.toMaps newUUID place r = .ok (m, w) ∧ SameJson (ofMap m) v

end Intact

/-! ## Plain fields and wrappers -/

section Fields

/-- Nothing comes of a panic. -/
theorem not_exists_panicf {α : Type} {format : String} {args : List Value} {p : α → Prop} :
    ¬ ∃ r, Go.panicf format args = .ok r ∧ p r := by
  rintro ⟨r, hr, -⟩
  exact Go.panicf_ne_ok format args r hr

theorem not_exists_setUnfit {α : Type} {v : Iface} {target : String} {p : α → Prop} :
    ¬ ∃ r, setUnfit v target = .ok r ∧ p r := by
  cases v with
  | nil | bool | int | float | str | list | maps | map => exact not_exists_panicf

variable [FloatConversion] {newUUID : List String → String} {place : List String} {name : String}

/-- A field of which it is known what it gets and what is made of it. -/
theorem FieldType.comesBack_of_eq_ok {field : FieldType} {mapValue entry : Option Iface}
    {r w : field.Val} (hfrom : field.fromMap name mapValue = .ok r)
    (hto : field.toMap newUUID name place r = .ok (entry, w)) :
    field.ComesBack newUUID name place mapValue ↔ Option.Rel SameJson entry mapValue := by
  constructor
  · rintro ⟨r', hfrom', entry', w', hto', hsame⟩
    obtain rfl := Except.ok.inj (hfrom.symm.trans hfrom')
    obtain ⟨rfl, -⟩ := Prod.mk.inj (Except.ok.inj (hto.symm.trans hto'))
    exact hsame
  · intro hsame
    exact ⟨r, hfrom, entry, w, hto, hsame⟩

/-- A plain field that is no identifier gets a value that fits. -/
theorem Kind.assign_iff (kind : Kind) (v : Iface) (name : String) :
    (∃ r, assignMapValueToField kind v name = .ok r ∧ SameJson (kind.iface r) v) ↔
      kind.Fits v := by
  cases kind <;> cases v <;>
    simp [assignMapValueToField, Kind.Fits, Kind.iface, Iface.number]

/-- So does a wrapper, if the value is not null. -/
theorem Kind.setMaybe_iff (kind : Kind) {v : Iface} (hv : v ≠ .nil) :
    (∃ r, setPrimitiveMaybe kind v = .ok r ∧
      Option.Rel SameJson (primitiveMaybeToMap kind r) (some v)) ↔ kind.Fits v := by
  cases kind <;> cases v <;>
    simp [setPrimitiveMaybe, typeAssertion, primitiveMaybeToMap, Kind.Fits, Kind.iface,
      Iface.number] at hv ⊢

theorem FieldType.comesBack_string (hid : ∀ place, newUUID place ≠ "") (v : Iface) :
    (FieldType.plain .string).ComesBack newUUID name place (some v) ↔
      Kind.string.Fits v ∧ (name = "id" → v ≠ .str "") := by
  cases v with
  | str s =>
    obtain ⟨s', hto, hs, -⟩ := toMap_string hid name place s
    rw [comesBack_of_eq_ok rfl hto, Option.rel_some_some, sameJson_str, Iface.str.injEq, eq_comm,
      hs]
    simp [Kind.Fits]
  | nil =>
    obtain ⟨s', hto, -⟩ := toMap_string hid name place ""
    rw [comesBack_of_eq_ok rfl hto]
    simp [Kind.Fits]
  | bool | int | float | list | maps | map =>
    refine iff_of_false ?_ fun h ↦ h.1
    rintro ⟨r, hr, -⟩
    exact Go.errorf_ne_ok _ _ _ hr

omit [FloatConversion] in
theorem FieldType.toMap_plain_of_ne {kind : Kind} (hkind : kind ≠ .string) (v : kind.Val) :
    (FieldType.plain kind).toMap newUUID name place v = .ok (some (kind.iface v), v) := by
  cases kind with
  | string => exact (hkind rfl).elim
  | int | float | bool => rfl

theorem FieldType.comesBack_plain_of_ne {kind : Kind} (hkind : kind ≠ .string) (v : Iface) :
    (FieldType.plain kind).ComesBack newUUID name place (some v) ↔
      kind.Fits v ∧ (name = "id" → v ≠ .str "") := by
  have hstr (h : kind.Fits v) : v ≠ .str "" := by
    rintro rfl
    cases kind with
    | string => exact hkind rfl
    | int | float | bool => exact h
  rw [and_iff_left_of_imp fun h _ ↦ hstr h, ← Kind.assign_iff kind v name]
  constructor
  · rintro ⟨r, hr, entry, w, hto, hsame⟩
    rw [toMap_plain_of_ne hkind] at hto
    obtain ⟨rfl, -⟩ := Prod.mk.inj (Except.ok.inj hto)
    exact ⟨r, hr, Option.rel_some_some.mp hsame⟩
  · rintro ⟨r, hr, hsame⟩
    exact ⟨r, hr, _, r, toMap_plain_of_ne hkind r, .some hsame⟩

theorem FieldType.comesBack_plain (hid : ∀ place, newUUID place ≠ "") (kind : Kind)
    (mapValue : Option Iface) :
    (FieldType.plain kind).ComesBack newUUID name place mapValue ↔
      (FieldType.plain kind).Intact name mapValue := by
  rw [Intact]
  cases mapValue with
  | none =>
    refine iff_of_false ?_ nofun
    rintro ⟨r, -, entry, w, hto, hsame⟩
    cases hsame
    cases kind with
    | string =>
      obtain ⟨s', hto', -⟩ := toMap_string hid name place r
      cases hto.symm.trans hto'
    | int | float | bool => cases hto
  | some v =>
    simp only [Option.some.injEq, exists_eq_left']
    cases kind with
    | string => exact comesBack_string hid v
    | int | float | bool => exact comesBack_plain_of_ne (by decide) v

theorem FieldType.comesBack_maybe (kind : Kind) (mapValue : Option Iface) :
    (FieldType.maybe kind).ComesBack newUUID name place mapValue ↔
      (FieldType.maybe kind).Intact name mapValue := by
  rw [Intact]
  cases mapValue with
  | none =>
    rw [comesBack_of_eq_ok rfl rfl]
    exact iff_of_true .none nofun
  | some v =>
    simp only [Option.some.injEq, forall_eq']
    by_cases hv : v = .nil
    · obtain rfl := hv
      rw [comesBack_of_eq_ok rfl rfl]
      exact iff_of_true (.some .nil) (.inl rfl)
    · rw [or_iff_right hv, ← Kind.setMaybe_iff kind hv]
      have hset : (FieldType.maybe kind).fromMap name (some v) = setPrimitiveMaybe kind v := by
        cases v with
        | nil => exact (hv rfl).elim
        | bool | int | float | str | list | maps | map => rfl
      constructor
      · rintro ⟨r, hr, entry, w, hto, hsame⟩
        obtain ⟨rfl, -⟩ := Prod.mk.inj (Except.ok.inj hto)
        exact ⟨r, hset ▸ hr, hsame⟩
      · rintro ⟨r, hr, hsame⟩
        exact ⟨r, hset.trans hr, _, r, rfl, hsame⟩

end Fields

/-! ## Slices -/

section Slices

/-- Every element of a slice comes back, wherever it stands. -/
theorem eachElem_back_iff {α β γ : Type} {write : List String → α → Go (β × α)} {back : γ → Go α}
    {same : β → γ → Prop} {P : γ → Prop}
    (h : ∀ place c,
      (∃ r, back c = .ok r ∧ ∃ b w, write place r = .ok (b, w) ∧ same b c) ↔ P c)
    (place : List String) (i : ℕ) {cs : List γ} :
    (∃ rs, cs.mapM back = .ok rs ∧
      ∃ bs ws, eachElem write place i rs = .ok (bs, ws) ∧ List.Forall₂ same bs cs) ↔
        ∀ c ∈ cs, P c := by
  induction cs generalizing i with
  | nil =>
    rw [iff_true_right (List.forall_mem_nil P)]
    exact ⟨[], rfl, [], [], rfl, .nil⟩
  | cons c cs ih =>
    rw [List.forall_mem_cons, ← h (toString i :: place), ← ih (i + 1)]
    constructor
    · rintro ⟨rs, hrs, bs, ws, hto, hsame⟩
      rw [Go.mapM_eq_ok, List.forall₂_cons_left_iff] at hrs
      obtain ⟨r, rs, hr, hrs, rfl⟩ := hrs
      obtain ⟨⟨b, w⟩, hb, hto⟩ := Go.bind_eq_ok.mp hto
      obtain ⟨⟨bs, ws⟩, hbs, hto⟩ := Go.bind_eq_ok.mp hto
      obtain ⟨rfl, rfl⟩ := Prod.mk.inj (Except.ok.inj hto)
      obtain ⟨hsame, hsames⟩ := List.forall₂_cons.mp hsame
      exact ⟨⟨r, hr, b, w, hb, hsame⟩, rs, Go.mapM_eq_ok.mpr hrs, bs, ws, hbs, hsames⟩
    · rintro ⟨⟨r, hr, b, w, hb, hsame⟩, rs, hrs, bs, ws, hbs, hsames⟩
      refine ⟨r :: rs, ?_, b :: bs, w :: ws, ?_, .cons hsame hsames⟩
      · exact Go.mapM_eq_ok.mpr (.cons hr (Go.mapM_eq_ok.mp hrs))
      · exact Go.bind_eq_ok.mpr ⟨(b, w), hb, Go.bind_eq_ok.mpr ⟨(bs, ws), hbs, rfl⟩⟩

variable {newUUID : List String → String} {elem : FieldType} {β : Type}
  {write : List String → elem.Val → Go (β × elem.Val)} {wrap : List β → Iface} {item : β → Iface}

/-- How a slice is written, element by element. -/
structure FieldType.Writes (newUUID : List String → String) (elem : FieldType) {β : Type}
    (write : List String → elem.Val → Go (β × elem.Val)) (wrap : List β → Iface)
    (item : β → Iface) : Prop where
  toMap : ∀ name place vs, (FieldType.slice elem).toMap newUUID name place (some vs) =
    eachElem write (name :: place) 0 vs >>= fun p ↦ .ok (some (wrap p.1), some p.2)
  elems : ∀ bs, (wrap bs).elems = some (bs.map item)

theorem FieldType.writes_maps (newUUID : List String → String) {elem : FieldType}
    (helem : ∀ kind, elem ≠ .plain kind) :
    elem.Writes newUUID (fun place v ↦ elem.toMaps newUUID place v) .maps ofMap where
  toMap := toMap_slice newUUID helem
  elems _ := rfl

theorem FieldType.writes_plain (newUUID : List String → String) (kind : Kind) :
    (FieldType.plain kind).Writes newUUID (fun _ v ↦ .ok (kind.iface v, v)) .list id where
  toMap name place vs := by
    have heach (i : ℕ) : eachElem (fun _ v ↦ .ok (kind.iface v, v)) (name :: place) i vs =
        .ok (vs.map kind.iface, vs) := by
      induction vs generalizing i with
      | nil => rfl
      | cons v vs ih => rw [eachElem, Go.ok_bind, ih]; rfl
    rw [heach]
    rfl
  elems bs := by rw [List.map_id]; rfl

variable [FloatConversion] {name : String} {place : List String}

/-- What comes back of a slice is a slice. -/
theorem FieldType.Writes.elems_of_comesBack (hw : elem.Writes newUUID write wrap item) {v : Iface}
    (h : (FieldType.slice elem).ComesBack newUUID name place (some v)) :
    ∃ vs, v.elems = some vs := by
  obtain ⟨r, -, entry, w, hto, hsame⟩ := h
  cases r with
  | none =>
    cases hto
    cases hsame
  | some vs =>
    rw [hw.toMap] at hto
    obtain ⟨⟨bs, ws⟩, -, hto⟩ := Go.bind_eq_ok.mp hto
    obtain ⟨rfl, -⟩ := Prod.mk.inj (Except.ok.inj hto)
    obtain ⟨vs, hvs, -⟩ := (sameJson_of_elems (hw.elems bs)).mp (Option.rel_some_some.mp hsame)
    exact ⟨vs, hvs⟩

/-- A slice comes back when its elements do. -/
theorem FieldType.Writes.comesBack_iff (hw : elem.Writes newUUID write wrap item) {γ : Type}
    {cs : List γ} {value : γ → Iface} {back : γ → Go elem.Val} {v : Iface} {P : γ → Prop}
    (hfrom : (FieldType.slice elem).fromMap name (some v) = sliceOf back cs)
    (hv : v.elems = some (cs.map value))
    (h : ∀ place c, (∃ r, back c = .ok r ∧
      ∃ b w, write place r = .ok (b, w) ∧ SameJson (item b) (value c)) ↔ P c) :
    (FieldType.slice elem).ComesBack newUUID name place (some v) ↔ ∀ c ∈ cs, P c := by
  have hsame (bs : List β) : Option.Rel SameJson (some (wrap bs)) (some v) ↔
      List.Forall₂ (fun b c ↦ SameJson (item b) (value c)) bs cs := by
    rw [Option.rel_some_some, sameJson_of_elems (hw.elems bs), hv]
    simp only [Option.some.injEq, exists_eq_left']
    rw [List.forall₂_map_left_iff, List.forall₂_map_right_iff]
  rw [← eachElem_back_iff h (name :: place) 0]
  constructor
  · rintro ⟨r, hr, entry, w, hto, hrel⟩
    rw [hfrom, sliceOf, Go.map_eq_ok] at hr
    obtain ⟨rs, hrs, rfl⟩ := hr
    rw [hw.toMap] at hto
    obtain ⟨⟨bs, ws⟩, hbs, hto⟩ := Go.bind_eq_ok.mp hto
    obtain ⟨rfl, -⟩ := Prod.mk.inj (Except.ok.inj hto)
    exact ⟨rs, hrs, bs, ws, hbs, (hsame bs).mp hrel⟩
  · rintro ⟨rs, hrs, bs, ws, hbs, hrel⟩
    refine ⟨some rs, ?_, some (wrap bs), some ws, ?_, (hsame bs).mpr hrel⟩
    · rw [hfrom, sliceOf, Go.map_eq_ok]
      exact ⟨rs, hrs, rfl⟩
    · rw [hw.toMap]
      exact Go.bind_eq_ok.mpr ⟨(bs, ws), hbs, rfl⟩

theorem FieldType.Writes.comesBack_slice_iff (hw : elem.Writes newUUID write wrap item)
    (hmap : ∀ place m, (∃ r, elem.fromMaps m = .ok r ∧
      ∃ b w, write place r = .ok (b, w) ∧ SameJson (item b) (ofMap m)) ↔ elem.IntactMap m)
    (hinterface : ∀ place v, (∃ r, elem.fromInterface v = .ok r ∧
      ∃ b w, write place r = .ok (b, w) ∧ SameJson (item b) v) ↔ elem.IntactInterface v)
    (mapValue : Option Iface) :
    (FieldType.slice elem).ComesBack newUUID name place mapValue ↔
      (FieldType.slice elem).Intact name mapValue := by
  cases mapValue with
  | none =>
    rw [comesBack_of_eq_ok rfl rfl]
    exact iff_of_true .none trivial
  | some v =>
    cases v with
    | maps ms => exact hw.comesBack_iff rfl rfl hmap
    | list vs =>
      have hv : (Iface.list vs).elems = some (vs.map id) := by
        rw [List.map_id]
        rfl
      exact hw.comesBack_iff rfl hv hinterface
    | nil | bool | int | float | str | map =>
      refine iff_of_false (fun h ↦ ?_) id
      obtain ⟨vs, hvs⟩ := hw.elems_of_comesBack h
      cases hvs

theorem FieldType.comesBack_slice_plain (kind : Kind) (mapValue : Option Iface) :
    (FieldType.slice (.plain kind)).ComesBack newUUID name place mapValue ↔
      (FieldType.slice (.plain kind)).Intact name mapValue := by
  refine (writes_plain newUUID kind).comesBack_slice_iff (fun _ m ↦ ?_) (fun _ v ↦ ?_) mapValue
  · exact iff_of_false not_exists_panicf id
  · constructor
    · rintro ⟨r, hr, -⟩
      refine ⟨r, ?_⟩
      cases kind <;> cases v <;> cases hr <;> rfl
    · rintro ⟨w, rfl⟩
      refine ⟨w, ?_, kind.iface w, w, rfl, sameJson_iface kind w⟩
      cases kind <;> rfl

end Slices

/-! ## Every map -/

section Structures

theorem sameEntries_nil {m : Entries} : SameEntries [] m ↔ m = [] := by
  constructor
  · intro h
    cases m with
    | nil => rfl
    | cons entry m =>
      have hrel := h entry.1
      rw [List.lookup_nil, List.lookup_cons_self] at hrel
      cases hrel
  · rintro rfl name
    exact .none

theorem lookup_filter_ne (m : Entries) (name key : String) :
    (m.filter (·.1 != name)).lookup key = if key = name then none else m.lookup key := by
  induction m with
  | nil => rw [List.filter_nil, List.lookup_nil, ite_self]
  | cons entry m ih =>
    obtain ⟨k, v⟩ := entry
    by_cases hk : k = name
    · obtain rfl := hk
      rw [List.filter_cons_of_neg (by simp), ih, List.lookup_cons]
      by_cases hkey : key = k
      · rw [if_pos hkey, if_pos hkey]
      · rw [if_neg hkey, if_neg hkey, beq_false_of_ne hkey]
    · rw [List.filter_cons_of_pos (by simpa using hk), List.lookup_cons, List.lookup_cons, ih]
      by_cases hkey : key = k
      · simp only [hkey, beq_self_eq_true, if_neg hk]
      · rw [beq_false_of_ne hkey]

variable {name : String} {m : Entries}

/-- What is under a name, and the rest. -/
theorem sameEntries_cons_iff {entry : Option Iface} {entries : Entries}
    (h : entries.lookup name = none) :
    SameEntries (entry.toList.map (name, ·) ++ entries) m ↔
      Option.Rel SameJson entry (m.lookup name) ∧ SameEntries entries (m.filter (·.1 != name)) := by
  constructor
  · intro hsame
    have hentry := hsame name
    rw [lookup_entry_append h] at hentry
    refine ⟨hentry, fun key ↦ ?_⟩
    rw [lookup_filter_ne]
    by_cases hkey : key = name
    · rw [if_pos hkey, hkey, h]
      exact .none
    · rw [if_neg hkey, ← lookup_entry_append_of_ne hkey]
      exact hsame key
  · rintro ⟨hentry, hentries⟩ key
    by_cases hkey : key = name
    · obtain rfl := hkey
      rw [lookup_entry_append h]
      exact hentry
    · have hrel := hentries key
      rw [lookup_filter_ne, if_neg hkey] at hrel
      rw [lookup_entry_append_of_ne hkey]
      exact hrel

variable [FloatConversion] {newUUID : List String → String} {place : List String}

/-- What comes back of a field of a structure. -/
def FieldType.ComesBackKnown (newUUID : List String → String) (field : FieldType) (name : String)
    (place : List String) (mapValue : Option Iface) : Prop :=
  if known name then field.ComesBack newUUID name place mapValue else mapValue = none

theorem FieldType.comesBackKnown_iff (field : FieldType) (mapValue : Option Iface) :
    field.ComesBackKnown newUUID name place mapValue ↔
      ∃ r, (if name = "" then .ok field.zero else field.fromMap name mapValue) = .ok r ∧
        ∃ entry w, field.toMapKnown newUUID name place r = .ok (entry, w) ∧
          Option.Rel SameJson entry mapValue := by
  rw [ComesBackKnown]
  by_cases hknown : known name = true
  · have hne : name ≠ "" := by
      rintro rfl
      cases hknown
    simp only [toMapKnown, if_pos hknown, if_neg hne]
    rfl
  · simp only [toMapKnown, if_neg hknown]
    constructor
    · rintro rfl
      refine ⟨field.zero, ?_, none, field.zero, rfl, .none⟩
      rw [fromMap_none, ite_self]
    · rintro ⟨r, -, entry, w, hto, hsame⟩
      obtain ⟨rfl, -⟩ := Prod.mk.inj (Except.ok.inj hto)
      cases hsame
      rfl

/-- **A map comes back when what it has for the first field does, and the rest.** -/
theorem StructType.comesBack_cons {field : FieldType} {rest : StructType}
    (hname : name ∉ rest.names) :
    (StructType.cons name field rest).ComesBack newUUID place m ↔
      field.ComesBackKnown newUUID name place (m.lookup name) ∧
        rest.ComesBack newUUID place (m.filter (·.1 != name)) := by
  have hrest : rest.fromMap (m.filter (·.1 != name)) = rest.fromMap m := by
    refine rest.fromMap_congr fun key hkey ↦ ?_
    have hne : key ≠ name := fun heq ↦ hname (heq ▸ hkey)
    rw [lookup_filter_ne, if_neg hne]
  rw [FieldType.comesBackKnown_iff, ComesBack, ComesBack, hrest]
  constructor
  · rintro ⟨r, hr, m', w, hm', hsame⟩
    rw [fromMap, Go.bind_eq_ok] at hr
    obtain ⟨r₁, hr₁, hr⟩ := hr
    obtain ⟨r₂, hr₂, hr⟩ := Go.bind_eq_ok.mp hr
    obtain rfl := Except.ok.inj hr
    obtain ⟨entry, w₁, entries, w₂, hentry, hentries, rfl, rfl⟩ := toMap_cons_eq_ok.mp hm'
    obtain ⟨hfirst, hothers⟩ :=
      (sameEntries_cons_iff (lookup_toMap rest hentries name hname)).mp hsame
    exact ⟨⟨r₁, hr₁, entry, w₁, hentry, hfirst⟩, r₂, hr₂, entries, w₂, hentries, hothers⟩
  · rintro ⟨⟨r₁, hr₁, entry, w₁, hentry, hfirst⟩, r₂, hr₂, entries, w₂, hentries, hothers⟩
    refine ⟨(r₁, r₂), ?_, _, (w₁, w₂), toMap_cons_eq_ok.mpr
      ⟨entry, w₁, entries, w₂, hentry, hentries, rfl, rfl⟩,
      (sameEntries_cons_iff (lookup_toMap rest hentries name hname)).mpr ⟨hfirst, hothers⟩⟩
    rw [fromMap, hr₁, Go.ok_bind, hr₂]
    rfl

/-- A structure that is a part of something else. -/
theorem StructType.comesBack_wrap {type : StructType} {α β : Type} (write : Entries → β)
    (left wrap : type.Val → α) {back : Go α} {put : α → Go (β × α)} {same : β → Prop}
    (hback : back = (type.fromMap m).map wrap)
    (hto : ∀ r, put (wrap r) =
      type.toMap newUUID place r >>= fun w ↦ .ok (write w.1, left w.2))
    (hsame : ∀ m', same (write m') ↔ SameEntries m' m) :
    (∃ r, back = .ok r ∧ ∃ b w, put r = .ok (b, w) ∧ same b) ↔ type.ComesBack newUUID place m := by
  constructor
  · rintro ⟨r, hr, b, w, hb, h⟩
    rw [hback, Go.map_eq_ok] at hr
    obtain ⟨r, hr, rfl⟩ := hr
    rw [hto, Go.bind_eq_ok] at hb
    obtain ⟨⟨m', w⟩, hm', hb⟩ := hb
    obtain ⟨rfl, rfl⟩ := Prod.mk.inj (Except.ok.inj hb)
    exact ⟨r, hr, m', w, hm', (hsame m').mp h⟩
  · rintro ⟨r, hr, m', w, hm', h⟩
    refine ⟨wrap r, ?_, write m', left w, ?_, (hsame m').mpr h⟩
    · rw [hback, Go.map_eq_ok]
      exact ⟨r, hr, rfl⟩
    · rw [hto, Go.bind_eq_ok]
      exact ⟨(m', w), hm', rfl⟩

theorem FieldType.comesBack_ptr (type : StructType) :
    (FieldType.ptr type).ComesBack newUUID name place (some (.map m)) ↔
      type.ComesBack newUUID (name :: place) m :=
  StructType.comesBack_wrap (fun m ↦ some (Iface.map m)) some some rfl (fun _ ↦ rfl)
    fun _ ↦ Option.rel_some_some.trans sameJson_map_map

theorem FieldType.comesBack_maybeStruct (type : StructType) :
    (FieldType.maybeStruct type).ComesBack newUUID name place (some (.map m)) ↔
      type.ComesBack newUUID (name :: place) m :=
  StructType.comesBack_wrap (fun m ↦ some (Iface.map m)) (MaybeState.value, ·)
    (MaybeState.value, ·) rfl (fun _ ↦ rfl)
    fun _ ↦ Option.rel_some_some.trans sameJson_map_map

theorem FieldType.mapComesBack_ptr (type : StructType) :
    (FieldType.ptr type).MapComesBack newUUID place (some m) ↔ type.ComesBack newUUID place m :=
  StructType.comesBack_wrap some some some rfl (fun _ ↦ rfl) fun _ ↦ sameJson_map_map

theorem FieldType.mapComesBack_maybeStruct (type : StructType) :
    (FieldType.maybeStruct type).MapComesBack newUUID place (some m) ↔
      type.ComesBack newUUID place m :=
  StructType.comesBack_wrap some (MaybeState.value, ·) (MaybeState.value, ·) rfl (fun _ ↦ rfl)
    fun _ ↦ sameJson_map_map

theorem FieldType.interfaceComesBack_ptr (type : StructType) :
    (FieldType.ptr type).InterfaceComesBack newUUID place (.map m) ↔
      type.ComesBack newUUID place m :=
  StructType.comesBack_wrap some some some rfl (fun _ ↦ rfl) fun _ ↦ sameJson_map_map

/-- A map is made for a structure in a slice, whatever was there. -/
theorem FieldType.not_mapComesBack_maybeStruct (type : StructType) :
    ¬ (FieldType.maybeStruct type).MapComesBack newUUID place none := by
  rintro ⟨r, -, m', w, hto, hsame⟩
  obtain ⟨⟨m', w⟩, -, hto⟩ := Go.bind_eq_ok.mp hto
  obtain ⟨rfl, -⟩ := Prod.mk.inj (Except.ok.inj hto)
  obtain ⟨m, hm, -⟩ := sameJson_map.mp hsame
  cases hm

mutual
theorem FieldType.comesBack_iff (hid : ∀ place, newUUID place ≠ "") :
    (field : FieldType) → field.Distinct → (name : String) → (place : List String) →
      (mapValue : Option Iface) →
        (field.ComesBack newUUID name place mapValue ↔ field.Intact name mapValue)
  | .plain kind, _, _, _, mapValue => FieldType.comesBack_plain hid kind mapValue
  | .maybe kind, _, _, _, mapValue => FieldType.comesBack_maybe kind mapValue
  | .ptr type, hd, name, place, mapValue => by
    cases mapValue with
    | none => exact (FieldType.comesBack_of_eq_ok rfl rfl).trans (iff_of_true .none trivial)
    | some v =>
      cases v with
      | map m => rw [FieldType.comesBack_ptr, type.comesBack_iff hid hd, FieldType.Intact]
      | nil => exact (FieldType.comesBack_of_eq_ok rfl rfl).trans (iff_of_false nofun id)
      | bool | int | float | str | list | maps => exact iff_of_false not_exists_panicf id
  | .maybeStruct type, hd, name, place, mapValue => by
    cases mapValue with
    | none => exact (FieldType.comesBack_of_eq_ok rfl rfl).trans (iff_of_true .none trivial)
    | some v =>
      cases v with
      | map m => rw [FieldType.comesBack_maybeStruct, type.comesBack_iff hid hd, FieldType.Intact]
      | nil => exact (FieldType.comesBack_of_eq_ok rfl rfl).trans (iff_of_true (.some .nil) trivial)
      | bool | int | float | str | list | maps => exact iff_of_false not_exists_panicf id
  | .slice (.plain kind), _, _, _, mapValue => FieldType.comesBack_slice_plain kind mapValue
  | .slice (.maybe kind), hd, _, _, mapValue =>
    (FieldType.writes_maps newUUID (by nofun)).comesBack_slice_iff
      ((FieldType.maybe kind).mapComesBack_iff hid (by nofun) hd)
      ((FieldType.maybe kind).interfaceComesBack_iff hid (by nofun) hd) mapValue
  | .slice (.ptr type), hd, _, _, mapValue =>
    (FieldType.writes_maps newUUID (by nofun)).comesBack_slice_iff
      ((FieldType.ptr type).mapComesBack_iff hid (by nofun) hd)
      ((FieldType.ptr type).interfaceComesBack_iff hid (by nofun) hd) mapValue
  | .slice (.maybeStruct type), hd, _, _, mapValue =>
    (FieldType.writes_maps newUUID (by nofun)).comesBack_slice_iff
      ((FieldType.maybeStruct type).mapComesBack_iff hid (by nofun) hd)
      ((FieldType.maybeStruct type).interfaceComesBack_iff hid (by nofun) hd) mapValue
  | .slice (.slice elem), hd, _, _, mapValue =>
    (FieldType.writes_maps newUUID (by nofun)).comesBack_slice_iff
      ((FieldType.slice elem).mapComesBack_iff hid (by nofun) hd)
      ((FieldType.slice elem).interfaceComesBack_iff hid (by nofun) hd) mapValue

theorem FieldType.mapComesBack_iff (hid : ∀ place, newUUID place ≠ "") :
    (elem : FieldType) → (∀ kind, elem ≠ .plain kind) → elem.Distinct → (place : List String) →
      (m : Option Entries) → (elem.MapComesBack newUUID place m ↔ elem.IntactMap m)
  | .plain kind, helem, _, _, _ => (helem kind rfl).elim
  | .ptr _, _, _, _, none => iff_of_true ⟨none, rfl, none, none, rfl, .nil⟩ trivial
  | .ptr type, _, hd, place, some m => by
    rw [FieldType.mapComesBack_ptr, type.comesBack_iff hid hd, FieldType.IntactMap]
  | .maybeStruct type, _, _, _, none =>
    iff_of_false (FieldType.not_mapComesBack_maybeStruct type) id
  | .maybeStruct type, _, hd, place, some m => by
    rw [FieldType.mapComesBack_maybeStruct, type.comesBack_iff hid hd, FieldType.IntactMap]
  | .maybe _, _, _, _, _ => iff_of_false not_exists_panicf id
  | .slice _, _, _, _, _ => iff_of_false not_exists_panicf id

theorem FieldType.interfaceComesBack_iff (hid : ∀ place, newUUID place ≠ "") :
    (elem : FieldType) → (∀ kind, elem ≠ .plain kind) → elem.Distinct → (place : List String) →
      (v : Iface) → (elem.InterfaceComesBack newUUID place v ↔ elem.IntactInterface v)
  | .plain kind, helem, _, _, _ => (helem kind rfl).elim
  | .ptr type, _, hd, place, v => by
    cases v with
    | map m =>
      rw [FieldType.interfaceComesBack_ptr, type.comesBack_iff hid hd, FieldType.IntactInterface]
    | nil | bool | int | float | str | list | maps => exact iff_of_false not_exists_panicf id
  | .maybeStruct _, _, _, _, _ => iff_of_false not_exists_setUnfit id
  | .maybe _, _, _, _, _ => iff_of_false not_exists_setUnfit id
  | .slice _, _, _, _, _ => iff_of_false not_exists_setUnfit id

/-- **A map comes back if and only if it is intact.** -/
theorem StructType.comesBack_iff (hid : ∀ place, newUUID place ≠ "") :
    (type : StructType) → type.Distinct → (place : List String) → (m : Entries) →
      (type.ComesBack newUUID place m ↔ type.Intact m)
  | .nil, _, _, m => by
    rw [StructType.Intact, ← sameEntries_nil]
    constructor
    · rintro ⟨r, -, m', w, hto, hsame⟩
      obtain ⟨rfl, -⟩ := Prod.mk.inj (Except.ok.inj hto)
      exact hsame
    · intro hsame
      exact ⟨(), rfl, [], (), rfl, hsame⟩
  | .cons name field rest, hd, place, m => by
    obtain ⟨hname, hfield, hrest⟩ := hd
    rw [StructType.comesBack_cons hname, rest.comesBack_iff hid hrest, StructType.Intact,
      FieldType.ComesBackKnown, field.comesBack_iff hid hfield]
end

end Structures

end Gohan.Goplugin
