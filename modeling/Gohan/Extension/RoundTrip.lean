import Gohan.Extension.Resource

/-!
# A structure in a map and back

`ResourceToMap` followed by `resourceFromMap`, with the map as it is or with its integers read again
from JSON, where they become `float64`.

`roundTrips_iff_kept` says when the structure comes back (`Kept`): no plain field `id` is empty, the
slices of wrappers and of slices that are not nil are empty, and the elements of slices of
structures that may be undefined or null are neither.  After JSON there must also be no integers in
slices, and the others must be numbers that a `float64` can be.
-/

set_option autoImplicit false

namespace Gohan.Goplugin

open Sync Iface

/-! ## Reading again -/

section Iface

variable {f : ℤ → Iface} {name : String}

theorem mapIntsList_eq (f : ℤ → Iface) (vs : List Iface) :
    mapIntsList f vs = vs.map (·.mapInts f) := by
  induction vs with
  | nil => rfl
  | cons v vs ih => rw [mapIntsList, ih, List.map_cons]

theorem mapIntsMaps_eq (f : ℤ → Iface) (ms : List (Option Entries)) :
    mapIntsMaps f ms = ms.map (Option.map (mapIntsEntries f)) := by
  induction ms with
  | nil => rfl
  | cons m ms ih =>
    cases m with
    | none => rw [mapIntsMaps, ih]; rfl
    | some m => rw [mapIntsMaps, ih]; rfl

theorem lookup_mapIntsEntries (m : Entries) :
    (mapIntsEntries f m).lookup name = (m.lookup name).map (·.mapInts f) := by
  induction m with
  | nil => rfl
  | cons entry m ih =>
    obtain ⟨key, v⟩ := entry
    rw [mapIntsEntries, List.lookup_cons, List.lookup_cons, ih]
    cases name == key <;> rfl

end Iface

/-! ## Integers read as other values -/

section Integers

variable [FloatConversion]

/-- The integers of a map are read as other values.  A field gets an integer from them, which is the
one that was written for those with `P`, and an element of a slice does for those with `Q`. -/
structure Rereads (f : ℤ → Iface) (P Q : ℤ → Prop) : Prop where
  field : ∀ n, ∃ n', f n ≠ .nil ∧ (∀ name, assignMapValueToField .int (f n) name = .ok n') ∧
    setPrimitiveMaybe .int (f n) = .ok ⟨.value, n'⟩ ∧ (n' = n ↔ P n)
  elem : ∀ n r, Kind.int.set (f n) = .ok r ↔ r = n ∧ Q n

/-- The map is read as it was written. -/
theorem rereads_int : Rereads .int (fun _ ↦ True) fun _ ↦ True where
  field n := ⟨n, by simp, fun _ ↦ rfl, rfl, by simp⟩
  elem n r := by
    rw [Kind.set, and_true, Except.ok.injEq]
    exact eq_comm

variable [TextEngine]

/-- An integer that was read again from JSON. -/
def float64Of (n : ℤ) : Iface := .float (TextEngine.float64 n)

/-- An integer is the same after JSON. -/
def Exact (n : ℤ) : Prop := int64OfFloat (TextEngine.float64 n) = n

/-- The map was written as JSON and read again. -/
theorem rereads_float64 : Rereads float64Of Exact fun _ ↦ False where
  field n := ⟨_, by simp [float64Of], fun _ ↦ rfl, rfl, Iff.rfl⟩
  elem n r := by
    rw [and_false, iff_false]
    exact Go.panicf_ne_ok _ _ _

end Integers

/-! ## What comes back -/

mutual
/-- A field comes back: `P` is asked of integers, and `Q` of those in slices. -/
def FieldType.Kept (P Q : ℤ → Prop) : (field : FieldType) → String → field.Val → Prop
  | .plain .string, name, v => name = "id" → v ≠ ""
  | .plain .int, _, v => P v
  | .plain .float, _, _ => True
  | .plain .bool, _, _ => True
  | .maybe .int, _, v => v.state = .value → P v.value
  | .maybe .string, _, _ => True
  | .maybe .float, _, _ => True
  | .maybe .bool, _, _ => True
  | .ptr _, _, none => True
  | .ptr type, _, some v => type.Kept P Q v
  | .maybeStruct type, _, v => v.1 = .value → type.Kept P Q v.2
  | .slice _, _, none => True
  | .slice elem, _, some vs => ∀ v ∈ vs, elem.KeptElem P Q v

/-- An element of a slice comes back. -/
def FieldType.KeptElem (P Q : ℤ → Prop) : (elem : FieldType) → elem.Val → Prop
  | .plain .int, v => Q v
  | .plain .string, _ => True
  | .plain .float, _ => True
  | .plain .bool, _ => True
  | .maybe _, _ => False
  | .ptr _, none => True
  | .ptr type, some v => type.Kept P Q v
  | .maybeStruct type, v => v.1 = .value ∧ type.Kept P Q v.2
  | .slice _, _ => False

/-- **A structure comes back.**  A field that package `reflectx` does not know is as in a new
structure. -/
def StructType.Kept (P Q : ℤ → Prop) : (type : StructType) → type.Val → Prop
  | .nil, _ => True
  | .cons name field rest, v =>
    (if known name then field.Kept P Q name v.1 else field.Same field.zero v.1) ∧
      rest.Kept P Q v.2
end

section RoundTrips

variable [FloatConversion] (newUUID : List String → String) (f : ℤ → Iface)

/-- **A round trip**: a structure is put into a map, the integers of the map are read as others, and
what is made of the map is the same structure. -/
def StructType.RoundTrips (type : StructType) (place : List String) (v : type.Val) : Prop :=
  ∃ m w, type.toMap newUUID place v = .ok (m, w) ∧
    ∃ r, type.fromMap (mapIntsEntries f m) = .ok r ∧ type.Same r v

/-- The field that comes back from the map has the value that went into it. -/
def FieldType.RoundTrips (field : FieldType) (name : String) (place : List String)
    (v : field.Val) : Prop :=
  ∃ entry w, field.toMap newUUID name place v = .ok (entry, w) ∧
    ∃ r, field.fromMap name (entry.map (·.mapInts f)) = .ok r ∧ field.Same r v

/-- The round trip of an element of a slice that is written as a map. -/
def FieldType.RoundTripsElem (elem : FieldType) (place : List String) (v : elem.Val) : Prop :=
  ∃ m w, elem.toMaps newUUID place v = .ok (m, w) ∧
    ∃ r, elem.fromMaps (m.map (mapIntsEntries f)) = .ok r ∧ elem.Same r v

end RoundTrips

/-! ## Fields -/

section Fields

variable {newUUID : List String → String} {f : ℤ → Iface} {place : List String} {name : String}

/-- There is nothing but the names of the fields in the map. -/
theorem StructType.lookup_toMap : (type : StructType) → {place : List String} → {v w : type.Val} →
    {m : Entries} → type.toMap newUUID place v = .ok (m, w) → ∀ name ∉ type.names,
      m.lookup name = none
  | .nil, _, _, _, _, h, _, _ => by
    cases h
    rfl
  | .cons key field rest, _, _, _, _, h, name, hname => by
    rw [names, List.mem_cons, not_or] at hname
    rw [toMap, Go.bind_eq_ok] at h
    obtain ⟨⟨entry, w⟩, -, h⟩ := h
    obtain ⟨⟨entries, ws⟩, hrest, h⟩ := Go.bind_eq_ok.mp h
    cases h
    rw [List.lookup_append, lookup_toMap rest hrest name hname.2, Option.or_none]
    cases entry with
    | none => rfl
    | some entry =>
      show List.lookup name [(key, entry)] = none
      rw [List.lookup_cons, beq_false_of_ne hname.1]
      rfl

/-- How a field is written, if package `reflectx` knows it. -/
def FieldType.toMapKnown (newUUID : List String → String) (field : FieldType) (name : String)
    (place : List String) (v : field.Val) : Go (Option Iface × field.Val) :=
  if known name then field.toMap newUUID name place v else .ok (none, v)

theorem StructType.toMap_cons_eq_ok {field : FieldType} {rest : StructType} {v : field.Val}
    {vs : rest.Val} {m : Entries} {w : (StructType.cons name field rest).Val} :
    (StructType.cons name field rest).toMap newUUID place (v, vs) = .ok (m, w) ↔
      ∃ entry w₁ entries w₂, field.toMapKnown newUUID name place v = .ok (entry, w₁) ∧
        rest.toMap newUUID place vs = .ok (entries, w₂) ∧
          m = entry.toList.map (name, ·) ++ entries ∧ w = (w₁, w₂) := by
  rw [toMap, Go.bind_eq_ok]
  constructor
  · rintro ⟨⟨entry, w₁⟩, hentry, h⟩
    obtain ⟨⟨entries, w₂⟩, hentries, h⟩ := Go.bind_eq_ok.mp h
    obtain ⟨rfl, rfl⟩ := Prod.mk.inj (Except.ok.inj h)
    exact ⟨entry, w₁, entries, w₂, hentry, hentries, rfl, rfl⟩
  · rintro ⟨entry, w₁, entries, w₂, hentry, hentries, rfl, rfl⟩
    exact ⟨(entry, w₁), hentry, Go.bind_eq_ok.mpr ⟨(entries, w₂), hentries, rfl⟩⟩

theorem lookup_entry_append {entry : Option Iface} {entries : Entries}
    (h : entries.lookup name = none) :
    (entry.toList.map (name, ·) ++ entries).lookup name = entry := by
  cases entry with
  | none => exact h
  | some entry => exact List.lookup_cons_self

theorem lookup_entry_append_of_ne {entry : Option Iface} {entries : Entries} {key : String}
    (h : key ≠ name) :
    (entry.toList.map (name, ·) ++ entries).lookup key = entries.lookup key := by
  cases entry with
  | none => rfl
  | some entry =>
    show List.lookup key ((name, entry) :: entries) = _
    rw [List.lookup_cons, beq_false_of_ne h]

variable [FloatConversion]

/-- What is not in the map stays as it is in a new structure. -/
theorem FieldType.fromMap_none (field : FieldType) (name : String) :
    field.fromMap name none = .ok field.zero := by
  cases field with
  | plain kind => cases kind <;> rfl
  | maybe kind => rfl
  | ptr type => rfl
  | maybeStruct type => rfl
  | slice elem => rfl

/-- Only the names of its fields count. -/
theorem StructType.fromMap_congr : (type : StructType) → {context context' : Entries} →
    (∀ name ∈ type.names, context.lookup name = context'.lookup name) →
      type.fromMap context = type.fromMap context'
  | .nil, _, _, _ => rfl
  | .cons name field rest, context, context', h => by
    rw [names, List.forall_mem_cons] at h
    rw [fromMap, fromMap, h.1, fromMap_congr rest h.2]

/-- What a structure gets from the map that was made of its fields. -/
theorem StructType.fromMap_cons {field : FieldType} {rest : StructType}
    (hname : name ∉ rest.names) {entry : Option Iface} {entries : Entries}
    (hentries : ∀ key ∉ rest.names, entries.lookup key = none) :
    (StructType.cons name field rest).fromMap
        (mapIntsEntries f (entry.toList.map (name, ·) ++ entries)) =
      (if name = "" then .ok field.zero else field.fromMap name (entry.map (·.mapInts f))) >>=
        fun v ↦ rest.fromMap (mapIntsEntries f entries) >>= fun vs ↦ .ok (v, vs) := by
  have hrest : rest.fromMap (mapIntsEntries f (entry.toList.map (name, ·) ++ entries)) =
      rest.fromMap (mapIntsEntries f entries) := by
    refine rest.fromMap_congr fun key hkey ↦ ?_
    have hne : key ≠ name := fun heq ↦ hname (heq ▸ hkey)
    rw [lookup_mapIntsEntries, lookup_mapIntsEntries, lookup_entry_append_of_ne hne]
  rw [fromMap, lookup_mapIntsEntries, lookup_entry_append (hentries name hname), hrest]

/-- What a field gets back in a round trip of its structure. -/
def FieldType.RoundTripsKnown (newUUID : List String → String) (f : ℤ → Iface) (field : FieldType)
    (name : String) (place : List String) (v : field.Val) : Prop :=
  if known name then field.RoundTrips newUUID f name place v else field.Same field.zero v

theorem FieldType.roundTripsKnown_iff (field : FieldType) (v : field.Val) :
    field.RoundTripsKnown newUUID f name place v ↔
      ∃ entry w, field.toMapKnown newUUID name place v = .ok (entry, w) ∧
        ∃ r, (if name = "" then .ok field.zero
          else field.fromMap name (entry.map (·.mapInts f))) = .ok r ∧ field.Same r v := by
  rw [RoundTripsKnown, toMapKnown]
  by_cases hknown : known name = true
  · have hne : name ≠ "" := by
      rintro rfl
      cases hknown
    simp only [if_pos hknown, if_neg hne]
    rfl
  · rw [if_neg hknown, if_neg hknown]
    have hzero (entry : Option Iface) (hentry : entry = none) :
        (if name = "" then .ok field.zero else field.fromMap name (entry.map (·.mapInts f))) =
          (.ok field.zero : Go field.Val) := by
      rw [hentry, Option.map_none, fromMap_none, ite_self]
    constructor
    · intro h
      exact ⟨none, v, rfl, field.zero, hzero none rfl, h⟩
    · rintro ⟨entry, w, hentry, r, hr, hsame⟩
      rw [hzero entry (Prod.mk.inj (Except.ok.inj hentry)).1.symm] at hr
      exact Except.ok.inj hr ▸ hsame

/-- **A structure comes back when its fields do.** -/
theorem StructType.roundTrips_cons {field : FieldType} {rest : StructType}
    (hname : name ∉ rest.names) (v : field.Val) (vs : rest.Val) :
    (StructType.cons name field rest).RoundTrips newUUID f place (v, vs) ↔
      field.RoundTripsKnown newUUID f name place v ∧ rest.RoundTrips newUUID f place vs := by
  rw [FieldType.roundTripsKnown_iff]
  constructor
  · rintro ⟨m, w, hm, r, hr, hsame⟩
    obtain ⟨entry, w₁, entries, w₂, hentry, hentries, rfl, rfl⟩ := toMap_cons_eq_ok.mp hm
    rw [fromMap_cons hname (lookup_toMap rest hentries)] at hr
    obtain ⟨r₁, hr₁, hr⟩ := Go.bind_eq_ok.mp hr
    obtain ⟨r₂, hr₂, hr⟩ := Go.bind_eq_ok.mp hr
    obtain rfl := Except.ok.inj hr
    exact ⟨⟨entry, w₁, hentry, r₁, hr₁, hsame.1⟩, entries, w₂, hentries, r₂, hr₂, hsame.2⟩
  · rintro ⟨⟨entry, w₁, hentry, r₁, hr₁, hsame₁⟩, entries, w₂, hentries, r₂, hr₂, hsame₂⟩
    refine ⟨_, (w₁, w₂), toMap_cons_eq_ok.mpr ⟨entry, w₁, entries, w₂, hentry, hentries, rfl, rfl⟩,
      (r₁, r₂), ?_, hsame₁, hsame₂⟩
    rw [fromMap_cons hname (lookup_toMap rest hentries), hr₁, Go.ok_bind, hr₂]
    rfl

/-- A field of which it is known what is written and what is read again. -/
theorem FieldType.roundTrips_of_eq_ok {field : FieldType} {v w r : field.Val}
    {entry : Option Iface} (hto : field.toMap newUUID name place v = .ok (entry, w))
    (hfrom : field.fromMap name (entry.map (·.mapInts f)) = .ok r) :
    field.RoundTrips newUUID f name place v ↔ field.Same r v := by
  constructor
  · rintro ⟨entry', w', hto', r', hfrom', hsame⟩
    rw [hto] at hto'
    obtain ⟨rfl, rfl⟩ := Prod.mk.inj (Except.ok.inj hto')
    rw [hfrom] at hfrom'
    exact Except.ok.inj hfrom' ▸ hsame
  · intro hsame
    exact ⟨entry, w, hto, r, hfrom, hsame⟩

/-- A structure that is a part of something else, which is written and read with it. -/
theorem StructType.roundTrips_wrap {type : StructType} {v : type.Val} {α β : Type}
    (write : Entries → β) (left wrap : type.Val → α) (back : β → Go α) (same : α → Prop)
    (hback : ∀ m, back (write m) = (type.fromMap (mapIntsEntries f m)).map wrap)
    (hsame : ∀ r, same (wrap r) ↔ type.Same r v) :
    (∃ b a, (type.toMap newUUID place v >>= fun w ↦ .ok (write w.1, left w.2)) = .ok (b, a) ∧
      ∃ r, back b = .ok r ∧ same r) ↔ type.RoundTrips newUUID f place v := by
  constructor
  · rintro ⟨b, a, hto, r, hr, h⟩
    obtain ⟨⟨m, w⟩, hm, hto⟩ := Go.bind_eq_ok.mp hto
    obtain ⟨rfl, rfl⟩ := Prod.mk.inj (Except.ok.inj hto)
    rw [hback, Go.map_eq_ok] at hr
    obtain ⟨r, hr, rfl⟩ := hr
    exact ⟨m, w, hm, r, hr, (hsame r).mp h⟩
  · rintro ⟨m, w, hm, r, hr, h⟩
    refine ⟨write m, left w, Go.bind_eq_ok.mpr ⟨(m, w), hm, rfl⟩, wrap r, ?_, (hsame r).mpr h⟩
    rw [hback, Go.map_eq_ok]
    exact ⟨r, hr, rfl⟩

end Fields

/-! ## Slices -/

section Slices

/-- A slice comes back when each of its elements does, wherever it stands. -/
theorem eachElem_iff {α β : Type} {elem : List String → α → Go (β × α)} {back : β → Go α}
    {same : α → α → Prop} {P : α → Prop}
    (h : ∀ place v, (∃ b w, elem place v = .ok (b, w) ∧ ∃ r, back b = .ok r ∧ same r v) ↔ P v)
    {place : List String} {i : ℕ} {vs : List α} :
    (∃ bs ws, eachElem elem place i vs = .ok (bs, ws) ∧
      ∃ rs, bs.mapM back = .ok rs ∧ List.Forall₂ same rs vs) ↔ ∀ v ∈ vs, P v := by
  induction vs generalizing i with
  | nil =>
    rw [iff_true_right (List.forall_mem_nil P)]
    exact ⟨[], [], rfl, [], rfl, .nil⟩
  | cons v vs ih =>
    rw [List.forall_mem_cons, ← h (toString i :: place), ← @ih (i + 1)]
    constructor
    · rintro ⟨bs, ws, hto, rs, hrs, hsame⟩
      obtain ⟨⟨b, w⟩, hb, hto⟩ := Go.bind_eq_ok.mp hto
      obtain ⟨⟨bs, ws⟩, hbs, hto⟩ := Go.bind_eq_ok.mp hto
      obtain ⟨rfl, rfl⟩ := Prod.mk.inj (Except.ok.inj hto)
      rw [Go.mapM_eq_ok, List.forall₂_cons_left_iff] at hrs
      obtain ⟨r, rs, hr, hrs, rfl⟩ := hrs
      obtain ⟨hr', hrs'⟩ := List.forall₂_cons.mp hsame
      exact ⟨⟨b, w, hb, r, hr, hr'⟩, bs, ws, hbs, rs, Go.mapM_eq_ok.mpr hrs, hrs'⟩
    · rintro ⟨⟨b, w, hb, r, hr, hsame⟩, bs, ws, hbs, rs, hrs, hsames⟩
      refine ⟨b :: bs, w :: ws, ?_, r :: rs, ?_, .cons hsame hsames⟩
      · exact Go.bind_eq_ok.mpr ⟨(b, w), hb, Go.bind_eq_ok.mpr ⟨(bs, ws), hbs, rfl⟩⟩
      · exact Go.mapM_eq_ok.mpr (.cons hr (Go.mapM_eq_ok.mp hrs))

variable [FloatConversion] {newUUID : List String → String} {f : ℤ → Iface} {P Q : ℤ → Prop}
  {place : List String} {name : String}

omit [FloatConversion] in
/-- What a slice that is not of plain values is written as. -/
theorem FieldType.toMap_slice (newUUID : List String → String) {elem : FieldType}
    (helem : ∀ kind, elem ≠ .plain kind) (name : String) (place : List String)
    (vs : List elem.Val) :
    (FieldType.slice elem).toMap newUUID name place (some vs) =
      eachElem (fun place v ↦ elem.toMaps newUUID place v) (name :: place) 0 vs >>=
        fun p ↦ .ok (some (.maps p.1), some p.2) := by
  cases elem with
  | plain kind => exact (helem kind rfl).elim
  | maybe | ptr | maybeStruct | slice => rfl

theorem FieldType.roundTrips_slice {elem : FieldType} (helem : ∀ kind, elem ≠ .plain kind)
    (vs : List elem.Val) :
    (FieldType.slice elem).RoundTrips newUUID f name place (some vs) ↔
      ∃ bs ws, eachElem (fun place v ↦ elem.toMaps newUUID place v) (name :: place) 0 vs =
          .ok (bs, ws) ∧
        ∃ rs, bs.mapM (fun m ↦ elem.fromMaps (m.map (mapIntsEntries f))) = .ok rs ∧
          List.Forall₂ elem.Same rs vs := by
  have hfrom (bs : List (Option Entries)) (r : Option (List elem.Val)) :
      (FieldType.slice elem).fromMap name ((some (Iface.maps bs)).map (·.mapInts f)) = .ok r ↔
        ∃ rs, bs.mapM (fun m ↦ elem.fromMaps (m.map (mapIntsEntries f))) = .ok rs ∧
          some rs = r := by
    have hmap : (bs.map (Option.map (mapIntsEntries f))).mapM (fun m ↦ elem.fromMaps m) =
        bs.mapM fun m ↦ elem.fromMaps (m.map (mapIntsEntries f)) := List.mapM_map
    rw [Option.map_some, mapInts, mapIntsMaps_eq, ← Go.map_eq_ok, ← hmap]
    rfl
  rw [RoundTrips, toMap_slice newUUID helem]
  constructor
  · rintro ⟨entry, w, hto, r, hr, hsame⟩
    obtain ⟨⟨bs, ws⟩, hbs, hto⟩ := Go.bind_eq_ok.mp hto
    obtain ⟨rfl, rfl⟩ := Prod.mk.inj (Except.ok.inj hto)
    obtain ⟨rs, hrs, rfl⟩ := (hfrom bs r).mp hr
    exact ⟨bs, ws, hbs, rs, hrs, hsame⟩
  · rintro ⟨bs, ws, hbs, rs, hrs, hsame⟩
    exact ⟨_, _, Go.bind_eq_ok.mpr ⟨(bs, ws), hbs, rfl⟩, some rs, (hfrom bs _).mpr ⟨rs, hrs, rfl⟩,
      hsame⟩

/-- A plain value that is put where it was. -/
theorem Kind.set_mapInts (h : Rereads f P Q) (kind : Kind) (v r : kind.Val) :
    kind.set ((kind.iface v).mapInts f) = .ok r ↔
      r = v ∧ (FieldType.plain kind).KeptElem P Q v := by
  cases kind with
  | int => exact h.elem v r
  | string | float | bool =>
    rw [FieldType.KeptElem, and_true]
    exact ⟨fun heq ↦ (Except.ok.inj heq).symm, fun heq ↦ congrArg Except.ok heq.symm⟩

theorem FieldType.roundTrips_slice_plain (h : Rereads f P Q) (kind : Kind) (vs : List kind.Val) :
    (FieldType.slice (.plain kind)).RoundTrips newUUID f name place (some vs) ↔
      (FieldType.slice (.plain kind)).Kept P Q name (some vs) := by
  have hmap : ((vs.map kind.iface).map (·.mapInts f)).mapM
        (fun v ↦ (FieldType.plain kind).fromInterface v) =
      vs.mapM fun v ↦ kind.set ((kind.iface v).mapInts f) := by
    rw [List.mapM_map, List.mapM_map]
    rfl
  have hfrom (rs : List kind.Val) :
      (vs.mapM fun v ↦ kind.set ((kind.iface v).mapInts f)) = .ok rs ↔
        (∀ v ∈ vs, (FieldType.plain kind).KeptElem P Q v) ∧ vs = rs := by
    rw [Go.mapM_eq_ok, ← List.forall₂_eq_eq_eq, ← List.forall₂_and_left]
    refine iff_of_eq (congrArg (List.Forall₂ · vs rs) (funext₂ fun v r ↦ propext ?_))
    rw [Kind.set_mapInts h, and_comm, eq_comm]
  constructor
  · rintro ⟨entry, w, hto, r, hr, -⟩
    obtain ⟨rfl, rfl⟩ := Prod.mk.inj (Except.ok.inj hto)
    rw [Option.map_some, mapInts, mapIntsList_eq] at hr
    obtain ⟨rs, hrs, -⟩ := Go.map_eq_ok.mp hr
    exact ((hfrom rs).mp (hmap ▸ hrs)).1
  · intro hkept
    refine ⟨_, _, rfl, some vs, ?_, List.forall₂_same.mpr fun v _ ↦ rfl⟩
    rw [Option.map_some, mapInts, mapIntsList_eq]
    exact Go.map_eq_ok.mpr ⟨vs, hmap.trans ((hfrom vs).mpr ⟨hkept, rfl⟩), rfl⟩

end Slices

/-! ## Every structure -/

section Structures

variable [FloatConversion] {newUUID : List String → String} {f : ℤ → Iface} {P Q : ℤ → Prop}
  {place : List String} {name : String}

omit [FloatConversion] in
/-- An identifier that is empty is replaced. -/
theorem FieldType.toMap_string (hid : ∀ place, newUUID place ≠ "") (name : String)
    (place : List String) (s : String) :
    ∃ s', (FieldType.plain .string).toMap newUUID name place s = .ok (some (.str s'), s') ∧
      (s' = s ↔ (name = "id" → s ≠ "")) ∧ (name = "id" → s' ≠ "") := by
  by_cases hs : name = "id" ∧ s = ""
  · refine ⟨newUUID place, if_pos hs, ?_, fun _ ↦ hid place⟩
    exact iff_of_false (fun h ↦ hid place (h.trans hs.2)) fun h ↦ h hs.1 hs.2
  · have hne (hname : name = "id") : s ≠ "" := fun hempty ↦ hs ⟨hname, hempty⟩
    exact ⟨s, if_neg hs, iff_of_true rfl hne, hne⟩

theorem FieldType.roundTrips_plain (h : Rereads f P Q) (hid : ∀ place, newUUID place ≠ "")
    (kind : Kind) (v : kind.Val) :
    (FieldType.plain kind).RoundTrips newUUID f name place v ↔
      (FieldType.plain kind).Kept P Q name v := by
  cases kind with
  | string =>
    obtain ⟨s, hto, hs, -⟩ := toMap_string hid name place v
    rw [roundTrips_of_eq_ok hto rfl]
    exact hs
  | int =>
    obtain ⟨n, -, hassign, -, hn⟩ := h.field v
    have hfrom : (FieldType.plain .int).fromMap name ((some (Iface.int v)).map (·.mapInts f)) =
        .ok n := hassign name
    rw [roundTrips_of_eq_ok rfl hfrom]
    exact hn
  | float | bool =>
    rw [roundTrips_of_eq_ok rfl rfl]
    exact iff_of_true rfl trivial

/-- A wrapper with a value is written as its value. -/
theorem FieldType.roundTrips_maybe_value (h : Rereads f P Q) (kind : Kind) (v : kind.Val) :
    (FieldType.maybe kind).RoundTrips newUUID f name place ⟨.value, v⟩ ↔
      (FieldType.maybe kind).Kept P Q name ⟨.value, v⟩ := by
  cases kind with
  | int =>
    obtain ⟨n, hne, -, hset, hn⟩ := h.field v
    have hfrom : (FieldType.maybe .int).fromMap name ((some (Iface.int v)).map (·.mapInts f)) =
        .ok ⟨.value, n⟩ := by
      rw [Option.map_some, mapInts, ← hset]
      cases hv : f v with
      | nil => exact (hne hv).elim
      | bool | int | float | str | list | maps | map => rfl
    rw [roundTrips_of_eq_ok rfl hfrom]
    constructor
    · intro hsame _
      exact hn.mp (hsame.2 rfl)
    · intro hkept
      exact ⟨rfl, fun _ ↦ hn.mpr (hkept rfl)⟩
  | string | float | bool =>
    rw [roundTrips_of_eq_ok rfl rfl]
    exact iff_of_true ⟨rfl, fun _ ↦ rfl⟩ trivial

omit [FloatConversion] in
theorem FieldType.kept_maybe_of_ne {kind : Kind} {v : Maybe kind.Val} (hv : v.state ≠ .value) :
    (FieldType.maybe kind).Kept P Q name v := by
  cases kind with
  | int => exact fun hvalue ↦ (hv hvalue).elim
  | string | float | bool => trivial

theorem FieldType.roundTrips_maybe (h : Rereads f P Q) (kind : Kind) (v : Maybe kind.Val) :
    (FieldType.maybe kind).RoundTrips newUUID f name place v ↔
      (FieldType.maybe kind).Kept P Q name v := by
  obtain ⟨state, value⟩ := v
  cases state with
  | value => exact roundTrips_maybe_value h kind value
  | undefined | null =>
    rw [roundTrips_of_eq_ok rfl rfl]
    exact iff_of_true ⟨rfl, nofun⟩ (kept_maybe_of_ne nofun)

theorem FieldType.roundTrips_ptr (type : StructType) (v : type.Val) :
    (FieldType.ptr type).RoundTrips newUUID f name place (some v) ↔
      type.RoundTrips newUUID f (name :: place) v :=
  StructType.roundTrips_wrap (fun m ↦ some (Iface.map m)) some some
    (fun entry ↦ (FieldType.ptr type).fromMap name (entry.map (mapInts f ·)))
    ((FieldType.ptr type).Same · (some v)) (fun _ ↦ rfl) fun _ ↦ Iff.rfl

theorem FieldType.roundTrips_maybeStruct (type : StructType) (v : type.Val) :
    (FieldType.maybeStruct type).RoundTrips newUUID f name place (.value, v) ↔
      type.RoundTrips newUUID f (name :: place) v :=
  StructType.roundTrips_wrap (fun m ↦ some (Iface.map m)) (MaybeState.value, ·)
    (MaybeState.value, ·)
    (fun entry ↦ (FieldType.maybeStruct type).fromMap name (entry.map (mapInts f ·)))
    ((FieldType.maybeStruct type).Same · (.value, v)) (fun _ ↦ rfl)
    fun _ ↦ (and_iff_right rfl).trans (forall_prop_of_true rfl)

theorem FieldType.roundTripsElem_ptr (type : StructType) (v : type.Val) :
    (FieldType.ptr type).RoundTripsElem newUUID f place (some v) ↔
      type.RoundTrips newUUID f place v :=
  StructType.roundTrips_wrap some some some
    (fun m ↦ (FieldType.ptr type).fromMaps (m.map (mapIntsEntries f)))
    ((FieldType.ptr type).Same · (some v)) (fun _ ↦ rfl) fun _ ↦ Iff.rfl

/-- There is no state in a map of a slice. -/
theorem FieldType.roundTripsElem_maybeStruct (type : StructType) (state : MaybeState)
    (v : type.Val) :
    (FieldType.maybeStruct type).RoundTripsElem newUUID f place (state, v) ↔
      state = .value ∧ type.RoundTrips newUUID f place v := by
  by_cases hstate : state = .value
  · obtain rfl := hstate
    rw [and_iff_right rfl]
    exact StructType.roundTrips_wrap some (MaybeState.value, ·) (MaybeState.value, ·)
      (fun m ↦ (FieldType.maybeStruct type).fromMaps (m.map (mapIntsEntries f)))
      ((FieldType.maybeStruct type).Same · (.value, v)) (fun _ ↦ rfl)
      fun _ ↦ (and_iff_right rfl).trans (forall_prop_of_true rfl)
  · refine iff_of_false ?_ fun h ↦ hstate h.1
    rintro ⟨m, w, -, r, hr, hsame⟩
    obtain ⟨r, -, rfl⟩ : ∃ r', _ ∧ (MaybeState.value, r') = r := Go.map_eq_ok.mp hr
    exact hstate hsame.1.symm

mutual
theorem FieldType.roundTrips_iff_kept (h : Rereads f P Q) (hid : ∀ place, newUUID place ≠ "") :
    (field : FieldType) → field.Distinct → (name : String) → (place : List String) →
      (v : field.Val) → (field.RoundTrips newUUID f name place v ↔ field.Kept P Q name v)
  | .plain kind, _, _, _, v => FieldType.roundTrips_plain h hid kind v
  | .maybe kind, _, _, _, v => FieldType.roundTrips_maybe h kind v
  | .ptr type, _, _, _, none => by
    rw [FieldType.roundTrips_of_eq_ok rfl rfl]
    exact Iff.rfl
  | .ptr type, hd, name, place, some v => by
    rw [FieldType.roundTrips_ptr, type.roundTrips_iff_kept h hid hd, FieldType.Kept]
  | .maybeStruct type, _, _, _, (.undefined, v) => by
    rw [FieldType.roundTrips_of_eq_ok rfl rfl]
    exact iff_of_true ⟨rfl, nofun⟩ nofun
  | .maybeStruct type, _, _, _, (.null, v) => by
    rw [FieldType.roundTrips_of_eq_ok rfl rfl]
    exact iff_of_true ⟨rfl, nofun⟩ nofun
  | .maybeStruct type, hd, name, place, (.value, v) => by
    rw [FieldType.roundTrips_maybeStruct, type.roundTrips_iff_kept h hid hd, FieldType.Kept,
      forall_prop_of_true rfl]
  | .slice elem, _, _, _, none => by
    rw [FieldType.roundTrips_of_eq_ok rfl rfl]
    exact Iff.rfl
  | .slice (.plain kind), _, _, _, some vs => FieldType.roundTrips_slice_plain h kind vs
  | .slice (.maybe kind), hd, name, place, some vs =>
    (FieldType.roundTrips_slice (by nofun) vs).trans
      (eachElem_iff ((FieldType.maybe kind).roundTripsElem_iff h hid (by nofun) hd))
  | .slice (.ptr type), hd, name, place, some vs =>
    (FieldType.roundTrips_slice (by nofun) vs).trans
      (eachElem_iff ((FieldType.ptr type).roundTripsElem_iff h hid (by nofun) hd))
  | .slice (.maybeStruct type), hd, name, place, some vs =>
    (FieldType.roundTrips_slice (by nofun) vs).trans
      (eachElem_iff ((FieldType.maybeStruct type).roundTripsElem_iff h hid (by nofun) hd))
  | .slice (.slice elem), hd, name, place, some vs =>
    (FieldType.roundTrips_slice (by nofun) vs).trans
      (eachElem_iff ((FieldType.slice elem).roundTripsElem_iff h hid (by nofun) hd))

theorem FieldType.roundTripsElem_iff (h : Rereads f P Q) (hid : ∀ place, newUUID place ≠ "") :
    (elem : FieldType) → (∀ kind, elem ≠ .plain kind) → elem.Distinct → (place : List String) →
      (v : elem.Val) → (elem.RoundTripsElem newUUID f place v ↔ elem.KeptElem P Q v)
  | .plain kind, helem, _, _, _ => (helem kind rfl).elim
  | .maybe kind, _, _, _, v => by
    refine iff_of_false ?_ id
    rintro ⟨m, w, -, r, hr, -⟩
    exact Go.panicf_ne_ok _ _ _ hr
  | .ptr type, _, _, _, none => iff_of_true ⟨none, none, rfl, none, rfl, trivial⟩ trivial
  | .ptr type, _, hd, place, some v => by
    rw [FieldType.roundTripsElem_ptr, type.roundTrips_iff_kept h hid hd, FieldType.KeptElem]
  | .maybeStruct type, _, hd, place, (state, v) => by
    rw [FieldType.roundTripsElem_maybeStruct, type.roundTrips_iff_kept h hid hd, FieldType.KeptElem]
  | .slice elem, _, _, _, v => by
    refine iff_of_false ?_ id
    rintro ⟨m, w, -, r, hr, -⟩
    exact Go.panicf_ne_ok _ _ _ hr

/-- **A structure comes back if and only if it is kept.** -/
theorem StructType.roundTrips_iff_kept (h : Rereads f P Q) (hid : ∀ place, newUUID place ≠ "") :
    (type : StructType) → type.Distinct → (place : List String) → (v : type.Val) →
      (type.RoundTrips newUUID f place v ↔ type.Kept P Q v)
  | .nil, _, _, v => iff_of_true ⟨[], v, rfl, v, rfl, trivial⟩ trivial
  | .cons name field rest, hd, place, (v, vs) => by
    obtain ⟨hname, hfield, hrest⟩ := hd
    rw [StructType.roundTrips_cons hname, rest.roundTrips_iff_kept h hid hrest, StructType.Kept,
      FieldType.RoundTripsKnown, field.roundTrips_iff_kept h hid hfield]
end

end Structures

/-! ## With and without JSON -/

section Kept

variable {P Q P' Q' : ℤ → Prop}

mutual
theorem FieldType.Kept.mono (hP : ∀ n, P n → P' n) (hQ : ∀ n, Q n → Q' n) :
    (field : FieldType) → (name : String) → (v : field.Val) → field.Kept P Q name v →
      field.Kept P' Q' name v
  | .plain .string, _, _, h => h
  | .plain .int, _, v, h => hP v h
  | .plain .float, _, _, h => h
  | .plain .bool, _, _, h => h
  | .maybe .int, _, v, h => fun hv ↦ hP v.value (h hv)
  | .maybe .string, _, _, h => h
  | .maybe .float, _, _, h => h
  | .maybe .bool, _, _, h => h
  | .ptr _, _, none, h => h
  | .ptr type, _, some v, h => StructType.Kept.mono hP hQ type v h
  | .maybeStruct type, _, v, h => fun hv ↦ StructType.Kept.mono hP hQ type v.2 (h hv)
  | .slice _, _, none, h => h
  | .slice elem, _, some _, h => fun v hv ↦ FieldType.KeptElem.mono hP hQ elem v (h v hv)

theorem FieldType.KeptElem.mono (hP : ∀ n, P n → P' n) (hQ : ∀ n, Q n → Q' n) :
    (elem : FieldType) → (v : elem.Val) → elem.KeptElem P Q v → elem.KeptElem P' Q' v
  | .plain .int, v, h => hQ v h
  | .plain .string, _, h => h
  | .plain .float, _, h => h
  | .plain .bool, _, h => h
  | .maybe _, _, h => h
  | .ptr _, none, h => h
  | .ptr type, some v, h => StructType.Kept.mono hP hQ type v h
  | .maybeStruct type, v, h => ⟨h.1, StructType.Kept.mono hP hQ type v.2 h.2⟩
  | .slice _, _, h => h

/-- More is kept of fewer integers. -/
theorem StructType.Kept.mono (hP : ∀ n, P n → P' n) (hQ : ∀ n, Q n → Q' n) :
    (type : StructType) → (v : type.Val) → type.Kept P Q v → type.Kept P' Q' v
  | .nil, _, h => h
  | .cons name field rest, v, h => by
    refine ⟨?_, StructType.Kept.mono hP hQ rest v.2 h.2⟩
    by_cases hname : known name = true
    · have hfield := h.1
      rw [if_pos hname] at hfield ⊢
      exact FieldType.Kept.mono hP hQ field name v.1 hfield
    · have hfield := h.1
      rw [if_neg hname] at hfield ⊢
      exact hfield
end

theorem StructType.kept_cons {name : String} {field : FieldType} {rest : StructType}
    {v : field.Val} {vs : rest.Val} (hname : known name = true) (hfield : field.Kept P Q name v)
    (hrest : rest.Kept P Q vs) : (StructType.cons name field rest).Kept P Q (v, vs) := by
  rw [Kept, if_pos hname]
  exact ⟨hfield, hrest⟩

end Kept

section Json

variable [FloatConversion] [TextEngine]

/-- **A structure survives**: it comes back from its map, and from the map with integers that were
read again from JSON. -/
def StructType.Survives (newUUID : List String → String) (type : StructType) (place : List String)
    (v : type.Val) : Prop :=
  type.RoundTrips newUUID .int place v ∧ type.RoundTrips newUUID float64Of place v

/-- **When a structure survives**: when it is kept, with no integers in slices and with others that
a `float64` can be. -/
theorem survives_iff {newUUID : List String → String} (hid : ∀ place, newUUID place ≠ "")
    (type : StructType) (hd : type.Distinct) (place : List String) (v : type.Val) :
    (type.RoundTrips newUUID .int place v ↔ type.Kept (fun _ ↦ True) (fun _ ↦ True) v) ∧
      (type.Survives newUUID place v ↔ type.Kept Exact (fun _ ↦ False) v) := by
  have hint := type.roundTrips_iff_kept rereads_int hid hd place v
  refine ⟨hint, ?_⟩
  rw [StructType.Survives, hint, type.roundTrips_iff_kept rereads_float64 hid hd place v]
  exact and_iff_right_of_imp (StructType.Kept.mono (fun _ _ ↦ trivial) (fun _ ↦ False.elim) type v)

omit [FloatConversion] [TextEngine] in
/-- A network with a name that is null and a list of ports with one port. -/
theorem survives_network : letI := amd64
    letI := placeholders
    let port : StructType := .cons "id" (.plain .string) (.cons "mtu" (.maybe .int) .nil)
    let network : StructType := .cons "id" (.plain .string) (.cons "name" (.maybe .string)
      (.cons "ports" (.slice (.ptr port)) .nil))
    network.Survives (fun _ ↦ "new") []
      ("n1", ⟨.null, ""⟩, some [some ("p1", ⟨.value, 1500⟩, ())], ()) := by
  intro port network
  have hexact : @Exact amd64 placeholders 1500 := @int64OfFloat_intCast amd64 1500 (by decide)
  have hport : port.Kept (@Exact amd64 placeholders) (fun _ ↦ False) ("p1", ⟨.value, 1500⟩, ()) :=
    StructType.kept_cons (by decide) (fun _ ↦ by decide)
      (StructType.kept_cons (by decide) (fun _ ↦ hexact) trivial)
  refine ((@survives_iff amd64 placeholders _ (fun _ ↦ by decide) network ?_ [] _).2).mpr ?_
  · simp [network, port, StructType.Distinct, FieldType.Distinct, StructType.names]
  · refine StructType.kept_cons (by decide) (fun _ ↦ by decide) (StructType.kept_cons (by decide)
      trivial (StructType.kept_cons (by decide) (fun p hp ↦ ?_) trivial))
    rw [List.mem_singleton] at hp
    exact hp ▸ hport

omit [FloatConversion] [TextEngine] in
/-- A slice of slices cannot be put into a map. -/
theorem not_survives_array : letI := amd64
    letI := placeholders
    let general : StructType := .cons "id" (.plain .string)
      (.cons "array" (.slice (.slice (.plain .float))) .nil)
    general.toMap (fun _ ↦ "new") [] ("g1", some [some [1]], ()) =
        Go.panicf "reflect: call of reflect.Value.Elem on slice Value" ∧
      ¬ general.Survives (fun _ ↦ "new") [] ("g1", some [some [1]], ()) := by
  intro general
  refine ⟨rfl, ?_⟩
  rintro ⟨⟨m, w, hm, -⟩, -⟩
  cases hm

end Json

end Gohan.Goplugin
