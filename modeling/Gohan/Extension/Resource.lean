import Gohan.Extension.Struct

/-!
# From maps to structures and back

`resourceFromMap` fills a new structure from a map, and `ResourceToMap` makes a map of a structure.
The two look at the types of the fields in turn, each with cases of its own.

* A field that is not in the map stays as it is in a new structure, and so does a plain field that
  is null there.
* What is undefined, and a pointer or a slice that is nil, is not put into a map.  An identifier
  that is empty is replaced by a new one, in the map and in the structure, at every depth.
* The elements of a slice are read and written by other functions than fields: a wrapper is taken
  for a structure of its own there, and a slice for a pointer.

Package `reflectx` knows the fields of a structure by their names; those with an empty name and with
the name `-` it leaves out.
-/

set_option autoImplicit false

namespace Gohan.Goplugin

open Sync

/-! ## Kinds -/

namespace Kind

/-- `reflect.Kind`. -/
def name : Kind → String
  | .string => "string"
  | .int => "int"
  | .float => "float64"
  | .bool => "bool"

/-- A value of a kind, as an interface has it. -/
def iface : (kind : Kind) → kind.Val → Iface
  | .string, s => .str s
  | .int, n => .int n
  | .float, q => .float q
  | .bool, b => .bool b

end Kind

/-! The messages of package `reflect` name types; here a type is given by its kind. -/

/-- A value is put where it does not fit. -/
def notAssignable {α : Type} (source target : String) : Go α :=
  .panicf "reflect.Set: value of type %s is not assignable to type %s" [.str source, .str target]

/-- `field.Set(reflect.ValueOf(v))`, where the value does not fit. -/
def setUnfit {α : Type} (v : Iface) (target : String) : Go α :=
  match v with
  | .nil => .panicf "reflect: call of reflect.Value.Set on zero Value"
  | v => notAssignable v.kind target

/-- `v.(T)`, where this is not the type of the value. -/
def typeAssertion {α : Type} (v : Iface) (type : String) : Go α :=
  .panicf "interface conversion: interface \x7b\x7d is %s, not %s" [.str v.kind, .str type]

/-- `nestedField.Set(reflect.ValueOf(nestedValue))`. -/
def Kind.set : (kind : Kind) → Iface → Go kind.Val
  | .string, .str s => .ok s
  | .int, .int n => .ok n
  | .float, .float q => .ok q
  | .bool, .bool b => .ok b
  | kind, v => setUnfit v kind.name

section FromMap

variable [FloatConversion]

/-- `assignMapValueToField`, for a field of a new structure. -/
def assignMapValueToField : (kind : Kind) → Iface → String → Go kind.Val
  | kind, .nil, _ => .ok kind.zero
  | .string, .str s, _ => .ok s
  | .int, .int n, _ => .ok n
  | .int, .float q, _ => .ok (int64OfFloat q)
  | .float, .float q, _ => .ok q
  | .bool, .bool b, _ => .ok b
  | kind, v, fieldName => .errorf "invalid type of '%s' field (%s, expecting %s)"
      [.str fieldName, .str v.kind, .str kind.name]

/-- `setPrimitiveMaybe`, with the state that was set before.  An integer is left as it is if the
value is no number. -/
def setPrimitiveMaybe : (kind : Kind) → Iface → Go (Maybe kind.Val)
  | .string, .str s => .ok ⟨.value, s⟩
  | .string, v => typeAssertion v "string"
  | .int, .int n => .ok ⟨.value, n⟩
  | .int, .float q => .ok ⟨.value, int64OfFloat q⟩
  | .int, _ => .ok ⟨.value, Kind.int.zero⟩
  | .bool, .bool b => .ok ⟨.value, b⟩
  | .bool, v => typeAssertion v "bool"
  | .float, .float q => .ok ⟨.value, q⟩
  | .float, v => typeAssertion v "float64"

/-- `primitiveMaybeFromMap`, of what a map has under the name of the field. -/
def primitiveMaybeFromMap (kind : Kind) : Option Iface → Go (Maybe kind.Val)
  | none => .ok ⟨.undefined, kind.zero⟩
  | some .nil => .ok ⟨.null, kind.zero⟩
  | some v => setPrimitiveMaybe kind v

/-- What a slice is of. -/
def FieldType.kind : FieldType → String
  | .plain kind => kind.name
  | .maybe _ => "struct"
  | .ptr _ => "ptr"
  | .maybeStruct _ => "struct"
  | .slice _ => "slice"

/-- The field in a wrapper that holds the value is not exported. -/
def unexportedField {α : Type} : Go α :=
  .panicf "reflect.Value.Interface: cannot return value obtained from unexported field or method"

/-- The loop of `sliceToMap`, with a function for what becomes of an element. -/
def sliceOf {α β : Type} (elem : α → Go β) (vs : List α) : Go (Option (List β)) :=
  (vs.mapM elem).map some

mutual
/-- The loop of `resourceFromMap` over the fields of a new structure. -/
def StructType.fromMap : (type : StructType) → Entries → Go type.Val
  | .nil, _ => .ok ()
  | .cons name field rest, context => do
    let v ← (if name = "" then .ok field.zero else field.fromMap name (context.lookup name))
    let vs ← rest.fromMap context
    .ok (v, vs)

/-- The body of the loop of `resourceFromMap`, of what the map has under the name of the field. -/
def FieldType.fromMap : (field : FieldType) → String → Option Iface → Go field.Val
  | .maybeStruct type, _, mapValue =>
    match mapValue with
    | none => .ok (.undefined, type.zero)
    | some .nil => .ok (.null, type.zero)
    | some (.map m) => (type.fromMap m).map (MaybeState.value, ·)
    | some v => typeAssertion v "map[string]interface \x7b\x7d"
  | .maybe kind, _, mapValue => primitiveMaybeFromMap kind mapValue
  | .ptr type, _, mapValue =>
    match mapValue.getD .nil with
    | .nil => .ok none
    | .map m => (type.fromMap m).map some
    | v => typeAssertion v "map[string]interface \x7b\x7d"
  | .slice elem, _, mapValue =>
    -- `sliceToMap`
    match mapValue with
    | none => .ok none
    | some (.maps ms) => sliceOf (fun m ↦ elem.fromMaps m) ms
    | some (.list vs) => sliceOf (fun v ↦ elem.fromInterface v) vs
    | some .nil => .ok none
    | some (.str s) => if s = "" then .ok (some []) else notAssignable "uint8" elem.kind
    | some (.map m) => if m = [] then .ok (some []) else
        .panicf "reflect: call of reflect.Value.Index on map Value"
    | some v => .panicf "reflect: call of reflect.Value.Len on %s Value" [.str v.kind]
  | .plain kind, name, mapValue => assignMapValueToField kind (mapValue.getD .nil) name

/-- An element of a slice from one of a `[]map[string]interface{}`.  A wrapper is a structure here,
with a field that cannot be read. -/
def FieldType.fromMaps : (elem : FieldType) → Option Entries → Go elem.Val
  | .ptr _, none => .ok none
  | .ptr type, some context => (type.fromMap context).map some
  | .maybeStruct type, context => (type.fromMap (context.getD [])).map (MaybeState.value, ·)
  | .maybe _, _ => unexportedField
  | .plain kind, _ => notAssignable "map" kind.name
  | .slice _, _ => notAssignable "map" "slice"

/-- An element of a slice from one of a `[]interface{}`. -/
def FieldType.fromInterface : (elem : FieldType) → Iface → Go elem.Val
  | .ptr type, .map m => (type.fromMap m).map some
  | .plain kind, v => kind.set v
  | .ptr _, v => setUnfit v "ptr"
  | .maybe _, v => setUnfit v "struct"
  | .maybeStruct _, v => setUnfit v "struct"
  | .slice _, v => setUnfit v "slice"
end

end FromMap

/-! ## To maps -/

/-- The fields that package `reflectx` knows. -/
def known (name : String) : Bool := name != "" && name != "-"

/-- `primitiveMaybeToMap`. -/
def primitiveMaybeToMap (kind : Kind) (v : Maybe kind.Val) : Option Iface :=
  match v.state with
  | .undefined => none
  | .null => some .nil
  | .value => some (kind.iface v.value)

/-- A loop that makes something of every element of a slice and may change the element. -/
def eachElem {α β : Type} (elem : List String → α → Go (β × α)) (place : List String) :
    ℕ → List α → Go (List β × List α)
  | _, [] => .ok ([], [])
  | i, v :: vs => do
    let (b, v) ← elem (toString i :: place) v
    let (bs, vs) ← eachElem elem place (i + 1) vs
    .ok (b :: bs, v :: vs)

section ToMap

variable (newUUID : List String → String)

mutual
/-- `ResourceToMap`: the map, and the structure as it is left.  `newUUID` gives the identifiers that
are made, by the place in the structure that they are made for. -/
def StructType.toMap : (type : StructType) → List String → type.Val → Go (Entries × type.Val)
  | .nil, _, _ => .ok ([], ())
  | .cons name field rest, place, v => do
    let (entry, w) ← (if known name then field.toMap name place v.1 else .ok (none, v.1))
    let (entries, ws) ← rest.toMap place v.2
    .ok (entry.toList.map (name, ·) ++ entries, (w, ws))

/-- The body of the loop of `ResourceToMap`: what is put under the name of the field, if
anything. -/
def FieldType.toMap : (field : FieldType) → String → List String → field.Val →
    Go (Option Iface × field.Val)
  | .plain .string, name, place, v =>
    if name = "id" ∧ v = "" then .ok (some (.str (newUUID place)), newUUID place)
    else .ok (some (.str v), v)
  | .plain .int, _, _, v => .ok (some (.int v), v)
  | .plain .float, _, _, v => .ok (some (.float v), v)
  | .plain .bool, _, _, v => .ok (some (.bool v), v)
  | .maybe kind, _, _, v => .ok (primitiveMaybeToMap kind v, v)
  | .maybeStruct type, name, place, v =>
    match v.1 with
    | .undefined => .ok (none, v)
    | .null => .ok (some .nil, v)
    | .value => do
      let (m, w) ← type.toMap (name :: place) v.2
      .ok (some (.map m), (.value, w))
  | .ptr _, _, _, none => .ok (none, none)
  | .ptr type, name, place, some v => do
    let (m, w) ← type.toMap (name :: place) v
    .ok (some (.map m), some w)
  | .slice _, _, _, none => .ok (none, none)
  | .slice (.plain kind), _, _, some vs => .ok (some (.list (vs.map kind.iface)), some vs)
  | .slice elem, name, place, some vs => do
    let (ms, ws) ← eachElem (fun place v ↦ elem.toMaps place v) (name :: place) 0 vs
    .ok (some (.maps ms), some ws)

/-- The body of the loop of `sliceToMapWithMappableElems`.  There are no fields in a wrapper that
package `reflectx` knows at its first level, and a slice that is not nil is no pointer. -/
def FieldType.toMaps : (elem : FieldType) → List String → elem.Val →
    Go (Option Entries × elem.Val)
  | .ptr _, _, none => .ok (none, none)
  | .ptr type, place, some v => do
    let (m, w) ← type.toMap place v
    .ok (some m, some w)
  | .maybeStruct type, place, v => do
    let (m, w) ← type.toMap place v.2
    .ok (some m, (v.1, w))
  | .maybe _, _, v => .ok (some [], v)
  | .slice _, _, none => .ok (none, none)
  | .slice _, _, some _ => .panicf "reflect: call of reflect.Value.Elem on slice Value"
  | .plain _, _, v => .ok (none, v)
end

end ToMap

end Gohan.Goplugin
