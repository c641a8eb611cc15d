import Gohan.Db.Handlers

/-!
# Structures of resources

An extension sees a resource as a structure, of a type that was generated from a schema.  A field
is plain, a wrapper around a plain value, a pointer to a structure, a structure that may be
undefined or null, or a slice of any of these.

A type is described by a `StructType`, and `StructType.Val` has the values of the type, so a value
cannot be of another type than its own.  On the other side there are maps, with values behind an
`interface{}`; what comes out of a structure may be a `[]map[string]interface{}`, which no other
part of the program knows, so `Iface` has it besides `[]interface{}`.
-/

set_option autoImplicit false

namespace Gohan.Goplugin

open Sync

/-! ## Types -/

/-- The kinds of plain fields. -/
inductive Kind where
  | string
  | int
  | float
  | bool
  deriving DecidableEq

/-- The values of a kind. -/
@[reducible] def Kind.Val : Kind → Type
  | .string => String
  | .int => ℤ
  | .float => ℚ
  | .bool => Bool

mutual
/-- The type of a field. -/
inductive FieldType where
  | plain (kind : Kind)
  /-- `MaybeString`, `MaybeInt`, `MaybeFloat` and `MaybeBool`. -/
  | maybe (kind : Kind)
  | ptr (type : StructType)
  /-- A structure in which `Maybe` is embedded. -/
  | maybeStruct (type : StructType)
  | slice (elem : FieldType)

/-- The fields of a structure by their names in JSON, in order. -/
inductive StructType where
  | nil
  | cons (name : String) (field : FieldType) (rest : StructType)
end

mutual
/-- The values of a field. -/
@[reducible] def FieldType.Val : FieldType → Type
  | .plain kind => kind.Val
  | .maybe kind => Maybe kind.Val
  | .ptr type => Option type.Val
  | .maybeStruct type => MaybeState × type.Val
  | .slice elem => Option (List elem.Val)

/-- The values of a structure, field by field. -/
@[reducible] def StructType.Val : StructType → Type
  | .nil => Unit
  | .cons _ field rest => field.Val × rest.Val
end

/-- The names under which the fields are found in a map. -/
def StructType.names : StructType → List String
  | .nil => []
  | .cons name _ rest => name :: rest.names

mutual
/-- No two fields of a structure have one name. -/
def FieldType.Distinct : FieldType → Prop
  | .plain _ => True
  | .maybe _ => True
  | .ptr type => type.Distinct
  | .maybeStruct type => type.Distinct
  | .slice elem => elem.Distinct

/-- No two fields of a structure have one name, and so it is in the structures within. -/
def StructType.Distinct : StructType → Prop
  | .nil => True
  | .cons name field rest => name ∉ rest.names ∧ field.Distinct ∧ rest.Distinct
end

/-! ## Values -/

/-- The zero value of a kind. -/
def Kind.zero : (kind : Kind) → kind.Val
  | .string => ""
  | .int => (0 : ℤ)
  | .float => (0 : ℚ)
  | .bool => false

mutual
/-- The value of a field in a new structure. -/
def FieldType.zero : (field : FieldType) → field.Val
  | .plain kind => kind.zero
  | .maybe kind => ⟨.undefined, kind.zero⟩
  | .ptr _ => none
  | .maybeStruct type => (.undefined, type.zero)
  | .slice _ => none

/-- `reflect.New`. -/
def StructType.zero : (type : StructType) → type.Val
  | .nil => ()
  | .cons _ field rest => (field.zero, rest.zero)
end

mutual
/-- Two fields are equal.  What is in a wrapper counts when the wrapper has a value. -/
def FieldType.Same : (field : FieldType) → field.Val → field.Val → Prop
  | .plain _, v, w => v = w
  | .maybe _, v, w => v.state = w.state ∧ (v.state = .value → v.value = w.value)
  | .ptr _, none, none => True
  | .ptr type, some v, some w => type.Same v w
  | .ptr _, none, some _ => False
  | .ptr _, some _, none => False
  | .maybeStruct type, v, w => v.1 = w.1 ∧ (v.1 = .value → type.Same v.2 w.2)
  | .slice _, none, none => True
  | .slice elem, some vs, some ws => List.Forall₂ elem.Same vs ws
  | .slice _, none, some _ => False
  | .slice _, some _, none => False

/-- **Two structures are equal.** -/
def StructType.Same : (type : StructType) → type.Val → type.Val → Prop
  | .nil, _, _ => True
  | .cons _ field rest, v, w => field.Same v.1 w.1 ∧ rest.Same v.2 w.2
end

/-! ## Maps -/

/-- The values in a map. -/
inductive Iface where
  | nil
  | bool (b : Bool)
  | int (n : ℤ)
  | float (q : ℚ)
  | str (s : String)
  /-- `[]interface{}`. -/
  | list (vs : List Iface)
  /-- `[]map[string]interface{}`, in which a map may be nil. -/
  | maps (ms : List (Option (List (String × Iface))))
  | map (m : List (String × Iface))

/-- `map[string]interface{}`. -/
abbrev Entries := List (String × Iface)

namespace Iface

/-- The kind that package `reflect` sees. -/
def kind : Iface → String
  | .nil => "invalid"
  | .bool _ => "bool"
  | .int _ => "int"
  | .float _ => "float64"
  | .str _ => "string"
  | .list _ => "slice"
  | .maps _ => "slice"
  | .map _ => "map"

mutual
/-- A map, or a part of one, with other values for its integers. -/
def mapInts (f : ℤ → Iface) : Iface → Iface
  | .nil => .nil
  | .bool b => .bool b
  | .int n => f n
  | .float q => .float q
  | .str s => .str s
  | .list vs => .list (mapIntsList f vs)
  | .maps ms => .maps (mapIntsMaps f ms)
  | .map m => .map (mapIntsEntries f m)

/-- The numbers in a list are replaced. -/
def mapIntsList (f : ℤ → Iface) : List Iface → List Iface
  | [] => []
  | v :: vs => v.mapInts f :: mapIntsList f vs

/-- The numbers in maps are replaced. -/
def mapIntsMaps (f : ℤ → Iface) :
    List (Option (List (String × Iface))) → List (Option (List (String × Iface)))
  | [] => []
  | none :: ms => none :: mapIntsMaps f ms
  | some m :: ms => some (mapIntsEntries f m) :: mapIntsMaps f ms

/-- The numbers in a map are replaced. -/
def mapIntsEntries (f : ℤ → Iface) : List (String × Iface) → List (String × Iface)
  | [] => []
  | (name, v) :: m => (name, v.mapInts f) :: mapIntsEntries f m
end

end Iface

end Gohan.Goplugin
