import Gohan.Lang.Value
import Mathlib.Data.List.Sort

/-!
# The properties of a schema in the converter

The converter makes Go code from schemas.  It reads the definition of a schema into a tree of items:
arrays, objects with their properties, and plain items.  The tree is compressed by its hash, so that
equal objects become one type, and the properties of one object can be added to those of another.

A pointer to a property is its name with the place where the property was allocated.  Inside an item
there are no pointers: below the properties of a schema, compressing only decides which of two equal
items is used, and what the Go type of an object is called.
-/

set_option autoImplicit false

namespace Gohan.Converter

/-! ## Hashes -/

/-- `hash.Node`: the hash of a string, and its length. -/
structure HashNode where
  value : ℕ
  length : ℕ
  deriving DecidableEq

/-- What the converter uses of other packages. -/
class Packages where
  /-- `snaker.SnakeToCamel`. -/
  snakeToCamel : String → String
  /-- `strconv.FormatFloat(…, 'E', -1, 64)`. -/
  formatFloat : ℚ → String
  /-- `sort.Sort(byHash(…))`, for nodes with one ancestor. -/
  sortByHash : {α : Type} → (α → HashNode) → List α → List α
  /-- The sort is not stable. -/
  sortByHash_perm : ∀ {α : Type} (value : α → HashNode) (nodes : List α),
    (sortByHash value nodes).Perm nodes

namespace HashNode

/-- The modulus, a prime below 2 ^ 32. -/
def mod : ℕ := 0xFFFFFFFB

/-- The base of the powers. -/
def base : ℕ := 0x101

/-- `AddMod`. -/
def addMod (x y mod : ℕ) : ℕ :=
  let result := x + y
  if mod ≤ result then result - mod else result

/-- `MulMod`. -/
def mulMod (x y mod : ℕ) : ℕ :=
  let result := x * y
  if mod ≤ result then result % mod else result

/-- The sum, for the modulus of the nodes. -/
def add (x y : ℕ) : ℕ := addMod x y mod

/-- The product, for the modulus of the nodes. -/
def mul (x y : ℕ) : ℕ := mulMod x y mod

/-- `hash.powers[i]`. -/
def power : ℕ → ℕ
  | 0 => 1
  | i + 1 => mul (power i) base

/-- The loop of `Calc`; a position is counted in bytes. -/
def calcFrom : List Char → ℕ → ℕ → ℕ
  | [], _, value => value
  | char :: string, i, value =>
    calcFrom string (i + char.utf8Size) (add value (mul char.toNat (power i)))

/-- `Calc`. -/
def calcHash (string : String) : HashNode := ⟨calcFrom string.toList 0 0, string.utf8ByteSize⟩

/-- `Join`. -/
def join (first second : HashNode) : HashNode :=
  ⟨add first.value (mul second.value (power first.length)), first.length + second.length⟩

/-- `joinHashes`. -/
def joinHashes (item : String) (nodes : List HashNode) : HashNode :=
  let result := nodes.foldl (fun result node ↦ join (join result node) (calcHash ","))
    (calcHash (item ++ "("))
  join result (calcHash ")")

end HashNode

/-! ## Types and default values -/

/-- `AddName`: the prefix and the suffix, with an underscore between them. -/
def addName (pfx suffix : String) : String := if pfx = "" then suffix else pfx ++ "_" ++ suffix

/-- The names of types that are others in Go. -/
def typeMapping : List (String × String) :=
  [("integer", "int"), ("number", "float64"), ("boolean", "bool"), ("abstract", "object")]

/-- `mapType`. -/
def mapType (typeName : String) : String := (typeMapping.lookup typeName).getD typeName

/-- `ParseType`: the Go type, and whether null is allowed. -/
def parseType (itemType : Value) : Go (String × Bool) :=
  let unsupported : Go (String × Bool) := .errorf "unsupported type: %T" [itemType]
  match itemType with
  | .str goType => .ok (mapType goType, false)
  | .list goType =>
    let (result, null) := goType.foldl (fun (result, null) singleType ↦
      match singleType with
      | .str "null" => (result, true)
      | .str strType => (if result = "" then mapType strType else result, null)
      | _ => (result, null)) ("", false)
    if result = "" then unsupported else .ok (result, null)
  | _ => unsupported

/-- The default of a plain item. -/
inductive PlainDefaults where
  | string (value : String)
  | int (value : ℤ)
  | bool (value : Bool)
  | float (value : ℚ)

/-- `CreatePlainDefaults`. -/
def createPlainDefaults : Value → Option PlainDefaults
  | .str value => some (.string value)
  | .int value => some (.int value)
  | .bool value => some (.bool value)
  | .float value => some (.float value)
  | _ => none

/-! ## Items -/

/-- An item, with the data that parsing and compressing are about. -/
inductive Item where
  | array (arrayItem : Item)
  | object (objectType : String) (properties : List (String × Item)) (required : List String)
  | plain (itemType : String) (null required : Bool) (defaultValue : Option PlainDefaults)

/-- The constructor that `CreateItem` calls. -/
inductive ItemType where
  | array
  | object
  | plain

/-- `createItemFromString`. -/
def createItemFromString : String → ItemType
  | "array" => .array
  | "object" => .object
  | _ => .plain

/-- `CreateItem`: which item a type asks for. -/
def createItem (itemType : Value) : Go ItemType := do
  let (strType, _) ← parseType itemType
  .ok (createItemFromString strType)

namespace Item

/-- `IsNull`: may the item have no value? -/
def isNull : Item → Bool
  | .plain _ null required _ => null || !required
  | _ => false

/-- `MakeRequired`. -/
def makeRequired : Item → Item
  | .plain itemType null _ defaultValue => .plain itemType null true defaultValue
  | item => item

end Item

variable [Packages]

/-- `Write`: the default as it stands in Go code. -/
def PlainDefaults.write : PlainDefaults → String
  | .string value => "\"" ++ value ++ "\""
  | .int value => toString value
  | .bool value => toString value
  | .float value => Packages.formatFloat value

mutual
/-- The hash of the node for an item. -/
def Item.hash : Item → HashNode
  | .array arrayItem => HashNode.joinHashes "#[]" [arrayItem.hash]
  | .object _ properties _ => HashNode.joinHashes "#*"
      (((hashProperties properties).insertionSort fun p q ↦ p.1 ≤ q.1).map (·.2))
  | .plain itemType null required defaultValue =>
    HashNode.joinHashes ("#" ++ itemType ++ "," ++ toString (null || !required) ++ ","
      ++ (defaultValue.map PlainDefaults.write).getD "") []

/-- The names of the properties with the hashes of their nodes. -/
def hashProperties : List (String × Item) → List (String × HashNode)
  | [] => []
  | (name, item) :: properties =>
    (name, HashNode.joinHashes name [item.hash]) :: hashProperties properties
end

/-! ## Parsing -/

/-- `ParseContext`, without the data. -/
structure ParseContext where
  Prefix : String
  Level : ℕ
  Required : Bool
  Defaults : Value

/-- `parseRequired`: the names under `required`. -/
def parseRequired (data : List (String × Value)) : Go (List String) :=
  match data.lookup "required" with
  | none => .ok []
  | some (.list list) => list.mapM fun element ↦
      match element with
      | .str elementString => .ok elementString
      | _ => .errorf "required should be a list of strings"
  | some _ => .errorf "required should be a list of strings"

/-- An error with the place it is about. -/
def inContext {α : Type} (format : String) (place : String) (x : Go α) : Go α :=
  match x with
  | .error (.error inner args) => .errorf format (.str place :: .str inner :: args)
  | result => result

/-- The name of a field in Go. -/
def goName (name : String) : String :=
  Packages.snakeToCamel (String.ofList (name.toList.map fun c ↦ if c = '-' then '_' else c))

/-- `defaultValues[property]`. -/
def defaultsOf (defaults : Value) (property : String) : Value :=
  match defaults with
  | .map defaultValues => (defaultValues.lookup property).getD .nil
  | _ => .nil

/-- What `Property.Parse` finds out before its item is parsed: the type of the item, and the context
for it. -/
def parseHead (name : String) (context : ParseContext) (data : List (String × Value)) :
    Go (ItemType × ParseContext) :=
  let path := addName context.Prefix name
  match data.lookup "type" with
  | none => .errorf "property %s does not have a type" [.str path]
  | some objectType => do
    let itemType ← inContext "property %s: %v" path (createItem objectType)
    .ok (itemType, {
      Prefix := path
      Level := context.Level + 1
      Required := context.Required || goName name == "ID"
      Defaults := (data.lookup "default").getD context.Defaults })

mutual
/-- `Parse` of an item of the given type. -/
def parseItem (itemType : ItemType) (context : ParseContext) : Value → Go Item
  | .map data =>
    match itemType with
    | .array => do .ok (.array (← parseArrayItem context data))
    | .object => do
      let required ← inContext "object %s: %v" context.Prefix (parseRequired data)
      let properties ← parseProperties required context data
      .ok (.object context.Prefix properties (if context.Level ≤ 1 then required else []))
    | .plain =>
      match data.lookup "type" with
      | none => .errorf "item %s does not have a type" [.str context.Prefix]
      | some objectType => do
        let (itemType, null) ← inContext "item %s: %v" context.Prefix (parseType objectType)
        .ok (.plain itemType null ((data.lookup "default").isSome || context.Required)
          (createPlainDefaults context.Defaults))
  | _ => .panicf "interface conversion: interface {} is not map[interface {}]interface {}"

/-- The item of an array: the one under `items`. -/
def parseArrayItem (context : ParseContext) : List (String × Value) → Go Item
  | [] => .errorf "array %s does not have items" [.str context.Prefix]
  | (key, items) :: data =>
    if key = "items" then
      match items with
      | .map next =>
        match next.lookup "type" with
        | none => .errorf "items of array %s do not have a type" [.str context.Prefix]
        | some objectType => do
          let itemType ← inContext "array %s: %v" context.Prefix (createItem objectType)
          parseItem itemType context (.map next)
      | _ => .errorf "array %s does not have items" [.str context.Prefix]
    else parseArrayItem context data

/-- The properties of an object: those under `properties`. -/
def parseProperties (required : List String) (context : ParseContext) :
    List (String × Value) → Go (List (String × Item))
  | [] => .ok []
  | (key, properties) :: data =>
    if key = "properties" then
      match properties with
      | .map next => parseEach required context next
      | _ => .errorf "object %s has invalid properties" [.str context.Prefix]
    else parseProperties required context data

/-- The loop over the properties of an object. -/
def parseEach (required : List String) (context : ParseContext) :
    List (String × Value) → Go (List (String × Item))
  | [] => .ok []
  | (property, definition) :: next =>
    match definition with
    | .map data => do
      let (itemType, itemContext) ← parseHead property { context with
        Required := required.contains property
        Defaults := defaultsOf context.Defaults property } data
      let item ← parseItem itemType itemContext (.map data)
      let items ← parseEach required context next
      .ok ((property, item) :: items)
    | _ => .errorf "object %s has invalid property %s" [.str context.Prefix, .str property]
end

/-- `Property.Parse`: the item of the property. -/
def parseProperty (name : String) (context : ParseContext) (data : List (String × Value)) :
    Go Item := do
  let (itemType, context) ← parseHead name context data
  parseItem itemType context (.map data)

/-! ## Items that are parsed -/

omit [Packages] in
@[simp] theorem inContext_eq_ok {α : Type} {format place : String} {x : Go α} {a : α} :
    inContext format place x = .ok a ↔ x = .ok a := by
  unfold inContext
  split
  · simp
  · exact Iff.rfl

variable {required : List String} {context : ParseContext} {next data : List (String × Value)}
  {properties : List (String × Item)}

/-- The definitions of properties are maps. -/
theorem parseEach_eq_ok (h : parseEach required context next = .ok properties) :
    properties.map (·.1) = next.map (·.1) ∧ ∀ e ∈ next, ∃ data, e.2 = .map data := by
  induction next generalizing properties with
  | nil =>
    rw [parseEach] at h
    obtain rfl := Except.ok.inj h
    exact ⟨rfl, fun e he ↦ absurd he List.not_mem_nil⟩
  | cons e next ih =>
    obtain ⟨property, definition⟩ := e
    cases definition with
    | map data =>
      rw [parseEach] at h
      obtain ⟨⟨itemType, itemContext⟩, -, h⟩ := Go.bind_eq_ok.mp h
      obtain ⟨item, -, h⟩ := Go.bind_eq_ok.mp h
      obtain ⟨items, hitems, h⟩ := Go.bind_eq_ok.mp h
      obtain rfl := Except.ok.inj h
      obtain ⟨hnames, hmaps⟩ := ih hitems
      refine ⟨congrArg (property :: ·) hnames, fun e he ↦ ?_⟩
      rcases List.mem_cons.mp he with rfl | he
      · exact ⟨data, rfl⟩
      · exact hmaps e he
    | _ => exact absurd h (Go.errorf_ne_ok _ _ _)

/-- The properties of an object are those of the map under `properties`, if there is one. -/
theorem parseProperties_eq_ok (h : parseProperties required context data = .ok properties) :
    ∃ next, (data.lookup "properties").getD (.map []) = .map next ∧
      parseEach required context next = .ok properties := by
  induction data with
  | nil =>
    rw [parseProperties] at h
    refine ⟨[], rfl, ?_⟩
    rwa [parseEach]
  | cons e data ih =>
    obtain ⟨key, value⟩ := e
    unfold parseProperties at h
    by_cases hkey : key = "properties"
    · rw [if_pos hkey] at h
      subst hkey
      rw [List.lookup_cons_self, Option.getD_some]
      cases value with
      | map next => exact ⟨next, rfl, h⟩
      | _ => exact absurd h (Go.errorf_ne_ok _ _ _)
    · rw [if_neg hkey] at h
      have hbeq : ("properties" == key) = false := by simpa using Ne.symm hkey
      rw [List.lookup_cons, hbeq]
      exact ih h

theorem parseProperty_eq_object {name objectType : String}
    (h : parseProperty name context data = .ok (.object objectType properties required)) :
    ∃ required context, parseProperties required context data = .ok properties := by
  obtain ⟨⟨itemType, itemContext⟩, -, h⟩ := Go.bind_eq_ok.mp h
  simp only [parseItem] at h
  cases itemType with
  | array =>
    obtain ⟨item, -, h⟩ := Go.bind_eq_ok.mp h
    cases h
  | object =>
    obtain ⟨required', -, h⟩ := Go.bind_eq_ok.mp h
    obtain ⟨properties', hproperties, h⟩ := Go.bind_eq_ok.mp h
    cases h
    exact ⟨required', itemContext, hproperties⟩
  | plain =>
    simp only at h
    split at h
    · exact absurd h (Go.errorf_ne_ok _ _ _)
    · obtain ⟨itemType, -, h⟩ := Go.bind_eq_ok.mp h
      cases h

end Gohan.Converter
