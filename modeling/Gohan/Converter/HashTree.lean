import Gohan.Converter.Hash
import Gohan.Converter.Item
import Gohan.Logic.Rose

/-!
# The hashes of a tree

What implements `IHashable` is a tree of texts.  `calcHashes` gives every node of it the hash of the
text of the node and of the hashes of its children, by joining; the table of powers is shared by all
of them.  `hash_laws` says that this is the hash of the text that the whole tree below the node is
written as.
-/

set_option autoImplicit false

namespace Gohan.Converter

open Hash (Node nodeOf)

/-! ## Trees -/

mutual
/-- What a tree is written as. -/
def serialize : Rose String → String
  | .node label children => label ++ "(" ++ serializeAll children ++ ")"

/-- The texts of some trees, each with a comma. -/
def serializeAll : List (Rose String) → String
  | [] => ""
  | t :: ts => serialize t ++ "," ++ serializeAll ts
end

/-- The loop of `joinHashes`. -/
def joinAll : List Node → Hash → Node → Go (Node × Hash)
  | [], hash, result => .ok (result, hash)
  | node :: nodes, hash, result => do
    let (result, hash) ← hash.join result node
    let (comma, hash) ← hash.calcHash ","
    let (result, hash) ← hash.join result comma
    joinAll nodes hash result

/-- `joinHashes`: the hash of an object or an array, from those of its parts. -/
def joinHashes (hash : Hash) (item : String) (nodes : List Node) : Go (Node × Hash) := do
  let (result, hash) ← hash.calcHash (item ++ "(")
  let (result, hash) ← joinAll nodes hash result
  let (close, hash) ← hash.calcHash ")"
  hash.join result close

mutual
/-- `calcHashes`: the values of the nodes, and the table afterwards. -/
def calcHashes : Rose String → Hash → Go (Rose Node × Hash)
  | .node label children, hash => do
    let (children, hash) ← calcAllHashes children hash
    let (value, hash) ← joinHashes hash label (children.map Rose.label)
    .ok (.node value children, hash)

/-- The hashes of some trees. -/
def calcAllHashes : List (Rose String) → Hash → Go (List (Rose Node) × Hash)
  | [], hash => .ok ([], hash)
  | t :: ts, hash => do
    let (t, hash) ← calcHashes t hash
    let (ts, hash) ← calcAllHashes ts hash
    .ok (t :: ts, hash)
end

/-! ## Joining nodes -/

/-- Nodes are joined as strings are put together. -/
theorem join_nodeOf (hash : Hash) (first second : String) : ∃ hash',
    hash.join (nodeOf first) (nodeOf second) = .ok (nodeOf (first ++ second), hash') := by
  rw [nodeOf, nodeOf, nodeOf, Hash.fingerprint_append]
  exact ⟨_, Hash.join_eq hash _ _⟩

theorem calcHash_eq_ok (hash : Hash) (string : String) : ∃ hash',
    hash.calcHash string = .ok (nodeOf string, hash') := ⟨_, Hash.calcHash_eq hash string⟩

theorem joinAll_eq (strings : List (Rose String)) (hash : Hash) (result : String) : ∃ hash',
    joinAll (strings.map fun t ↦ nodeOf (serialize t)) hash (nodeOf result) =
      .ok (nodeOf (result ++ serializeAll strings), hash') := by
  induction strings generalizing hash result with
  | nil => exact ⟨hash, by rw [serializeAll, String.append_empty]; rfl⟩
  | cons t strings ih =>
    obtain ⟨hash₁, hjoin⟩ := join_nodeOf hash result (serialize t)
    obtain ⟨hash₂, hcomma⟩ := calcHash_eq_ok hash₁ ","
    obtain ⟨hash₃, hjoin'⟩ := join_nodeOf hash₂ (result ++ serialize t) ","
    obtain ⟨hash', hrest⟩ := ih hash₃ (result ++ serialize t ++ ",")
    refine ⟨hash', ?_⟩
    rw [List.map_cons, joinAll, hjoin, Go.ok_bind]
    dsimp only
    rw [hcomma, Go.ok_bind]
    dsimp only
    rw [hjoin', Go.ok_bind]
    dsimp only
    rw [hrest, serializeAll]
    simp only [String.append_assoc]

theorem joinHashes_eq (hash : Hash) (label : String) (children : List (Rose String)) : ∃ hash',
    joinHashes hash label (children.map fun t ↦ nodeOf (serialize t)) =
      .ok (nodeOf (serialize (.node label children)), hash') := by
  obtain ⟨hash₁, hopen⟩ := calcHash_eq_ok hash (label ++ "(")
  obtain ⟨hash₂, hall⟩ := joinAll_eq children hash₁ (label ++ "(")
  obtain ⟨hash₃, hclose⟩ := calcHash_eq_ok hash₂ ")"
  obtain ⟨hash', hjoin⟩ := join_nodeOf hash₃ (label ++ "(" ++ serializeAll children) ")"
  refine ⟨hash', ?_⟩
  rw [joinHashes, hopen, Go.ok_bind]
  dsimp only
  rw [hall, Go.ok_bind]
  dsimp only
  rw [hclose, Go.ok_bind]
  dsimp only
  rw [hjoin, serialize]

theorem calcAllHashes_eq {ts : List (Rose String)}
    (h : ∀ t ∈ ts, ∀ hash, ∃ hash', calcHashes t hash =
      .ok (t.annotate fun s ↦ nodeOf (serialize s), hash')) (hash : Hash) :
    ∃ hash', calcAllHashes ts hash =
      .ok (ts.map (Rose.annotate fun s ↦ nodeOf (serialize s)), hash') := by
  induction ts generalizing hash with
  | nil => exact ⟨hash, rfl⟩
  | cons t ts ih =>
    obtain ⟨hash₁, ht⟩ := h t List.mem_cons_self hash
    obtain ⟨hash', hts⟩ := ih (fun s hs ↦ h s (List.mem_cons_of_mem _ hs)) hash₁
    refine ⟨hash', ?_⟩
    rw [calcAllHashes, ht, Go.ok_bind]
    dsimp only
    rw [hts, Go.ok_bind]
    rfl

/-- **Every node has the hash of what the tree below it is written as.** -/
theorem calcHashes_eq (t : Rose String) (hash : Hash) : ∃ hash',
    calcHashes t hash = .ok (t.annotate fun s ↦ nodeOf (serialize s), hash') := by
  induction t using Rose.induct generalizing hash with
  | node label children ih =>
    obtain ⟨hash₁, hchildren⟩ := calcAllHashes_eq ih hash
    obtain ⟨hash', hjoin⟩ := joinHashes_eq hash₁ label children
    refine ⟨hash', ?_⟩
    rw [calcHashes, hchildren, Go.ok_bind]
    dsimp only
    rw [List.map_map, show (Rose.label ∘ Rose.annotate fun s ↦ nodeOf (serialize s)) =
      fun t : Rose String ↦ nodeOf (serialize t) from funext fun t ↦ Rose.label_annotate _ t,
      hjoin, Go.ok_bind, Rose.annotate, Rose.annotateAll_eq_map]

/-! ## The laws of hashes -/

/-- `Calc` gives a node for a string, in any state of the table. -/
def Calcs (string : String) (node : Node) : Prop :=
  ∀ hash : Hash, ∃ hash', hash.calcHash string = .ok (node, hash')

/-- `Join` gives a node for two, in any state of the table. -/
def Joins (first second node : Node) : Prop :=
  ∀ hash : Hash, ∃ hash', hash.join first second = .ok (node, hash')

theorem calcs_nodeOf (string : String) : Calcs string (nodeOf string) :=
  fun hash ↦ calcHash_eq_ok hash string

theorem Calcs.eq {string : String} {node : Node} (h : Calcs string node) :
    node = nodeOf string := by
  obtain ⟨hash', hcalc⟩ := h .new
  rw [Hash.calcHash_eq] at hcalc
  exact (Prod.mk.inj (Except.ok.inj hcalc)).1.symm

/-- **The laws of hashes.**  The hash of two strings is joined from theirs, joining is associative,
the arithmetic stays in its range, and a node of a tree has the hash of what is written for the tree
below it. -/
theorem hash_laws :
    (∀ a b, ∃ x y z, Calcs a x ∧ Calcs b y ∧ Joins x y z ∧ Calcs (a ++ b) z) ∧
    (∀ a b c x y z, Calcs a x → Calcs b y → Calcs c z →
      ∃ xy yz w, Joins x y xy ∧ Joins y z yz ∧ Joins xy z w ∧ Joins x yz w) ∧
    (∀ hash a, Hash.CalcInRange hash a) ∧
    (∀ hash a b x y, Calcs a x → Calcs b y → Hash.JoinInRange hash x y) ∧
    ∀ t hash, ∃ values hash', calcHashes t hash = .ok (values, hash') ∧
      ∀ place s, t.sub? place = some s →
        ∃ v, values.sub? place = some v ∧ Calcs (serialize s) v.label := by
  refine ⟨fun a b ↦ ⟨_, _, _, calcs_nodeOf a, calcs_nodeOf b, fun hash ↦ join_nodeOf hash a b,
    calcs_nodeOf _⟩, fun a b c x y z hx hy hz ↦ ?_, Hash.calcInRange, fun hash a b x y hx _ ↦ ?_,
    fun t hash ↦ ?_⟩
  · obtain rfl := hx.eq
    obtain rfl := hy.eq
    obtain rfl := hz.eq
    refine ⟨_, _, _, fun hash ↦ join_nodeOf hash a b, fun hash ↦ join_nodeOf hash b c,
      fun hash ↦ join_nodeOf hash (a ++ b) c, fun hash ↦ ?_⟩
    rw [String.append_assoc]
    exact join_nodeOf hash a (b ++ c)
  · rw [hx.eq]
    exact Hash.joinInRange hash (Node.value_of_lt _) y
  · obtain ⟨hash', h⟩ := calcHashes_eq t hash
    refine ⟨_, hash', h, fun place s hs ↦
      ⟨s.annotate fun s ↦ nodeOf (serialize s), ?_, ?_⟩⟩
    · rw [Rose.sub?_annotate, hs, Option.map_some]
    · rw [Rose.label_annotate]
      exact calcs_nodeOf _

/-! ## Items -/

section Items

variable [Packages]

mutual
/-- The tree of an item: what `GetChildren` and `ToString` give for the nodes. -/
def Item.tree : Item → Rose String
  | .array arrayItem => .node "#[]" [arrayItem.tree]
  | .object _ properties _ => .node "#*"
      (((propertyTrees properties).insertionSort fun p q ↦ p.1 ≤ q.1).map (·.2))
  | .plain itemType null required defaultValue =>
    .node ("#" ++ itemType ++ "," ++ toString (null || !required) ++ ","
      ++ (defaultValue.map PlainDefaults.write).getD "") []

/-- The names of the properties with their trees. -/
def propertyTrees : List (String × Item) → List (String × Rose String)
  | [] => []
  | (name, item) :: properties => (name, .node name [item.tree]) :: propertyTrees properties
end

/-- The tree of a property. -/
def propertyTree (name : String) (item : Item) : Rose String := .node name [item.tree]

end Items

end Gohan.Converter
