import Mathlib.Data.Char
import Mathlib.Data.List.Lex
import Mathlib.Data.List.Sort
import Mathlib.Data.List.Dedup
import Mathlib.Data.List.Perm.Basic
import Gohan.Logic.Truncate

/-!
# Fetching a tree from etcd

etcd has keys and no directories.  `Fetch` asks for all keys that begin with the given one, as
strings, and makes a tree of them: `recursiveFetch` sorts the keys into groups by what they are up
to the next slash, and `handleSingleChild` makes a chain of the last key of a group.  Keys such as
`/a/bc`, which begin with `/a/b` but are not below it, are to be dropped when a chain has come to
its end.

`Fetches` is what the tree should be.  It often is not (`not_fetches`):

* A key with a value and with keys below it is its own child, and the root has no value.
* When all keys are beside the one asked for and there are at least two, the root is one of them.
  It is so too when one of them sorts before those below, as `/a/b-c` does before `/a/b/c`.
* A chain whose end is dropped keeps a nil child where the end was.

`fetch_fetches_iff` says exactly when the tree is right.  Where `substrN` cuts an absolute key is
where `List.truncate` does (`substrN_eq`), and `Grows` says of one call of `recursiveFetch` what the
tree is: the conditions on a group and on all its children differ only in the children that are one
level down (`housed_commonChild`, `housed_succ`).
-/

set_option autoImplicit false

namespace Gohan.Etcd

/-! ## The source -/

/-- The characters of a key. -/
abbrev Key := List Char

/-- A key with its value and the revision of its last change. -/
structure KeyValue where
  key : Key
  value : List Char
  modRevision : ℕ
  /-- Revisions begin with 1. -/
  positive : 0 < modRevision
  deriving DecidableEq

/-- All that is stored, ordered by the keys. -/
structure Store where
  kvs : List KeyValue
  sorted : kvs.Pairwise (·.key < ·.key)

/-- A pointer to a node of the tree. -/
inductive Node where
  | nil
  | node (key : Key) (value : List Char) (revision : ℕ) (children : List Node)

/-- There is no node. -/
def Node.isNil : Node → Bool
  | .nil => true
  | .node .. => false

@[simp] theorem Node.isNil_nil : Node.nil.isNil = true := rfl

@[simp] theorem Node.isNil_node (key : Key) (value : List Char) (revision : ℕ)
    (children : List Node) : (Node.node key value revision children).isNil = false := rfl

/-- The loop of `substrN`: `n` more separators are to be found from the index on. -/
def substrFrom (s : Key) (substr : Char) : ℕ → ℕ → Key
  | 0, idx => s.take (idx - 1)
  | n + 1, idx =>
    match (s.drop idx).idxOf? substr with
    | none => s
    | some tmp => substrFrom s substr n (idx + tmp + 1)

/-- `substrN`: what comes before the separator number `n`, not counting the first character. -/
def substrN (s : Key) (substr : Char) (n : ℕ) : Key := substrFrom s substr n 1

/-- What the parts of a key are separated by. -/
def sep : Char := '/'

/-- `handleSingleChild`.  The first argument bounds the number of calls. -/
def handleSingleChild : ℕ → ℕ → KeyValue → Key → Node
  | 0, _, _, _ => .nil
  | fuel + 1, curr, child, rootKey =>
    let key := substrN child.key sep curr
    if child.key = key then
      if child.key ≠ rootKey ∧ child.key.take (rootKey.length + 1) ≠ rootKey ++ [sep] then .nil
      else .node child.key child.value child.modRevision []
    else .node key [] 0 [handleSingleChild fuel (curr + 1) child rootKey]

/-- The names of the groups, in order. -/
def groupNames (curr : ℕ) (children : List KeyValue) : List Key :=
  ((children.map fun child ↦ substrN child.key sep (curr + 1)).dedup).insertionSort (· ≤ ·)

/-- The group of a name. -/
def commonChild (curr : ℕ) (children : List KeyValue) (name : Key) : List KeyValue :=
  children.filter fun child ↦ decide (substrN child.key sep (curr + 1) = name)

/-- `recursiveFetch`. -/
def recursiveFetch : ℕ → ℕ → List KeyValue → Key → Node
  | 0, _, _, _ => .nil
  | _ + 1, _, [], _ => .nil
  | fuel + 1, curr, [child], rootKey => handleSingleChild (fuel + 1) curr child rootKey
  | fuel + 1, curr, first :: second :: rest, rootKey =>
    let children := first :: second :: rest
    let nodes := ((groupNames curr children).map fun name ↦
      recursiveFetch fuel (curr + 1) (commonChild curr children name) rootKey).filter (!·.isNil)
    .node (substrN first.key sep curr) [] 0 nodes

/-- The keys that begin with the given one. -/
def Store.scan (store : Store) (key : Key) : List KeyValue :=
  store.kvs.filter fun kv ↦ key.isPrefixOf kv.key

/-- No key has more slashes than all keys together. -/
def kvsBound (kvs : List KeyValue) : ℕ := (kvs.flatMap (·.key)).count sep

/-- `Fetch`, where nil stands for `KeyNotFound`. -/
def Store.fetch (store : Store) (key : Key) : Node :=
  let kvs := store.scan key
  recursiveFetch (kvsBound kvs + 2) (max 1 (key.count sep)) kvs key

/-! ## What the tree should be -/

/-- Is it the key, or below it? -/
def KeyValue.Below (key : Key) (kv : KeyValue) : Prop := kv.key = key ∨ key ++ [sep] <+: kv.key

instance (key : Key) (kv : KeyValue) : Decidable (kv.Below key) :=
  inferInstanceAs (Decidable (_ ∨ _))

/-- What is stored below a key. -/
def Store.below (store : Store) (key : Key) : List KeyValue :=
  store.kvs.filter fun kv ↦ decide (kv.Below key)

namespace Node

/-- The key of a node. -/
def key : Node → Key
  | .nil => []
  | .node key _ _ _ => key

mutual
/-- The nodes with a value. -/
def stored : Node → List KeyValue
  | .nil => []
  | .node key value revision children =>
    (if h : 0 < revision then [⟨key, value, revision, h⟩] else []) ++ storedList children

/-- `stored` for a list of children. -/
def storedList : List Node → List KeyValue
  | [] => []
  | child :: children => stored child ++ storedList children
end

mutual
/-- No child is nil, and the children are ordered by their keys. -/
def Proper : Node → Prop
  | .nil => True
  | .node _ _ _ children => children.Pairwise (·.key < ·.key) ∧ ProperList children

/-- `Proper` for all children, none of which is nil. -/
def ProperList : List Node → Prop
  | [] => True
  | child :: children => child.isNil = false ∧ Proper child ∧ ProperList children
end

/-- The node has the key and the value that are stored. -/
def Carries (kv : KeyValue) : Node → Prop
  | .nil => False
  | .node key value revision _ => key = kv.key ∧ value = kv.value ∧ revision = kv.modRevision

end Node

/-- The answer for a key. -/
structure Fetches (store : Store) (key : Key) (result : Node) : Prop where
  keyNotFound : result.isNil = true ↔ store.below key = []
  root : result.isNil = false → result.key = key
  value : ∀ kv ∈ store.kvs, kv.key = key → result.Carries kv
  stored : result.stored.Perm (store.below key)
  proper : result.Proper

/-! ## When it is that -/

/-- What comes before the last slash. -/
def directory (key : Key) : Key := key.truncate sep (key.count sep - 1)

/-- What is left of the key is at most one level, or the directory of the key has other keys too. -/
def Housed (depth : ℕ) (children : List KeyValue) (child : KeyValue) : Prop :=
  child.key.count sep ≤ depth ∨
    ∃ other ∈ children, other.key ≠ child.key ∧ other.Below (directory child.key)

instance (depth : ℕ) (children : List KeyValue) (child : KeyValue) :
    Decidable (Housed depth children child) := inferInstanceAs (Decidable (_ ∨ _))

/-- The stored keys from which the tree of a key is made as it should be. -/
def Store.Fetchable (store : Store) (key : Key) : Prop :=
  match store.scan key with
  | [] => True
  | [child] => child.Below key ∨ child.key.count sep = key.count sep
  | first :: second :: rest =>
    first.Below key ∧ (∀ kv ∈ store.kvs, kv.key ≠ key) ∧
      ∀ child ∈ first :: second :: rest,
        child.Below key ∨ Housed (key.count sep + 1) (first :: second :: rest) child

/-! ## Cutting keys -/

/-- The key begins with a slash. -/
def Absolute (key : Key) : Prop := ∃ l, key = sep :: l

theorem substrFrom_append (n : ℕ) (a : Key) (l : Key) :
    substrFrom (a ++ l) sep (n + 1) a.length = a ++ l.truncate sep n := by
  induction n generalizing a l with
  | zero =>
    unfold substrFrom
    rw [List.drop_left]
    cases hidx : l.idxOf? sep with
    | none => rw [List.truncate_of_notMem (List.idxOf?_eq_none_iff.mp hidx)]
    | some i => simp [substrFrom, List.take_append, (List.take_idxOf hidx 0).1, Nat.add_assoc]
  | succ n ih =>
    unfold substrFrom
    rw [List.drop_left]
    cases hidx : l.idxOf? sep with
    | none => rw [List.truncate_of_notMem (List.idxOf?_eq_none_iff.mp hidx)]
    | some i =>
      have hlt : i < l.length := (List.idxOf?_eq_some_iff.mp hidx).1
      have hlength : (a ++ l.take (i + 1)).length = a.length + i + 1 := by
        simp only [List.length_append, List.length_take]
        omega
      have hrest := ih (a ++ l.take (i + 1)) (l.drop (i + 1))
      rw [hlength, List.append_assoc, List.take_append_drop, List.append_assoc] at hrest
      rw [(List.take_idxOf hidx n).2]
      exact hrest

/-- The code cuts an absolute key at the separator number `n` of the rest, which is the next one. -/
theorem substrN_eq {key : Key} (h : Absolute key) (n : ℕ) :
    substrN key sep n = key.truncate sep n := by
  obtain ⟨l, rfl⟩ := h
  cases n with
  | zero => simp [substrN, substrFrom]
  | succ n =>
    rw [List.truncate_succ_sep]
    exact substrFrom_append n [sep] l

theorem below_iff {key : Key} {kv : KeyValue} :
    kv.Below key ↔ kv.key.truncate sep (key.count sep) = key := (List.truncate_eq_iff rfl).symm

/-- What `handleSingleChild` checks at the end of a chain. -/
theorem not_below_iff {key : Key} {kv : KeyValue} :
    kv.key ≠ key ∧ kv.key.take (key.length + 1) ≠ key ++ [sep] ↔ ¬kv.Below key := by
  have hstart : key ++ [sep] <+: kv.key ↔ kv.key.take (key.length + 1) = key ++ [sep] := by
    rw [List.prefix_iff_eq_take, List.length_append, List.length_singleton, eq_comm]
  rw [KeyValue.Below, hstart, not_or]

theorem count_directory (key : Key) : (directory key).count sep = key.count sep - 1 := by
  rw [directory, List.count_truncate]
  omega

/-- The keys in a directory are those that are the same up to its last slash. -/
theorem below_directory_iff {key : Key} {kv : KeyValue} :
    kv.Below (directory key) ↔
      kv.key.truncate sep (key.count sep - 1) = key.truncate sep (key.count sep - 1) := by
  rw [below_iff, count_directory, directory]

/-! ## One child -/

/-- What the tree of some children is, when these are the same up to the separator `depth`. -/
structure Grows (key : Key) (depth : ℕ) (children : List KeyValue) (result : Node) : Prop where
  nil : result.isNil = true ↔ ∀ child ∈ children,
    children = [child] ∧ ¬child.Below key ∧ child.key.count sep ≤ depth
  root : result.isNil = false → ∀ child ∈ children, result.key = child.key.truncate sep depth
  stored : result.stored.Perm (children.filter fun child ↦ decide (child.Below key))
  proper : result.Proper ↔ ∀ child ∈ children, child.Below key ∨ Housed depth children child

theorem housed_singleton {depth : ℕ} {child : KeyValue} :
    Housed depth [child] child ↔ child.key.count sep ≤ depth := by
  simp [Housed]

theorem grows_handleSingleChild (key : Key) {child : KeyValue} (habs : Absolute child.key)
    (fuel depth : ℕ) (h0 : 0 < fuel) (hfuel : child.key.count sep < depth + fuel) :
    Grows key depth [child] (handleSingleChild fuel depth child key) := by
  induction fuel generalizing depth with
  | zero => exact absurd h0 (Nat.lt_irrefl 0)
  | succ fuel ih =>
    simp only [handleSingleChild, substrN_eq habs, eq_comm (a := child.key),
      List.truncate_eq_self_iff, not_below_iff]
    by_cases hend : child.key.count sep ≤ depth
    · rw [if_pos hend]
      by_cases hbelow : child.Below key
      · rw [if_neg (not_not.mpr hbelow)]
        refine ⟨by simp [hbelow], ?_, ?_, ?_⟩
        · simp [Node.key, List.truncate_eq_self_iff.mpr hend]
        · simp [Node.stored, Node.storedList, child.positive, hbelow]
        · simp [Node.Proper, Node.ProperList, hbelow]
      · rw [if_pos hbelow]
        refine ⟨by simp [hbelow, hend], by simp, ?_, ?_⟩
        · simp [Node.stored, hbelow]
        · simp [Node.Proper, housed_singleton, hend]
    · rw [if_neg hend]
      have hrest := ih (depth + 1) (by omega) (by omega)
      refine ⟨by simp [hend], by simp [Node.key], ?_, ?_⟩
      · simpa [Node.stored, Node.storedList] using hrest.stored
      · have hnil : (handleSingleChild fuel (depth + 1) child key).isNil = false ↔
            child.Below key ∨ ¬child.key.count sep ≤ depth + 1 := by
          rw [← Bool.not_eq_true, hrest.nil]
          simp only [List.mem_singleton, forall_eq, true_and]
          tauto
        have hproper := hrest.proper
        simp only [List.mem_singleton, forall_eq, housed_singleton] at hproper ⊢
        simp only [Node.Proper, Node.ProperList, List.pairwise_singleton, hnil, hproper, hend]
        tauto

/-! ## Several children -/

/-- The keys are different, and in order. -/
abbrev Ordered (children : List KeyValue) : Prop := children.Pairwise (·.key < ·.key)

theorem Ordered.nodup {children : List KeyValue} (h : Ordered children) : children.Nodup :=
  List.Pairwise.imp (S := (· ≠ ·)) (fun hlt heq ↦ lt_irrefl _ (heq ▸ hlt)) h

variable {key : Key} {depth : ℕ} {children : List KeyValue}

theorem mem_groupNames {name : Key} :
    name ∈ groupNames depth children ↔
      ∃ child ∈ children, substrN child.key sep (depth + 1) = name := by
  simp [groupNames, List.mem_insertionSort]

theorem pairwise_groupNames : (groupNames depth children).Pairwise (· < ·) := by
  have hsorted := List.pairwise_insertionSort (· ≤ ·)
    (children.map fun child ↦ substrN child.key sep (depth + 1)).dedup
  have hnodup : (groupNames depth children).Nodup :=
    (List.perm_insertionSort (· ≤ ·) _).nodup_iff.mpr (List.nodup_dedup _)
  exact (hsorted.and hnodup).imp fun h ↦ lt_of_le_of_ne h.1 h.2

theorem mem_commonChild {name : Key} {child : KeyValue} :
    child ∈ commonChild depth children name ↔
      child ∈ children ∧ substrN child.key sep (depth + 1) = name := by
  simp [commonChild]

/-- Every child is in one group. -/
theorem groups_perm (h : Ordered children) (p : KeyValue → Bool) :
    ((groupNames depth children).flatMap fun name ↦
      (commonChild depth children name).filter p).Perm (children.filter p) := by
  refine (List.perm_ext_iff_of_nodup ?_ (h.nodup.filter p)).mpr fun child ↦ ?_
  · refine List.nodup_flatMap.mpr ⟨fun name _ ↦ (h.nodup.filter _).filter p, ?_⟩
    refine pairwise_groupNames.imp fun {a b} hlt child ha hb ↦ hlt.ne ?_
    have ha' := (mem_commonChild.mp (List.mem_of_mem_filter ha)).2
    have hb' := (mem_commonChild.mp (List.mem_of_mem_filter hb)).2
    exact ha'.symm.trans hb'
  · simp only [List.mem_flatMap, List.mem_filter, mem_groupNames, mem_commonChild]
    constructor
    · rintro ⟨_, _, ⟨hmem, -⟩, hp⟩
      exact ⟨hmem, hp⟩
    · rintro ⟨hmem, hp⟩
      exact ⟨_, ⟨child, hmem, rfl⟩, ⟨hmem, rfl⟩, hp⟩

theorem Node.storedList_filter (nodes : List Node) :
    Node.storedList (nodes.filter (!·.isNil)) = nodes.flatMap Node.stored := by
  induction nodes with
  | nil => rfl
  | cons child nodes ih =>
    cases child with
    | nil => simpa [Node.stored] using ih
    | node => simp [Node.storedList, ih]

theorem Node.properList_filter (nodes : List Node) :
    Node.ProperList (nodes.filter (!·.isNil)) ↔ ∀ child ∈ nodes, child.Proper := by
  induction nodes with
  | nil => simp [Node.ProperList]
  | cons child nodes ih =>
    cases child with
    | nil => simpa [Node.Proper] using ih
    | node => simp [Node.ProperList, ih]

/-- A key in the directory of a child is in its group, when the child is further down. -/
theorem housed_commonChild (habs : ∀ child ∈ children, Absolute child.key) {child : KeyValue}
    (hmem : child ∈ children) :
    Housed (depth + 1) (commonChild depth children (substrN child.key sep (depth + 1))) child ↔
      Housed (depth + 1) children child := by
  refine or_congr_right' fun hdeep ↦ exists_congr fun other ↦ ?_
  rw [mem_commonChild, and_assoc]
  refine and_congr_right fun hother ↦ and_iff_right_of_imp fun hbelow ↦ ?_
  rw [substrN_eq (habs other hother), substrN_eq (habs child hmem)]
  exact List.truncate_congr (by omega) (below_directory_iff.mp hbelow.2)

/-- The children of a node, made from its groups. -/
theorem nodes_of_groups (h : Ordered children) (habs : ∀ child ∈ children, Absolute child.key)
    {f : Key → Node} (hf : ∀ name ∈ groupNames depth children,
      Grows key (depth + 1) (commonChild depth children name) (f name)) :
    let nodes := ((groupNames depth children).map f).filter (!·.isNil)
    (Node.storedList nodes).Perm (children.filter fun child ↦ decide (child.Below key)) ∧
      nodes.Pairwise (·.key < ·.key) ∧
      (Node.ProperList nodes ↔
        ∀ child ∈ children, child.Below key ∨ Housed (depth + 1) children child) := by
  refine ⟨?_, ?_, ?_⟩
  · rw [Node.storedList_filter, List.flatMap_map]
    exact (List.Perm.flatMap_left _ fun name hname ↦ (hf name hname).stored).trans
      (groups_perm h _)
  · have hroot (name) (hname : name ∈ groupNames depth children) (hnil : (f name).isNil = false) :
        (f name).key = name := by
      obtain ⟨child, hmem, rfl⟩ := mem_groupNames.mp hname
      rw [(hf _ hname).root hnil child (mem_commonChild.mpr ⟨hmem, rfl⟩),
        substrN_eq (habs child hmem)]
    rw [List.pairwise_filter, List.pairwise_map]
    refine pairwise_groupNames.imp_of_mem fun {a b} ha hb hlt hanil hbnil ↦ ?_
    rw [hroot a ha (by simpa using hanil), hroot b hb (by simpa using hbnil)]
    exact hlt
  · rw [Node.properList_filter]
    simp only [List.mem_map, forall_exists_index, and_imp, forall_apply_eq_imp_iff₂]
    constructor
    · intro hall child hmem
      have hname : substrN child.key sep (depth + 1) ∈ groupNames depth children :=
        mem_groupNames.mpr ⟨child, hmem, rfl⟩
      have hfine := (hf _ hname).proper.mp (hall _ hname) child (mem_commonChild.mpr ⟨hmem, rfl⟩)
      rwa [housed_commonChild habs hmem] at hfine
    · intro hall name hname
      refine (hf name hname).proper.mpr fun child hchild ↦ ?_
      obtain ⟨hmem, rfl⟩ := mem_commonChild.mp hchild
      rw [housed_commonChild habs hmem]
      exact hall child hmem

/-- The keys of a group are the same one separator further on. -/
theorem shared_commonChild (habs : ∀ child ∈ children, Absolute child.key) {name : Key} :
    ∀ a ∈ commonChild depth children name, ∀ b ∈ commonChild depth children name,
      a.key.truncate sep (depth + 1) = b.key.truncate sep (depth + 1) := by
  intro a ha b hb
  obtain ⟨ha, ha'⟩ := mem_commonChild.mp ha
  obtain ⟨hb, hb'⟩ := mem_commonChild.mp hb
  rw [← substrN_eq (habs a ha), ← substrN_eq (habs b hb), ha', hb']

/-- The children that `recursiveFetch` is given in the course of its calls: their keys are the same
up to the depth it has come to. -/
structure Siblings (n depth : ℕ) (children : List KeyValue) : Prop where
  count : ∀ child ∈ children, child.key.count sep ≤ n
  ordered : Ordered children
  absolute : ∀ child ∈ children, Absolute child.key
  shared : ∀ a ∈ children, ∀ b ∈ children,
    a.key.truncate sep depth = b.key.truncate sep depth

/-- They go on in groups. -/
theorem siblings_commonChild {n : ℕ} (hcount : ∀ child ∈ children, child.key.count sep ≤ n)
    (h : Ordered children) (habs : ∀ child ∈ children, Absolute child.key) (name : Key) :
    Siblings n (depth + 1) (commonChild depth children name) where
  count child hc := hcount child (List.mem_of_mem_filter hc)
  ordered := h.filter _
  absolute child hc := habs child (List.mem_of_mem_filter hc)
  shared := shared_commonChild habs

/-- Two keys that are the same up to a separator are in the directory of a key one level down. -/
theorem housed_succ {first second : KeyValue} {rest : List KeyValue}
    (hne : first.key ≠ second.key)
    (hshared : ∀ a ∈ first :: second :: rest, ∀ b ∈ first :: second :: rest,
      a.key.truncate sep depth = b.key.truncate sep depth)
    {child : KeyValue} (hmem : child ∈ first :: second :: rest) :
    Housed (depth + 1) (first :: second :: rest) child ↔
      Housed depth (first :: second :: rest) child := by
  constructor
  · rintro (hcount | hother)
    · rcases Nat.lt_or_eq_of_le hcount with hlt | heq
      · exact Or.inl (Nat.le_of_lt_succ hlt)
      · have hbelow : ∀ other ∈ first :: second :: rest,
            other.Below (directory child.key) := by
          intro other hother
          rw [below_directory_iff, heq, Nat.add_sub_cancel]
          exact hshared other hother child hmem
        refine Or.inr ?_
        by_cases hfirst : first.key = child.key
        · exact ⟨second, by simp, fun h ↦ hne (hfirst.trans h.symm), hbelow second (by simp)⟩
        · exact ⟨first, by simp, hfirst, hbelow first (by simp)⟩
    · exact Or.inr hother
  · rintro (hcount | hother)
    · exact Or.inl (Nat.le_succ_of_le hcount)
    · exact Or.inr hother

/-- Keys that are the same up to a separator, and are not the same, have more separators. -/
theorem lt_of_shared {first second : KeyValue} {rest : List KeyValue} {n : ℕ}
    (hcount : ∀ child ∈ first :: second :: rest, child.key.count sep ≤ n)
    (hne : first.key ≠ second.key)
    (hshared : ∀ a ∈ first :: second :: rest, ∀ b ∈ first :: second :: rest,
      a.key.truncate sep depth = b.key.truncate sep depth) : depth < n := by
  by_contra hge
  refine hne ?_
  rw [← List.truncate_eq_self_iff.mpr ((hcount first (by simp)).trans (Nat.not_lt.mp hge)),
    ← List.truncate_eq_self_iff.mpr ((hcount second (by simp)).trans (Nat.not_lt.mp hge))]
  exact hshared first (by simp) second (by simp)

/-- The tree that is made of some children is what their tree should be. -/
theorem grows_recursiveFetch {n fuel : ℕ} (h : Siblings n depth children) (hdepth : depth ≤ n + 1)
    (hfuel : n + 2 ≤ depth + fuel) :
    Grows key depth children (recursiveFetch fuel depth children key) := by
  induction fuel generalizing depth children with
  | zero => omega
  | succ fuel ih =>
    match children with
    | [] => exact ⟨by simp [recursiveFetch], by simp, by simp [recursiveFetch, Node.stored],
        by simp [recursiveFetch, Node.Proper]⟩
    | [child] =>
      have hc := h.count child (by simp)
      exact grows_handleSingleChild key (h.absolute child (by simp)) _ _ (by omega) (by omega)
    | first :: second :: rest =>
      obtain ⟨hcount, h, habs, hshared⟩ := h
      have hne : first.key ≠ second.key := (List.rel_of_pairwise_cons h (by simp)).ne
      have hlt : depth < n := lt_of_shared hcount hne hshared
      have hgroup (name : Key) (_ : name ∈ groupNames depth (first :: second :: rest)) :
          Grows key (depth + 1) (commonChild depth (first :: second :: rest) name)
            (recursiveFetch fuel (depth + 1) (commonChild depth (first :: second :: rest) name)
              key) :=
        ih (siblings_commonChild hcount h habs name) (by omega) (by omega)
      obtain ⟨hstored, hsorted, hproper⟩ := nodes_of_groups h habs hgroup
      refine ⟨⟨nofun, fun hall ↦ ?_⟩, fun _ child hmem ↦ ?_, hstored, ?_⟩
      · simpa using (hall first (by simp)).1
      · rw [hshared child hmem first (by simp), ← substrN_eq (habs first (by simp))]
        rfl
      · refine (and_iff_right hsorted).trans (hproper.trans ?_)
        exact forall₂_congr fun child hmem ↦ or_congr_right (housed_succ hne hshared hmem)

/-! ## The scan -/

variable {store : Store}

theorem Store.mem_scan {kv : KeyValue} :
    kv ∈ store.scan key ↔ kv ∈ store.kvs ∧ key <+: kv.key := by
  simp [Store.scan]

theorem KeyValue.Below.isPrefix {kv : KeyValue} (h : kv.Below key) : key <+: kv.key := by
  rcases h with heq | hstart
  · rw [heq]
  · exact (List.prefix_append _ _).trans hstart

theorem Store.below_eq (store : Store) (key : Key) :
    store.below key = (store.scan key).filter fun kv ↦ decide (kv.Below key) := by
  rw [Store.below, Store.scan, List.filter_filter]
  refine List.filter_congr fun kv _ ↦ ?_
  by_cases h : kv.Below key
  · simp [h, h.isPrefix]
  · simp [h]

theorem Store.ordered_scan (store : Store) (key : Key) : Ordered (store.scan key) :=
  store.sorted.filter _

theorem Absolute.of_isPrefix (h : Absolute key) {other : Key} (hstart : key <+: other) :
    Absolute other := by
  obtain ⟨l, rfl⟩ := h
  obtain ⟨r, rfl⟩ := hstart
  exact ⟨l ++ r, rfl⟩

theorem Absolute.count_pos (h : Absolute key) : 1 ≤ key.count sep := by
  obtain ⟨l, rfl⟩ := h
  simp

theorem Store.absolute_scan (h : Absolute key) : ∀ kv ∈ store.scan key, Absolute kv.key :=
  fun _ hkv ↦ h.of_isPrefix (Store.mem_scan.mp hkv).2

theorem count_le_kvsBound {kvs : List KeyValue} {kv : KeyValue} (h : kv ∈ kvs) :
    kv.key.count sep ≤ kvsBound kvs :=
  (List.sublist_flatten_of_mem (List.mem_map_of_mem h)).count_le sep

/-! ## Enough calls -/

theorem handleSingleChild_fuel {child : KeyValue} (habs : Absolute child.key) {fuel : ℕ}
    (h0 : 0 < fuel) (hfuel : child.key.count sep < depth + fuel) (more : ℕ) :
    handleSingleChild (fuel + more) depth child key = handleSingleChild fuel depth child key := by
  induction fuel generalizing depth with
  | zero => exact absurd h0 (Nat.lt_irrefl 0)
  | succ fuel ih =>
    rw [Nat.add_right_comm]
    simp only [handleSingleChild, substrN_eq habs, eq_comm (a := child.key),
      List.truncate_eq_self_iff]
    by_cases hend : child.key.count sep ≤ depth
    · rw [if_pos hend, if_pos hend]
    · rw [if_neg hend, if_neg hend, ih (by omega) (by omega)]

theorem recursiveFetch_singleton {fuel : ℕ} (h0 : 0 < fuel) (child : KeyValue) :
    recursiveFetch fuel depth [child] key = handleSingleChild fuel depth child key := by
  cases fuel with
  | zero => exact absurd h0 (Nat.lt_irrefl 0)
  | succ fuel => rfl

theorem recursiveFetch_fuel {n fuel : ℕ} (h : Siblings n depth children) (hdepth : depth ≤ n + 1)
    (hfuel : n + 2 ≤ depth + fuel) (more : ℕ) :
    recursiveFetch (fuel + more) depth children key = recursiveFetch fuel depth children key := by
  induction fuel generalizing depth children with
  | zero => omega
  | succ fuel ih =>
    rw [Nat.add_right_comm]
    match children with
    | [] => rfl
    | [child] =>
      have hc := h.count child (by simp)
      rw [recursiveFetch_singleton (by omega), recursiveFetch_singleton (by omega),
        Nat.add_right_comm]
      exact handleSingleChild_fuel (h.absolute child (by simp)) (by omega) (by omega) more
    | first :: second :: rest =>
      obtain ⟨hcount, h, habs, hshared⟩ := h
      have hne : first.key ≠ second.key := (List.rel_of_pairwise_cons h (by simp)).ne
      have hlt : depth < n := lt_of_shared hcount hne hshared
      simp only [recursiveFetch]
      congr 2
      exact List.map_congr_left fun name _ ↦
        ih (siblings_commonChild hcount h habs name) (by omega) (by omega)

/-- **`Fetch` is what the code computes**: its calls come to an end before the bound is reached. -/
theorem Store.fetch_fuel (store : Store) (h : Absolute key) (more : ℕ) :
    recursiveFetch (kvsBound (store.scan key) + 2 + more) (max 1 (key.count sep))
      (store.scan key) key = store.fetch key := by
  have hordered := store.ordered_scan key
  have habs := store.absolute_scan h
  have hlower : ∀ kv ∈ store.scan key, key.count sep ≤ kv.key.count sep :=
    fun kv hkv ↦ (Store.mem_scan.mp hkv).2.sublist.count_le sep
  have hcount : ∀ kv ∈ store.scan key, kv.key.count sep ≤ kvsBound (store.scan key) :=
    fun kv hkv ↦ count_le_kvsBound hkv
  simp only [Store.fetch, max_eq_right h.count_pos]
  generalize kvsBound (store.scan key) = n at hcount ⊢
  match hscan : store.scan key with
  | [] => rw [Nat.add_right_comm]; rfl
  | [child] =>
    rw [hscan] at habs hcount
    have hc := hcount child (by simp)
    rw [recursiveFetch_singleton (by omega), recursiveFetch_singleton (by omega)]
    exact handleSingleChild_fuel (habs child (by simp)) (by omega) (by omega) more
  | first :: second :: rest =>
    rw [hscan] at hordered habs hcount hlower
    have hle := (hlower first (by simp)).trans (hcount first (by simp))
    rw [show n + 2 + more = n + 1 + more + 1 by omega]
    simp only [recursiveFetch]
    congr 2
    exact List.map_congr_left fun name _ ↦ recursiveFetch_fuel
      (siblings_commonChild hcount hordered habs name) (by omega) (by omega) more

/-! ## The whole tree -/

theorem fetches_nil (hscan : store.scan key = []) : Fetches store key (store.fetch key) := by
  have hfetch : store.fetch key = .nil := by
    simp only [Store.fetch, hscan]
    rfl
  have hbelow : store.below key = [] := by rw [store.below_eq, hscan, List.filter_nil]
  refine ⟨by simp [hfetch, hbelow], by simp [hfetch], fun kv hkv heq ↦ ?_, ?_, ?_⟩
  · have hmem : kv ∈ store.scan key := Store.mem_scan.mpr ⟨hkv, heq ▸ List.prefix_rfl⟩
    simp [hscan] at hmem
  · simp [hfetch, hbelow, Node.stored]
  · simp [hfetch, Node.Proper]

theorem carries_handleSingleChild {child : KeyValue} (habs : Absolute child.key)
    (hkey : child.key = key) (fuel : ℕ) :
    (handleSingleChild (fuel + 1) (key.count sep) child key).Carries child := by
  subst hkey
  have hcut : substrN child.key sep (child.key.count sep) = child.key := by
    rw [substrN_eq habs, List.truncate_eq_self_iff]
  simp [handleSingleChild, hcut, Node.Carries]

theorem fetches_singleton_iff (h : Absolute key) {child : KeyValue}
    (hscan : store.scan key = [child]) :
    Fetches store key (store.fetch key) ↔
      child.Below key ∨ child.key.count sep = key.count sep := by
  have hmem := Store.mem_scan.mp (hscan ▸ List.mem_singleton_self child)
  have habs := h.of_isPrefix hmem.2
  have hle : key.count sep ≤ child.key.count sep := hmem.2.sublist.count_le sep
  have hfuel := count_le_kvsBound (List.mem_singleton_self child)
  have hfetch : store.fetch key =
      handleSingleChild (kvsBound [child] + 2) (key.count sep) child key := by
    simp only [Store.fetch, hscan, max_eq_right h.count_pos]
    rfl
  have hgrows := grows_handleSingleChild key habs (kvsBound [child] + 2) (key.count sep)
    (by omega) (by omega)
  rw [← hfetch] at hgrows
  have hbelow := store.below_eq key
  rw [hscan] at hbelow
  constructor
  · intro hf
    refine or_iff_not_imp_left.mpr fun hno ↦ ?_
    have hnil := hf.keyNotFound.mpr (by simp [hbelow, hno])
    exact (hgrows.nil.mp hnil child (by simp)).2.2.antisymm hle
  · intro hfine
    refine ⟨?_, fun hnil ↦ ?_, fun kv hkv heq ↦ ?_, hbelow ▸ hgrows.stored, ?_⟩
    · rw [hgrows.nil, hbelow]
      rcases hfine with hb | hcount
      · simp [hb]
      · simp [hcount]
    · have hb : child.Below key := by
        by_contra hb
        refine Bool.eq_false_iff.mp hnil (hgrows.nil.mpr fun other hother ↦ ?_)
        cases List.mem_singleton.mp hother
        exact ⟨rfl, hb, (hfine.resolve_left hb).le⟩
      rw [hgrows.root hnil child (by simp), below_iff.mp hb]
    · have hkv' : kv ∈ store.scan key := Store.mem_scan.mpr ⟨hkv, heq ▸ List.prefix_rfl⟩
      rw [hscan, List.mem_singleton] at hkv'
      subst hkv'
      rw [hfetch]
      exact carries_handleSingleChild habs heq _
    · refine hgrows.proper.mpr fun other hother ↦ ?_
      cases List.mem_singleton.mp hother
      exact hfine.imp_right fun hcount ↦ housed_singleton.mpr hcount.le

theorem fetches_cons_cons_iff (h : Absolute key) {first second : KeyValue} {rest : List KeyValue}
    (hscan : store.scan key = first :: second :: rest) :
    Fetches store key (store.fetch key) ↔
      first.Below key ∧ (∀ kv ∈ store.kvs, kv.key ≠ key) ∧
        ∀ child ∈ first :: second :: rest,
          child.Below key ∨ Housed (key.count sep + 1) (first :: second :: rest) child := by
  have hordered := store.ordered_scan key
  have habs := store.absolute_scan h
  have hbelow := store.below_eq key
  have hlower : ∀ kv ∈ store.scan key, key.count sep ≤ kv.key.count sep :=
    fun kv hkv ↦ (Store.mem_scan.mp hkv).2.sublist.count_le sep
  rw [hscan] at hordered habs hbelow hlower
  have hgroup (name : Key)
      (_ : name ∈ groupNames (key.count sep) (first :: second :: rest)) :
      Grows key (key.count sep + 1) (commonChild (key.count sep) (first :: second :: rest) name)
        (recursiveFetch (kvsBound (first :: second :: rest) + 1) (key.count sep + 1)
          (commonChild (key.count sep) (first :: second :: rest) name) key) := by
    have hn := count_le_kvsBound (List.mem_cons_self (a := first) (l := second :: rest))
    have hle := hlower first List.mem_cons_self
    exact grows_recursiveFetch
      (siblings_commonChild (fun child hc ↦ count_le_kvsBound hc) hordered habs name)
      (by omega) (by omega)
  obtain ⟨hstored, hsorted, hproper⟩ := nodes_of_groups hordered habs hgroup
  have hfetch : store.fetch key = .node (first.key.truncate sep (key.count sep)) [] 0
      (((groupNames (key.count sep) (first :: second :: rest)).map fun name ↦
        recursiveFetch (kvsBound (first :: second :: rest) + 1) (key.count sep + 1)
          (commonChild (key.count sep) (first :: second :: rest) name) key).filter
            (!·.isNil)) := by
    rw [← substrN_eq (habs first List.mem_cons_self)]
    simp only [Store.fetch, hscan, max_eq_right h.count_pos]
    rfl
  rw [hfetch]
  constructor
  · intro hf
    refine ⟨below_iff.mpr (hf.root rfl), fun kv hkv heq ↦ ?_, hproper.mp hf.proper.2⟩
    have hrevision : 0 = kv.modRevision := (hf.value kv hkv heq).2.2
    exact kv.positive.ne hrevision
  · rintro ⟨hfirst, hkey, hfine⟩
    refine ⟨⟨nofun, fun hnil ↦ ?_⟩, fun _ ↦ below_iff.mp hfirst,
      fun kv hkv heq ↦ absurd heq (hkey kv hkv), ?_, hsorted, hproper.mpr hfine⟩
    · have hmem : first ∈ store.below key := by simp [hbelow, hfirst]
      simp [hnil] at hmem
    · rw [hbelow]
      exact hstored

/-- **When `Fetch` returns the tree that it should.** -/
theorem fetch_fetches_iff (store : Store) (key : Key) (h : Absolute key) :
    Fetches store key (store.fetch key) ↔ store.Fetchable key := by
  unfold Store.Fetchable
  match hscan : store.scan key with
  | [] => exact iff_true_intro (fetches_nil hscan)
  | [child] => exact fetches_singleton_iff h hscan
  | first :: second :: rest => exact fetches_cons_cons_iff h hscan

/-- A value at `/a/b` followed by the rest of a key. -/
def atAB (rest : Key) : KeyValue := ⟨['/', 'a', '/', 'b'] ++ rest, ['x'], 1, Nat.one_pos⟩

/-- `/a/bc` is left out of the tree of `/a/b`. -/
theorem fetch_fetches :
    let store : Store := ⟨[atAB ['/', 'c'], atAB ['/', 'd', '/', 'e'], atAB ['c']], by decide⟩
    Fetches store ['/', 'a', '/', 'b'] (store.fetch ['/', 'a', '/', 'b']) :=
  (fetch_fetches_iff _ _ ⟨_, rfl⟩).mpr
    (show _ ∧ _ ∧ _ from ⟨by decide, by decide, by decide⟩)

/-- A value that the root has not, an answer where nothing is to be found, and a nil child. -/
theorem not_fetches :
    let key : Key := ['/', 'a', '/', 'b']
    let inner : Store := ⟨[atAB [], atAB ['/', 'c']], by decide⟩
    let siblings : Store := ⟨[atAB ['c'], atAB ['d']], by decide⟩
    let deep : Store := ⟨[atAB ['/', 'c'], atAB ['c', '/', 'd', '/', 'e']], by decide⟩
    Absolute key ∧ ¬Fetches inner key (inner.fetch key) ∧
      ¬Fetches siblings key (siblings.fetch key) ∧ ¬Fetches deep key (deep.fetch key) := by
  refine ⟨⟨_, rfl⟩, fun h ↦ ?_, fun h ↦ ?_, fun h ↦ ?_⟩
  · have hvalue := (h.value (atAB []) List.mem_cons_self rfl).2.2
    exact absurd hvalue Nat.zero_ne_one
  · exact absurd (h.keyNotFound.mpr (by decide)) Bool.false_ne_true
  · obtain ⟨-, -, -, -, ⟨-, hnil, -⟩, -⟩ := h.proper
    exact absurd hnil.symm Bool.false_ne_true

end Gohan.Etcd
