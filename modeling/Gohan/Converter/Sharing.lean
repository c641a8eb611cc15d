import Gohan.Converter.Agreement
import Gohan.Converter.Ancestors
import Gohan.Converter.HashTree
import Gohan.Logic.Neighbours
import Mathlib.Data.List.Sort
import Mathlib.Data.List.TakeWhile
import Mathlib.Data.Prod.Lex
import Mathlib.Order.WithBot

/-!
# The items that stand for each other

`hash.Run` gives the nodes of a tree their hashes and their ancestors at a level, sorts the nodes,
and passes them once: a node with the hash and the ancestor of the one before it gets the item of
that one.  `Less` puts the nodes without an ancestor first, where it says of each that it is less
than itself; on the others it is an order of their hashes and of the places of their ancestors.  So
nodes that are alike stand next to each other (`grouped`), and in the end two nodes have one item if
and only if they are alike (`run_eq`).

Nodes of one hash are taken for equal.  They are, unless two different trees below one ancestor have
one hash; the text that is hashed does not escape anything, so they can even be written alike.
-/

set_option autoImplicit false

namespace Gohan.Converter.Hash

/-- The way to a node, the last step first. -/
abbrev Place := List ℕ

/-! ## Sorting -/

/-- What `Less` reads of the nodes. -/
structure Nodes where
  index : Place → ℕ
  value : Place → Node
  ancestor : Place → Option Place

namespace Nodes

variable (nodes : Nodes)

/-- `Less`. -/
def less (x y : Place) : Bool :=
  match nodes.ancestor x, nodes.ancestor y with
  | none, _ => true
  | some _, none => false
  | some a, some b =>
    if (nodes.value x).value = (nodes.value y).value then
      if (nodes.value x).length = (nodes.value y).length then nodes.index a < nodes.index b
      else (nodes.value x).length < (nodes.value y).length
    else (nodes.value x).value < (nodes.value y).value

/-- What the nodes are sorted by. -/
def rank (x : Place) : WithBot (ℕ ×ₗ ℕ ×ₗ ℕ) :=
  match nodes.ancestor x with
  | none => ⊥
  | some a =>
    ↑(toLex ((nodes.value x).value.toNat, toLex ((nodes.value x).length, nodes.index a)))

/-- What is compared of neighbours. -/
def key (x : Place) : Node × Option Place := (nodes.value x, nodes.ancestor x)

/-- An order that `sort.Sort` leaves nodes in: those without an ancestor are first. -/
structure SortedByHash (places order : List Place) : Prop where
  perm : places.Perm order
  sorted : order.Pairwise fun x y ↦ nodes.ancestor x = none ∨ nodes.less y x = false

variable {nodes} {x y : Place} {places order : List Place}

theorem rank_eq_bot : nodes.rank x = ⊥ ↔ nodes.ancestor x = none := by
  rw [rank]
  cases nodes.ancestor x <;> simp

theorem less_eq_true : nodes.less x y = true ↔ nodes.rank x = ⊥ ∨ nodes.rank x < nodes.rank y := by
  rw [less, rank, rank]
  cases nodes.ancestor x with
  | none => simp
  | some a =>
    cases nodes.ancestor y with
    | none => simp
    | some b =>
      simp only [WithBot.coe_ne_bot, false_or, WithBot.coe_lt_coe, Prod.Lex.toLex_lt_toLex,
        UInt32.lt_iff_toNat_lt, ← UInt32.toNat_inj]
      grind

/-- Two nodes are in order if and only if their ranks are. -/
theorem inOrder_iff :
    (nodes.ancestor x = none ∨ nodes.less y x = false) ↔ nodes.rank x ≤ nodes.rank y := by
  rw [← rank_eq_bot, ← Bool.not_eq_true, less_eq_true, not_or, not_lt]
  constructor
  · rintro (hx | ⟨-, hle⟩)
    · exact hx ▸ bot_le
    · exact hle
  · intro hle
    by_cases hx : nodes.rank x = ⊥
    · exact .inl hx
    · exact .inr ⟨fun hy ↦ hx (le_bot_iff.mp (hy ▸ hle)), hle⟩

theorem rank_congr (h : nodes.key x = nodes.key y) : nodes.rank x = nodes.rank y := by
  obtain ⟨hvalue, hancestor⟩ := Prod.mk.inj h
  rw [rank, rank, hvalue, hancestor]

/-- The rank determines what is compared, where indexes determine ancestors. -/
theorem key_of_rank
    (hindex : ∀ a b, nodes.ancestor x = some a → nodes.ancestor y = some b →
      nodes.index a = nodes.index b → a = b)
    (hx : nodes.ancestor x ≠ none) (h : nodes.rank x = nodes.rank y) :
    nodes.key x = nodes.key y := by
  obtain ⟨a, ha⟩ := Option.ne_none_iff_exists'.mp hx
  obtain ⟨b, hb⟩ : ∃ b, nodes.ancestor y = some b := by
    refine Option.ne_none_iff_exists'.mp fun hy ↦ hx ?_
    rw [← rank_eq_bot, h, rank_eq_bot, hy]
  rw [rank, rank, ha, hb, WithBot.coe_inj, toLex_inj, Prod.mk.injEq, toLex_inj, Prod.mk.injEq,
    UInt32.toNat_inj] at h
  obtain ⟨hvalue, hlength, hplace⟩ := h
  have hnode : nodes.value x = nodes.value y := by
    cases hvx : nodes.value x
    cases hvy : nodes.value y
    rw [hvx, hvy] at hvalue hlength
    exact congrArg₂ Node.mk hvalue hlength
  rw [key, key, hnode, ha, hb, hindex a b ha hb hplace]

theorem SortedByHash.sorted_rank (h : nodes.SortedByHash places order) :
    order.Pairwise fun x y ↦ nodes.rank x ≤ nodes.rank y :=
  h.sorted.imp inOrder_iff.mp

/-- After the nodes without an ancestor there are none. -/
theorem SortedByHash.ancestor_ne_none (h : nodes.SortedByHash places order) :
    ∀ x ∈ order.dropWhile fun x ↦ (nodes.ancestor x).isNone, nodes.ancestor x ≠ none := by
  have hsorted := h.sorted_rank
  clear h
  induction order with
  | nil => exact fun x hx ↦ absurd hx List.not_mem_nil
  | cons first order ih =>
    obtain ⟨hfirst, hrest⟩ := List.pairwise_cons.mp hsorted
    rw [List.dropWhile_cons]
    split
    · exact ih hrest
    · next hsome =>
      rw [Option.isNone_iff_eq_none, ← rank_eq_bot] at hsome
      intro x hx
      rcases List.mem_cons.mp hx with rfl | hx
      · rwa [Ne, ← rank_eq_bot]
      · exact fun hnone ↦ hsome (le_bot_iff.mp (rank_eq_bot.mpr hnone ▸ hfirst x hx))

end Nodes

/-- `sort.Sort(byHash(…))`.  Where nodes are alike, their order is not determined. -/
structure SortByHash where
  sort : Nodes → List Place → List Place
  sortedByHash : ∀ (nodes : Nodes) places, nodes.SortedByHash places (sort nodes places)

instance : Inhabited SortByHash where
  default := {
    sort := fun nodes places ↦ places.insertionSort fun x y ↦ nodes.rank x ≤ nodes.rank y
    sortedByHash := fun nodes places ↦ {
      perm := (List.perm_insertionSort _ places).symm
      sorted := by
        have : Std.Total fun x y ↦ nodes.rank x ≤ nodes.rank y := ⟨fun x y ↦ le_total _ _⟩
        have : IsTrans Place fun x y ↦ nodes.rank x ≤ nodes.rank y := ⟨fun _ _ _ ↦ le_trans⟩
        exact (List.pairwise_insertionSort _ places).imp Nodes.inOrder_iff.mpr } }

/-! ## Compressing -/

/-- The items that the nodes have, and the calls of `Compress`: the item it is called for, the
source and the destination.  An item is named by the node that it is made for. -/
structure Shared where
  item : Place → Place
  compressed : List (Place × Place × Place)

/-- The loop of `compressNodes`, after a node. -/
def compressFrom (nodes : Nodes) (prev : Place) : List Place → Shared → Go Shared
  | [], shared => .ok shared
  | node :: places, shared =>
    if nodes.key node = nodes.key prev then
      match placeAbove node with
      | some parent => compressFrom nodes node places {
          item := Function.update shared.item node (shared.item prev)
          compressed := shared.compressed ++
            [(shared.item parent, shared.item prev, shared.item node)] }
      | none => .panicf "runtime error: invalid memory address or nil pointer dereference"
    else compressFrom nodes node places shared

/-- `compressNodes`, once the nodes are sorted. -/
def compressNodes (nodes : Nodes) (order : List Place) : Go Shared :=
  match order.dropWhile fun node ↦ (nodes.ancestor node).isNone with
  | [] => .ok ⟨id, []⟩
  | first :: places => compressFrom nodes first places ⟨id, []⟩

/-- The field `value` of a node. -/
def valueAt (values : Rose Node) (place : Place) : Node :=
  ((values.sub? place).map Rose.label).getD ⟨0, 0⟩

/-- `compress`, for nodes with values. -/
def compress (sort : SortByHash) (values : Rose Node) (level : ℤ) : Go Shared :=
  if level < 1 then .ok ⟨id, []⟩
  else do
    let places := values.addresses
    let ancestors ← getAncestors placeAbove places level.toNat
    let nodes := ⟨places.idxOf, valueAt values, ancestors⟩
    compressNodes nodes (sort.sort nodes places)

/-- `Run`. -/
def run (sort : SortByHash) (t : Rose String) (level : ℤ) : Go Shared := do
  let (values, _) ← calcHashes t .new
  compress sort values level

/-! ## Who shares an item -/

/-- The ancestor at a level, if there is one. -/
def ancestorAt (level : ℤ) (place : Place) : Option Place :=
  if level < 0 then none else Ancestor.ancestor placeAbove level.toNat place

/-- Two nodes have the same ancestor at a level. -/
def SameAncestor (level : ℤ) (a b : Place) : Prop :=
  ∃ c, ancestorAt level a = some c ∧ ancestorAt level b = some c

/-- Two trees have the same hash. -/
def SameHash (s s' : Rose String) : Prop := nodeOf (serialize s) = nodeOf (serialize s')

theorem compressFrom_eq (nodes : Nodes) (prev : Place) {places : List Place}
    (h : ∀ node ∈ places, node ≠ []) (shared : Shared) : ∃ shared',
    compressFrom nodes prev places shared = .ok shared' ∧
      shared'.item = Neighbours.merge nodes.key prev places shared.item := by
  induction places generalizing prev shared with
  | nil => exact ⟨shared, rfl, rfl⟩
  | cons node places ih =>
    obtain ⟨hnode, hplaces⟩ := List.forall_mem_cons.mp h
    rw [compressFrom, Neighbours.merge]
    split
    · obtain ⟨i, parent, rfl⟩ := List.exists_cons_of_ne_nil hnode
      exact ih (i :: parent) hplaces _
    · exact ih node hplaces shared

/-- Sorted nodes that are alike stand next to each other. -/
theorem Nodes.SortedByHash.grouped {nodes : Nodes} {places order : List Place}
    (h : nodes.SortedByHash places order)
    (hindex : ∀ x ∈ places, ∀ y ∈ places, ∀ a b, nodes.ancestor x = some a →
      nodes.ancestor y = some b → nodes.index a = nodes.index b → a = b) :
    Neighbours.Grouped nodes.key
      (order.dropWhile fun node ↦ (nodes.ancestor node).isNone) := by
  have hsuffix := List.dropWhile_suffix (l := order) fun node ↦ (nodes.ancestor node).isNone
  have hmem : ∀ x ∈ order.dropWhile fun node ↦ (nodes.ancestor node).isNone, x ∈ places :=
    fun x hx ↦ h.perm.mem_iff.mpr (hsuffix.subset hx)
  refine Neighbours.grouped_of_pairwise (h.sorted_rank.sublist hsuffix.sublist) ?_ ?_
  · intro x y z heq hle
    rwa [Nodes.rank_congr heq]
  · intro x hx y hy hxy hyx
    exact Nodes.key_of_rank (hindex x (hmem x hx) y (hmem y hy)) (h.ancestor_ne_none x hx)
      (le_antisymm hxy hyx)

/-- A node that is passed over before the first comparison has no ancestor. -/
theorem ancestor_eq_none_of_notMem {nodes : Nodes} {order : List Place} {x : Place}
    (hx : x ∈ order) (hnot : x ∉ order.dropWhile fun node ↦ (nodes.ancestor node).isNone) :
    nodes.ancestor x = none := by
  rw [← List.takeWhile_append_dropWhile (p := fun node ↦ (nodes.ancestor node).isNone)
    (l := order)] at hx
  have htake : (nodes.ancestor x).isNone = true :=
    List.mem_takeWhile_imp (p := fun node ↦ (nodes.ancestor node).isNone)
      ((List.mem_append.mp hx).resolve_right hnot)
  exact Option.isNone_iff_eq_none.mp htake

/-- Two nodes get one item if and only if they are alike and have an ancestor. -/
theorem compressNodes_eq {nodes : Nodes} {places order : List Place}
    (h : nodes.SortedByHash places order) (hnodup : places.Nodup)
    (hroot : ∀ x ∈ places, nodes.ancestor x ≠ none → x ≠ [])
    (hindex : ∀ x ∈ places, ∀ y ∈ places, ∀ a b, nodes.ancestor x = some a →
      nodes.ancestor y = some b → nodes.index a = nodes.index b → a = b) :
    ∃ shared, compressNodes nodes order = .ok shared ∧ ∀ x ∈ places, ∀ y ∈ places,
      shared.item x = shared.item y ↔ x = y ∨
        (nodes.ancestor x ≠ none ∧ nodes.key x = nodes.key y) := by
  have hgrouped := h.grouped hindex
  have hsome := h.ancestor_ne_none
  have hsuffix := List.dropWhile_suffix (l := order) fun node ↦ (nodes.ancestor node).isNone
  have hnone : ∀ x ∈ places, x ∉ (order.dropWhile fun node ↦ (nodes.ancestor node).isNone) →
      nodes.ancestor x = none :=
    fun x hx hnot ↦ ancestor_eq_none_of_notMem (h.perm.mem_iff.mp hx) hnot
  rw [compressNodes]
  generalize hlist : (order.dropWhile fun node ↦ (nodes.ancestor node).isNone) = list at *
  cases list with
  | nil =>
    refine ⟨_, rfl, fun x hx y _ ↦ ?_⟩
    simp [hnone x hx List.not_mem_nil]
  | cons first rest =>
    have hplaces : ∀ x ∈ first :: rest, x ∈ places :=
      fun x hx ↦ h.perm.mem_iff.mpr (hsuffix.subset hx)
    obtain ⟨shared, hshared, hitem⟩ := compressFrom_eq nodes first
      (fun x hx ↦ hroot x (hplaces x (List.mem_cons_of_mem _ hx))
        (hsome x (List.mem_cons_of_mem _ hx))) ⟨id, []⟩
    refine ⟨shared, hshared, fun x hx y hy ↦ ?_⟩
    have hmerged := Neighbours.merged_merge (μ := Place) Function.injective_id hgrouped
      (hsuffix.sublist.nodup (h.perm.nodup_iff.mp hnodup))
    rw [← hitem] at hmerged
    by_cases hxin : x ∈ first :: rest <;> by_cases hyin : y ∈ first :: rest
    · rw [hmerged.same x hxin y hyin]
      refine ⟨fun hkey ↦ .inr ⟨hsome x hxin, hkey⟩, ?_⟩
      rintro (rfl | ⟨-, hkey⟩)
      · rfl
      · exact hkey
    · refine iff_of_false (hmerged.apart x hxin y hyin) ?_
      rintro (rfl | ⟨hx, hkey⟩)
      · exact hyin hxin
      · exact hx ((congrArg Prod.snd hkey).trans (hnone y hy hyin))
    · refine iff_of_false (hmerged.apart y hyin x hxin).symm ?_
      rintro (rfl | ⟨hx', -⟩)
      · exact hxin hyin
      · exact hx' (hnone x hx hxin)
    · refine ⟨fun heq ↦ .inl (hmerged.alone x hxin y hyin heq), ?_⟩
      rintro (rfl | ⟨hx', -⟩)
      · rfl
      · exact absurd (hnone x hx hxin) hx'

/-- Below level one, a node is the only one with its ancestor. -/
theorem SameAncestor.eq_of_lt_one {level : ℤ} {a b : Place} (h : SameAncestor level a b)
    (hlevel : level < 1) : a = b := by
  obtain ⟨c, ha, hb⟩ := h
  rw [ancestorAt] at ha hb
  split at ha
  · cases ha
  · rw [show level.toNat = 0 by omega] at ha hb
    rw [if_neg ‹_›] at hb
    exact Option.some.inj (ha.trans hb.symm)

/-- **Two nodes have one item after `Run` if and only if they have one ancestor and one hash.** -/
theorem run_eq (sort : SortByHash) (t : Rose String) (level : ℤ) :
    ∃ shared, run sort t level = .ok shared ∧
      ∀ a b s s', t.sub? a = some s → t.sub? b = some s' →
        (shared.item a = shared.item b ↔ a = b ∨ (SameAncestor level a b ∧ SameHash s s')) := by
  obtain ⟨hash, hvalues⟩ := calcHashes_eq t .new
  rw [run, hvalues, Go.ok_bind]
  dsimp only
  have hvalue : ∀ a s, t.sub? a = some s →
      valueAt (t.annotate fun s ↦ nodeOf (serialize s)) a = nodeOf (serialize s) := by
    intro a s hs
    rw [valueAt, Rose.sub?_annotate, hs, Option.map_some, Option.map_some, Rose.label_annotate,
      Option.getD_some]
  have hplace : ∀ a s, t.sub? a = some s →
      a ∈ (t.annotate fun s ↦ nodeOf (serialize s)).addresses := by
    intro a s hs
    rw [Rose.mem_addresses, Rose.sub?_annotate, hs]
    rfl
  generalize (t.annotate fun s ↦ nodeOf (serialize s)) = values at *
  rw [compress]
  split
  · next hlevel =>
    refine ⟨_, rfl, fun a b s s' _ _ ↦ ⟨.inl, ?_⟩⟩
    rintro (rfl | ⟨hancestor, -⟩)
    · rfl
    · exact hancestor.eq_of_lt_one hlevel
  · next hlevel =>
    obtain ⟨ancestors, hancestors, heq⟩ :=
      getAncestors_addresses values (show 0 < level.toNat by omega)
    have hat : ∀ a ∈ values.addresses, ancestors a = ancestorAt level a := by
      intro a ha
      rw [heq a ha, ancestorAt, if_neg (by omega)]
    have hroot : ∀ x ∈ values.addresses, ancestors x ≠ none → x ≠ [] := by
      rintro x hx hne rfl
      rw [heq [] hx, ancestor_placeAbove, if_neg (by simp; omega)] at hne
      exact hne rfl
    have hmem : ∀ x ∈ values.addresses, ∀ a, ancestors x = some a → a ∈ values.addresses := by
      intro x hx a ha
      rw [heq x hx] at ha
      exact Ancestor.mem_of_ancestor (fun _ _ ↦ placeAbove_mem) hx ha
    obtain ⟨shared, hshared, hitem⟩ := compressNodes_eq
      (sort.sortedByHash ⟨values.addresses.idxOf, valueAt values, ancestors⟩ values.addresses)
      values.nodup_addresses hroot fun x hx y _ a b ha _ hindex ↦
        (List.idxOf_inj (hmem x hx a ha)).mp hindex
    dsimp only
    rw [hancestors, Go.ok_bind]
    refine ⟨shared, hshared, fun a b s s' hs hs' ↦ ?_⟩
    rw [hitem a (hplace a s hs) b (hplace b s' hs')]
    refine or_congr_right ?_
    show ancestors a ≠ none ∧ (valueAt values a, ancestors a) = (valueAt values b, ancestors b) ↔ _
    rw [hvalue a s hs, hvalue b s' hs', hat a (hplace a s hs), hat b (hplace b s' hs'),
      Prod.mk.injEq, SameAncestor, SameHash]
    constructor
    · rintro ⟨hne, hnode, hancestor⟩
      obtain ⟨c, hc⟩ := Option.ne_none_iff_exists'.mp hne
      exact ⟨⟨c, hc, hancestor ▸ hc⟩, hnode⟩
    · rintro ⟨⟨c, ha, hb⟩, hnode⟩
      exact ⟨by rw [ha]; exact Option.some_ne_none c, hnode, ha.trans hb.symm⟩

/-! ## Equal items -/

/-- Two nodes have one item if and only if what is below them is equal and they have one
ancestor. -/
def SharesEqual (t : Rose String) (level : ℤ) (shared : Shared) : Prop :=
  ∀ a b s s', a ≠ b → t.sub? a = some s → t.sub? b = some s' →
    (shared.item a = shared.item b ↔ s = s' ∧ SameAncestor level a b)

/-- No two different trees below one ancestor have one hash. -/
def NoCollision (t : Rose String) (level : ℤ) : Prop :=
  ∀ a b s s', t.sub? a = some s → t.sub? b = some s' → SameAncestor level a b → SameHash s s' →
    s = s'

/-- **Who shares an item after `Run`.**  It is the nodes that have one hash and one ancestor; equal
ones are among them.  Nobody else shares an item with them if and only if there is no collision. -/
theorem run_spec (sort : SortByHash) (t : Rose String) (level : ℤ) :
    ∃ shared, run sort t level = .ok shared ∧
      (∀ a b s s', a ≠ b → t.sub? a = some s → t.sub? b = some s' →
        (shared.item a = shared.item b ↔ SameHash s s' ∧ SameAncestor level a b) ∧
        (s = s' → SameAncestor level a b → shared.item a = shared.item b)) ∧
      (SharesEqual t level shared ↔ NoCollision t level) := by
  obtain ⟨shared, hshared, hitem⟩ := run_eq sort t level
  have hiff : ∀ a b s s', a ≠ b → t.sub? a = some s → t.sub? b = some s' →
      (shared.item a = shared.item b ↔ SameHash s s' ∧ SameAncestor level a b) := by
    intro a b s s' hne hs hs'
    rw [hitem a b s s' hs hs', or_iff_right hne, and_comm]
  refine ⟨shared, hshared, fun a b s s' hne hs hs' ↦ ⟨hiff a b s s' hne hs hs', ?_⟩, ?_, ?_⟩
  · rintro rfl hancestor
    exact (hiff a b s s hne hs hs').mpr ⟨rfl, hancestor⟩
  · intro h a b s s' hs hs' hancestor hhash
    by_cases hne : a = b
    · subst hne
      exact Option.some.inj (hs.symm.trans hs')
    · exact ((h a b s s' hne hs hs').mp ((hiff a b s s' hne hs hs').mpr ⟨hhash, hancestor⟩)).1
  · intro h a b s s' hne hs hs'
    rw [hiff a b s s' hne hs hs']
    constructor
    · rintro ⟨hhash, hancestor⟩
      exact ⟨h a b s s' hs hs' hancestor hhash, hancestor⟩
    · rintro ⟨rfl, hancestor⟩
      exact ⟨rfl, hancestor⟩

/-! ## Items that are written alike -/

/-- A string with a default value. -/
def textItem (value : String) : Item := .plain "string" false true (some (.string value))

/-- An object with the properties `p` and `q`.  The default value below `p` contains what is written
between the two properties below `q`. -/
def quotedItem : Item :=
  .object "port" [
    ("p", .object "port_p" [("a", textItem "x\"(),),b(#string,false,\"y")] []),
    ("q", .object "port_q" [("a", textItem "x"), ("b", textItem "y")] [])] []

/-- The property with this item. -/
def quotedTree : Rose String :=
  letI := plainPackages
  propertyTree "port" quotedItem

/-- Two different objects share an item. -/
theorem not_sharesEqual_quoted :
    ∃ shared, run default quotedTree 2 = .ok shared ∧
      shared.item [0, 0, 0] = shared.item [0, 1, 0] ∧ ¬ SharesEqual quotedTree 2 shared := by
  obtain ⟨s, s', hs, hs', halike, hne⟩ : ∃ s s', quotedTree.sub? [0, 0, 0] = some s ∧
      quotedTree.sub? [0, 1, 0] = some s' ∧ serialize s = serialize s' ∧
        s.children.length ≠ s'.children.length := by
    exact ⟨_, _, rfl, rfl, by decide +kernel, by decide⟩
  obtain ⟨shared, hshared, hitem⟩ := run_eq default quotedTree 2
  have hitems : shared.item [0, 0, 0] = shared.item [0, 1, 0] :=
    (hitem _ _ s s' hs hs').mpr (.inr ⟨⟨[0], rfl, rfl⟩, congrArg nodeOf halike⟩)
  refine ⟨shared, hshared, hitems, fun h ↦ hne ?_⟩
  rw [((h _ _ s s' (by decide) hs hs').mp hitems).1]

end Gohan.Converter.Hash
