import Gohan.Converter.Hash
import Gohan.Logic.Ancestor
import Gohan.Logic.Rose

/-!
# The ancestors of the nodes of a tree

`compress` works out the ancestor at a given level for every node of a tree, by doubling.  The
field `ancestors` of a node starts with its parent; round `i` appends the ancestor at distance
`2 ^ (i + 1)`, which is found through the one at distance `2 ^ i`.  The tables are filled in place,
so in the course of a round some of them are longer than others.  The rounds end early when no node
has an ancestor at the distance that has just been used.  Then the level is climbed in its powers of
two.

A node is a pointer here, of any type, and has a parent or none; `getAncestors_eq` is about the
nodes of a set that has the parents of its members.  `getAncestors_spec` is about trees, whose nodes
are places.
-/

set_option autoImplicit false

namespace Gohan.Converter

open Ancestor

/-! ## Powers of two -/

/-- The loop of `powers`. -/
def powersFrom (log : ℕ) (powers : List ℕ) (x : ℕ) : ℕ × List ℕ :=
  if 0 < x then
    powersFrom (log + 1) (if x % 2 = 1 then powers ++ [log] else powers) (x / 2)
  else (log, powers)
termination_by x

/-- `powers`: the greatest exponent, and the exponents of the powers that add up to a number. -/
def powers (x : ℕ) : ℤ × List ℕ :=
  let (log, powers) := powersFrom 0 [] x
  (log - 1, powers)

/-! ## The nodes -/

section Nodes

variable {ν : Type} [DecidableEq ν]

/-- The field `ancestors` of every node. -/
abbrev Tables (ν : Type) := ν → List (Option ν)

/-- A round: every table gets an entry.  The flag tells whether all of the entries used are nil. -/
def fillRound (i : ℕ) : List ν → Tables ν → Bool → Go (Tables ν × Bool)
  | [], tables, allNil => .ok (tables, allNil)
  | node :: nodes, tables, allNil => do
    match ← index (tables node) i with
    | some ancestor => do
      let next ← index (tables ancestor) i
      fillRound i nodes (Function.update tables node (tables node ++ [next])) false
    | none => fillRound i nodes (Function.update tables node (tables node ++ [none])) allNil

/-- So many rounds from a round on, unless all entries are nil. -/
def fillRounds (nodes : List ν) : ℕ → ℕ → Tables ν → Bool → Go (Tables ν)
  | 0, _, tables, _ => .ok tables
  | n + 1, i, tables, allNil =>
    if allNil then .ok tables
    else do
      let (tables, allNil) ← fillRound i nodes tables true
      fillRounds nodes n (i + 1) tables allNil

/-- The way up in powers of two, as far as there is one. -/
def climb (tables : Tables ν) : List ℕ → Option ν → Go (Option ν)
  | [], ancestor => .ok ancestor
  | _ :: _, none => .ok none
  | value :: powers, some ancestor => do
    climb tables powers (← index (tables ancestor) value)

/-- The field `ancestor` of every node. -/
def climbAll (tables : Tables ν) (powers : List ℕ) :
    List ν → (ν → Option ν) → Go (ν → Option ν)
  | [], ancestors => .ok ancestors
  | node :: nodes, ancestors => do
    let ancestor ← climb tables powers (some node)
    climbAll tables powers nodes (Function.update ancestors node ancestor)

/-- `getAncestors`: the field `ancestor` of every node, which is nil before. -/
def getAncestors (parent : ν → Option ν) (nodes : List ν) (level : ℕ) : Go (ν → Option ν) := do
  let (log, powers) := powers level
  let tables ← fillRounds nodes log.toNat 0 (fun node ↦ [parent node]) (decide (nodes.length ≤ 1))
  let first ← index nodes 0
  if (tables first).length < log + 1 then .ok fun _ ↦ none
  else climbAll tables powers nodes fun _ ↦ none

end Nodes

/-! ## What the powers add up to -/

theorem powersFrom_spec (log : ℕ) (ps : List ℕ) (x : ℕ) (hps : ∀ p ∈ ps, p < log) :
    ((powersFrom log ps x).2.map (2 ^ ·)).sum = (ps.map (2 ^ ·)).sum + x * 2 ^ log ∧
      (∀ p ∈ (powersFrom log ps x).2, p < (powersFrom log ps x).1) ∧
      (0 < x → log < (powersFrom log ps x).1 ∧
        2 ^ (powersFrom log ps x).1 ≤ 2 * (x * 2 ^ log)) := by
  induction log, ps, x using powersFrom.induct with
  | case1 log ps x hx ih =>
    simp only [dite_eq_ite] at ih
    rw [powersFrom, if_pos hx]
    set ps' := if x % 2 = 1 then ps ++ [log] else ps with hps'
    have hbound : ∀ p ∈ ps', p < log + 1 := by
      intro p hp
      rw [hps'] at hp
      split at hp
      · rcases List.mem_append.mp hp with hp | hp
        · exact (hps p hp).trans (Nat.lt_succ_self log)
        · rw [List.mem_singleton.mp hp]
          exact Nat.lt_succ_self log
      · exact (hps p hp).trans (Nat.lt_succ_self log)
    have hsum : (ps'.map (2 ^ ·)).sum = (ps.map (2 ^ ·)).sum + x % 2 * 2 ^ log := by
      rw [hps']
      split
      · next hodd => rw [List.map_append, List.sum_append, hodd]; simp
      · next heven => rw [Nat.mod_two_ne_one.mp heven]; simp
    have hhalf : x % 2 * 2 ^ log + x / 2 * 2 ^ (log + 1) = x * 2 ^ log := by
      conv_rhs => rw [← Nat.mod_add_div x 2]
      ring
    obtain ⟨htotal, hmem, hsize⟩ := ih hbound
    refine ⟨?_, hmem, fun _ ↦ ?_⟩
    · rw [htotal, hsum]
      omega
    · by_cases hzero : x / 2 = 0
      · have hone : x = 1 := by omega
        subst hone
        rw [show (1 : ℕ) / 2 = 0 from rfl, powersFrom, if_neg (lt_irrefl 0)]
        exact ⟨Nat.lt_succ_self log, by rw [Nat.pow_succ]; omega⟩
      · obtain ⟨hlt, hle⟩ := hsize (Nat.pos_of_ne_zero hzero)
        have hdouble : x / 2 * 2 ^ (log + 1) ≤ x * 2 ^ log := hhalf ▸ Nat.le_add_left _ _
        exact ⟨(Nat.lt_succ_self log).trans hlt, hle.trans (Nat.mul_le_mul_left 2 hdouble)⟩
  | case2 log ps x hx =>
    rw [powersFrom, if_neg hx]
    exact ⟨by simp [Nat.eq_zero_of_not_pos hx], hps, fun hpos ↦ absurd hpos hx⟩

/-! ## The rounds -/

section Rounds

variable {ν : Type} [DecidableEq ν] {parent : ν → Option ν} {all nodes : List ν}
  {tables : Tables ν} {a : ν}

variable (hclosed : ∀ a b, a ∈ all → parent a = some b → b ∈ all)

include hclosed

/-- In the course of a round, the nodes that are left have shorter tables. -/
theorem fillRound_eq {i : ℕ} (allNil : Bool) (hsub : nodes ⊆ all) (hnodup : nodes.Nodup)
    (h : ∀ a ∈ all, tables a = row parent (if a ∈ nodes then i + 1 else i + 2) a) :
    ∃ tables', fillRound i nodes tables allNil = .ok (tables',
        allNil && nodes.all fun a ↦ (ancestor parent (2 ^ i) a).isNone) ∧
      ∀ a ∈ all, tables' a = row parent (i + 2) a := by
  induction nodes generalizing tables allNil with
  | nil => exact ⟨tables, by simp [fillRound], fun a ha ↦ by simpa using h a ha⟩
  | cons node nodes ih =>
    obtain ⟨hnode, hsub⟩ := List.cons_subset.mp hsub
    obtain ⟨hfresh, hnodup⟩ := List.nodup_cons.mp hnodup
    have htable : tables node = row parent (i + 1) node := by
      rw [h node hnode, if_pos List.mem_cons_self]
    have hused : ∀ a ∈ all, index (tables a) i = .ok (ancestor parent (2 ^ i) a) := by
      intro a ha
      rw [h a ha]
      exact index_eq_ok.mpr (getElem?_row (by split <;> omega) a)
    -- the table of the node gets the entry at the next power of two
    have hnext : ∀ a ∈ all, Function.update tables node
        (tables node ++ [ancestor parent (2 ^ (i + 1)) node]) a =
          row parent (if a ∈ nodes then i + 1 else i + 2) a := by
      intro a ha
      by_cases heq : a = node
      · subst heq
        rw [Function.update_self, htable, if_neg hfresh, ← row_succ]
      · rw [Function.update_of_ne heq, h a ha]
        simp only [List.mem_cons, heq, false_or]
    rw [fillRound, hused node hnode, Go.ok_bind]
    cases hancestor : ancestor parent (2 ^ i) node with
    | none =>
      rw [ancestor_pow_succ, hancestor, Option.bind_none] at hnext
      obtain ⟨tables', hrest, htables⟩ := ih allNil hsub hnodup hnext
      exact ⟨tables', by simp [hrest, hancestor], htables⟩
    | some b =>
      rw [ancestor_pow_succ, hancestor, Option.bind_some] at hnext
      obtain ⟨tables', hrest, htables⟩ := ih false hsub hnodup hnext
      dsimp only
      rw [hused b (mem_of_ancestor hclosed hnode hancestor), Go.ok_bind]
      exact ⟨tables', by simp [hrest, hancestor], htables⟩

/-- After the rounds the tables are all of one length, and when this is not the full one there are
no ancestors any more. -/
theorem fillRounds_eq (hnodup : all.Nodup) {n i : ℕ} {allNil : Bool}
    (h : ∀ a ∈ all, tables a = row parent (i + 1) a)
    (hnil : allNil = true → ∀ a ∈ all, ancestor parent (2 ^ i) a = none) :
    ∃ tables' k, fillRounds all n i tables allNil = .ok tables' ∧
      (∀ a ∈ all, tables' a = row parent (k + 1) a) ∧ k ≤ i + n ∧
      (k < i + n → ∀ a ∈ all, ancestor parent (2 ^ k) a = none) := by
  induction n generalizing i tables allNil with
  | zero => exact ⟨tables, i, rfl, h, le_rfl, fun hlt ↦ absurd hlt (lt_irrefl i)⟩
  | succ n ih =>
    rw [fillRounds]
    split
    · next hall => exact ⟨tables, i, rfl, h, by omega, fun _ ↦ hnil hall⟩
    · obtain ⟨tables', hround, htables⟩ := fillRound_eq hclosed true (List.Subset.refl all) hnodup
        fun a ha ↦ (h a ha).trans (by rw [if_pos ha])
      have hused : (true && all.all fun a ↦ (ancestor parent (2 ^ i) a).isNone) = true →
          ∀ a ∈ all, ancestor parent (2 ^ (i + 1)) a = none := by
        intro hall a ha
        rw [Bool.true_and, List.all_eq_true] at hall
        exact ancestor_eq_none (Option.isNone_iff_eq_none.mp (hall a ha))
          (Nat.pow_le_pow_right (by decide) (Nat.le_succ i))
      rw [hround, Go.ok_bind]
      obtain ⟨tables'', k, hrounds, hlast, hle, hend⟩ := ih htables hused
      exact ⟨tables'', k, hrounds, hlast, by omega, fun hlt ↦ hend (by omega)⟩

omit [DecidableEq ν] in
theorem climb_eq {n : ℕ} {ps : List ℕ} (h : ∀ a ∈ all, tables a = row parent n a)
    (hps : ∀ p ∈ ps, p < n) (ha : a ∈ all) :
    climb tables ps (some a) = .ok (ancestor parent (ps.map (2 ^ ·)).sum a) := by
  induction ps generalizing a with
  | nil => rfl
  | cons p ps ih =>
    obtain ⟨hp, hps⟩ := List.forall_mem_cons.mp hps
    rw [climb, h a ha, index_eq_ok.mpr (getElem?_row hp a), Go.ok_bind, List.map_cons,
      List.sum_cons, ancestor_add]
    cases hancestor : ancestor parent (2 ^ p) a with
    | none => cases ps <;> rfl
    | some b => exact ih hps (mem_of_ancestor hclosed ha hancestor)

theorem climbAll_eq {n : ℕ} {ps : List ℕ} (h : ∀ a ∈ all, tables a = row parent n a)
    (hps : ∀ p ∈ ps, p < n) (hsub : nodes ⊆ all) (ancestors : ν → Option ν) :
    ∃ ancestors', climbAll tables ps nodes ancestors = .ok ancestors' ∧
      ∀ a, ancestors' a =
        if a ∈ nodes then ancestor parent (ps.map (2 ^ ·)).sum a else ancestors a := by
  induction nodes generalizing ancestors with
  | nil => exact ⟨ancestors, rfl, fun a ↦ by simp⟩
  | cons node nodes ih =>
    obtain ⟨hnode, hsub⟩ := List.cons_subset.mp hsub
    rw [climbAll, climb_eq hclosed h hps hnode, Go.ok_bind]
    obtain ⟨ancestors', hrest, hancestors⟩ := ih hsub (Function.update ancestors node
      (ancestor parent (ps.map (2 ^ ·)).sum node))
    refine ⟨ancestors', hrest, fun a ↦ ?_⟩
    rw [hancestors]
    by_cases heq : a = node
    · subst heq
      simp
    · simp [heq]

/-- **Every node gets its ancestor at the level**, where the first node is a root. -/
theorem getAncestors_eq {root : ν} (hall : all = root :: nodes) (hroot : parent root = none)
    (hnodup : all.Nodup) {level : ℕ} (hlevel : 0 < level) :
    ∃ ancestors, getAncestors parent all level = .ok ancestors ∧
      ∀ a ∈ all, ancestors a = ancestor parent level a := by
  obtain ⟨hsum, hbound, hsize⟩ := powersFrom_spec 0 [] level (by simp)
  obtain ⟨hlog, hpow⟩ := hsize hlevel
  have hnone : decide (all.length ≤ 1) = true → ∀ a ∈ all, ancestor parent (2 ^ 0) a = none := by
    intro hlength a ha
    have hempty : nodes = [] := by
      rw [decide_eq_true_eq, hall, List.length_cons] at hlength
      exact List.eq_nil_of_length_eq_zero (by omega)
    rw [hall, hempty, List.mem_singleton] at ha
    rw [ha, Nat.pow_zero, ancestor_one, hroot]
  have hrow : ∀ a ∈ all, [parent a] = row parent (0 + 1) a := fun a _ ↦ (row_one a).symm
  rw [getAncestors, powers]
  generalize powersFrom 0 [] level = result at *
  obtain ⟨log, ps⟩ := result
  dsimp only at *
  rw [show ((log : ℤ) - 1).toNat = log - 1 by omega]
  obtain ⟨tables, k, hrounds, htables, hle, hend⟩ :=
    fillRounds_eq hclosed hnodup (n := log - 1) hrow hnone
  have hmem : root ∈ all := hall ▸ List.mem_cons_self
  have hfirst : index all 0 = .ok root := by rw [hall]; rfl
  rw [hrounds, Go.ok_bind, hfirst, Go.ok_bind, htables root hmem, length_row]
  split
  · next hshort =>
    -- the rounds ended early, below a power of two that the level has
    refine ⟨_, rfl, fun a ha ↦ (ancestor_eq_none (hend (by omega) a ha) ?_).symm⟩
    have hhalf : 2 ^ (k + 1) ≤ 2 ^ log := Nat.pow_le_pow_right (by decide) (by omega)
    rw [Nat.pow_succ] at hhalf
    omega
  · next hlong =>
    obtain rfl : k = log - 1 := by omega
    obtain ⟨ancestors, hclimb, hancestors⟩ := climbAll_eq hclosed htables
      (fun p hp ↦ by have hlt := hbound p hp; omega) (List.Subset.refl all) fun _ ↦ none
    refine ⟨ancestors, hclimb, fun a ha ↦ ?_⟩
    rw [hancestors, if_pos ha, hsum]
    simp

end Rounds

/-! ## Trees -/

/-- The parent of a node that is a place. -/
def placeAbove : List ℕ → Option (List ℕ)
  | [] => none
  | _ :: place => some place

theorem ancestor_placeAbove (n : ℕ) (place : List ℕ) :
    ancestor placeAbove n place = if n ≤ place.length then some (place.drop n) else none := by
  induction n generalizing place with
  | zero => simp [ancestor]
  | succ n ih =>
    cases place with
    | nil => simp [ancestor, placeAbove]
    | cons i place => simp [ancestor, placeAbove, ih]

theorem placeAbove_mem {α : Type} {t : Rose α} {a b : List ℕ} (ha : a ∈ t.addresses)
    (hb : placeAbove a = some b) : b ∈ t.addresses := by
  cases a with
  | nil => cases hb
  | cons i a =>
    obtain rfl := Option.some.inj hb
    exact Rose.mem_addresses_tail ha

/-- The places of a tree get the places above them. -/
theorem getAncestors_addresses {α : Type} (t : Rose α) {level : ℕ} (hlevel : 0 < level) :
    ∃ ancestors, getAncestors placeAbove t.addresses level = .ok ancestors ∧
      ∀ place ∈ t.addresses, ancestors place = ancestor placeAbove level place := by
  obtain ⟨nodes, hnodes⟩ : ∃ nodes, t.addresses = [] :: nodes := by
    cases t
    exact ⟨_, by rw [Rose.addresses, Rose.addressesAt]⟩
  exact getAncestors_eq (fun _ _ ↦ placeAbove_mem) hnodes rfl t.nodup_addresses hlevel

/-- **Every node of a tree gets the node that is so many steps above it**, or nil where the way down
to it is shorter. -/
theorem getAncestors_spec {α : Type} (t : Rose α) {level : ℕ} (hlevel : 1 ≤ level) :
    ∃ ancestors, getAncestors placeAbove t.addresses level = .ok ancestors ∧
      ∀ place ∈ t.addresses,
        (level ≤ place.length → ancestors place = some (place.drop level)) ∧
        (place.length < level → ancestors place = none) := by
  obtain ⟨ancestors, hancestors, heq⟩ := getAncestors_addresses t hlevel
  refine ⟨ancestors, hancestors, fun place hplace ↦ ?_⟩
  rw [heq place hplace, ancestor_placeAbove]
  exact ⟨fun hle ↦ if_pos hle, fun hlt ↦ if_neg (Nat.not_le.mpr hlt)⟩

/-- A root with two children, one of which has a child, two levels up. -/
theorem getAncestors_spec_small :
    let t : Rose String := .node "root" [.node "a" [.node "b" []], .node "a" []]
    ∃ ancestors, getAncestors placeAbove t.addresses 2 = .ok ancestors ∧
      ∀ place ∈ t.addresses, (2 ≤ place.length → ancestors place = some (place.drop 2)) ∧
        (place.length < 2 → ancestors place = none) :=
  getAncestors_spec _ (by decide)

end Gohan.Converter
