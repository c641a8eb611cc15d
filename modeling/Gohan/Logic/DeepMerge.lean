import Mathlib.Tactic.TypeStar

/-!
# Deep merge

A tree holds, under each key, another tree, a value or nothing.  `merge u s` enters the update `u`
into the source `s`: where both have keys it goes on under each of them, where the update has
nothing the source stays, and everywhere else the update is taken.

Paths of keys say the same without the recursion (`lookup_merge`).  Merging an update once more
changes nothing (`merge_merge_self`), and updates that are apart, which have at no path both a
value, may be merged in any order (`merge_left_comm`).
-/

set_option autoImplicit false

namespace DeepMerge

/-- A tree of maps; `absent` is what a map has under a key that it does not have. -/
inductive Tree (κ α : Type*) where
  | absent
  | leaf (a : α)
  | node (f : κ → Tree κ α)

variable {κ α : Type*}

namespace Tree

/-- The tree has a root with other trees below it, none perhaps. -/
def IsNode : Tree κ α → Prop
  | node _ => True
  | _ => False

/-- What is at a path. -/
def lookup : List κ → Tree κ α → Tree κ α
  | [], t => t
  | k :: path, node f => lookup path (f k)
  | _ :: _, _ => absent

@[simp] theorem lookup_nil (t : Tree κ α) : t.lookup [] = t := by cases t <;> rfl

@[simp] theorem lookup_cons_node (k : κ) (path : List κ) (f : κ → Tree κ α) :
    (node f).lookup (k :: path) = (f k).lookup path := rfl

@[simp] theorem lookup_absent (path : List κ) : (absent : Tree κ α).lookup path = absent := by
  cases path <;> rfl

theorem lookup_cons_leaf (k : κ) (path : List κ) (a : α) :
    (leaf a : Tree κ α).lookup (k :: path) = absent := rfl

/-- There is something but keys above the end of the path. -/
def Cuts (t : Tree κ α) (path : List κ) : Prop :=
  ∃ front back a, path = front ++ back ∧ back ≠ [] ∧ t.lookup front = leaf a

theorem lookup_of_cuts {t : Tree κ α} {path : List κ} (h : t.Cuts path) :
    t.lookup path = absent := by
  obtain ⟨front, back, a, rfl, hback, ht⟩ := h
  induction front generalizing t with
  | nil =>
    rw [lookup_nil] at ht
    subst ht
    cases back with
    | nil => exact absurd rfl hback
    | cons k back => rfl
  | cons k front ih =>
    cases t with
    | node f => exact ih ht
    | absent => rfl
    | leaf _ => rfl

theorem cuts_cons_node {k : κ} {path : List κ} {f : κ → Tree κ α} :
    (node f).Cuts (k :: path) ↔ (f k).Cuts path := by
  constructor
  · rintro ⟨front, back, a, hpath, hback, ht⟩
    cases front with
    | nil => cases ht
    | cons l front =>
      obtain ⟨rfl, rfl⟩ := List.cons.inj hpath
      exact ⟨front, back, a, rfl, hback, ht⟩
  · rintro ⟨front, back, a, rfl, hback, ht⟩
    exact ⟨k :: front, back, a, rfl, hback, ht⟩

theorem not_cuts_nil (t : Tree κ α) : ¬t.Cuts [] := by
  rintro ⟨front, back, a, hpath, hback, -⟩
  exact hback (List.append_eq_nil_iff.mp hpath.symm).2

theorem not_cuts_absent (path : List κ) : ¬(absent : Tree κ α).Cuts path := by
  rintro ⟨front, back, a, -, -, ht⟩
  rw [lookup_absent] at ht
  cases ht

end Tree

open DeepMerge.Tree

/-- The update, entered into the source. -/
def merge : Tree κ α → Tree κ α → Tree κ α
  | absent, s => s
  | leaf a, _ => leaf a
  | node f, node g => node fun k ↦ merge (f k) (g k)
  | node f, _ => node f

@[simp] theorem merge_absent_left (s : Tree κ α) : merge absent s = s := by cases s <;> rfl

@[simp] theorem merge_absent_right (u : Tree κ α) : merge u absent = u := by cases u <;> rfl

@[simp] theorem merge_leaf (a : α) (s : Tree κ α) : merge (leaf a) s = leaf a := by cases s <;> rfl

@[simp] theorem merge_node_leaf (f : κ → Tree κ α) (a : α) : merge (node f) (leaf a) = node f := rfl

@[simp] theorem merge_node_node (f g : κ → Tree κ α) :
    merge (node f) (node g) = node fun k ↦ merge (f k) (g k) := rfl

/-- **The merge along a path**: what is there is merged, unless the update has put something but
keys above it. -/
theorem lookup_merge (path : List κ) (u s : Tree κ α) :
    (u.Cuts path → (merge u s).lookup path = absent) ∧
      (¬u.Cuts path → (merge u s).lookup path = merge (u.lookup path) (s.lookup path)) := by
  induction path generalizing u s with
  | nil => exact ⟨fun h ↦ absurd h (not_cuts_nil u), fun _ ↦ by simp only [lookup_nil]⟩
  | cons k path ih =>
    cases u with
    | absent => exact ⟨fun h ↦ absurd h (not_cuts_absent _), fun _ ↦ by simp⟩
    | leaf a =>
      have hcuts : (leaf a : Tree κ α).Cuts (k :: path) :=
        ⟨[], k :: path, a, rfl, List.cons_ne_nil k path, rfl⟩
      exact ⟨fun _ ↦ by rw [merge_leaf, lookup_cons_leaf], fun h ↦ absurd hcuts h⟩
    | node f =>
      rw [cuts_cons_node]
      cases s with
      | node g => exact ih (f k) (g k)
      | absent =>
        refine ⟨fun h ↦ ?_, fun _ ↦ by simp⟩
        rw [merge_absent_right, lookup_cons_node, lookup_of_cuts h]
      | leaf a =>
        refine ⟨fun h ↦ ?_, fun _ ↦ ?_⟩
        · rw [merge_node_leaf, lookup_cons_node, lookup_of_cuts h]
        · rw [merge_node_leaf, lookup_cons_leaf, merge_absent_right]

/-- The merge, value by value. -/
structure IsMerge (u s w : Tree κ α) : Prop where
  /-- A value of the update that is no map is taken. -/
  leaf : ∀ path a, u.lookup path = .leaf a → w.lookup path = .leaf a
  /-- So is a map of the update for which the source has none. -/
  noMap : ∀ path, (u.lookup path).IsNode → ¬(s.lookup path).IsNode → w.lookup path = u.lookup path
  /-- Two maps are merged. -/
  maps : ∀ path f g, u.lookup path = .node f → s.lookup path = .node g →
    w.lookup path = .node fun k ↦ merge (f k) (g k)
  /-- What the update does not have stays, if the update leaves the maps it is in. -/
  kept : ∀ path, u.lookup path = .absent → ¬u.Cuts path → w.lookup path = s.lookup path

theorem isMerge_merge (u s : Tree κ α) : IsMerge u s (merge u s) where
  leaf path a h := by
    have hcuts : ¬u.Cuts path := fun hcuts ↦ by simp [lookup_of_cuts hcuts] at h
    rw [(lookup_merge path u s).2 hcuts, h, merge_leaf]
  noMap path hu hs := by
    have hcuts : ¬u.Cuts path := fun hcuts ↦ by simp [lookup_of_cuts hcuts, IsNode] at hu
    rw [(lookup_merge path u s).2 hcuts]
    revert hu hs
    cases u.lookup path <;> cases s.lookup path <;> simp [IsNode]
  maps path f g hu hs := by
    have hcuts : ¬u.Cuts path := fun hcuts ↦ by simp [lookup_of_cuts hcuts] at hu
    rw [(lookup_merge path u s).2 hcuts, hu, hs, merge_node_node]
  kept path hu hcuts := by rw [(lookup_merge path u s).2 hcuts, hu, merge_absent_left]

/-! ## Merging twice -/

theorem merge_self (u : Tree κ α) : merge u u = u := by
  induction u with
  | absent => rfl
  | leaf a => rfl
  | node f ih => rw [merge_node_node, funext ih]

/-- **Merging an update again changes nothing.** -/
theorem merge_merge_self (u s : Tree κ α) : merge u (merge u s) = merge u s := by
  induction u generalizing s with
  | absent => rw [merge_absent_left]
  | leaf a => rw [merge_leaf, merge_leaf]
  | node f ih =>
    cases s with
    | node g => rw [merge_node_node, merge_node_node, funext fun k ↦ ih k (g k)]
    | absent => rw [merge_absent_right, merge_self]
    | leaf a => rw [merge_node_leaf, merge_self]

/-! ## Updates that are apart -/

/-- At no path both have a value, save for the maps they share. -/
def Apart : Tree κ α → Tree κ α → Prop
  | absent, _ => True
  | _, absent => True
  | node f, node g => ∀ k, Apart (f k) (g k)
  | _, _ => False

@[simp] theorem apart_absent_right (u : Tree κ α) : Apart u absent := by cases u <;> trivial

theorem apart_iff {u v : Tree κ α} : Apart u v ↔ ∀ path,
    u.lookup path = absent ∨ v.lookup path = absent ∨
      (u.lookup path).IsNode ∧ (v.lookup path).IsNode := by
  constructor
  · intro h path
    induction path generalizing u v with
    | nil =>
      cases u <;> cases v <;> simp_all [Apart, IsNode]
    | cons k path ih =>
      cases u with
      | absent => exact .inl (lookup_absent _)
      | leaf a => exact .inl rfl
      | node f =>
        cases v with
        | absent => exact .inr (.inl rfl)
        | leaf a => exact .inr (.inl rfl)
        | node g => exact ih (h k)
  · intro h
    induction u generalizing v with
    | absent => trivial
    | leaf a =>
      have hroot := h []
      cases v <;> simp_all [Apart, IsNode]
    | node f ih =>
      cases v with
      | absent => trivial
      | leaf a => exact absurd (h []) (by simp [IsNode])
      | node g => exact fun k ↦ ih k fun path ↦ h (k :: path)

theorem Apart.symm {u v : Tree κ α} (h : Apart u v) : Apart v u := by
  rw [apart_iff] at h ⊢
  intro path
  rcases h path with hu | hv | ⟨hu, hv⟩
  · exact .inr (.inl hu)
  · exact .inl hv
  · exact .inr (.inr ⟨hv, hu⟩)

theorem merge_comm {u v : Tree κ α} (h : Apart u v) : merge u v = merge v u := by
  induction u generalizing v with
  | absent => rw [merge_absent_left, merge_absent_right]
  | leaf a =>
    cases v with
    | absent => rfl
    | _ => exact h.elim
  | node f ih =>
    cases v with
    | absent => rfl
    | leaf a => exact h.elim
    | node g => rw [merge_node_node, merge_node_node, funext fun k ↦ ih k (h k)]

/-- **Updates that are apart are merged in any order.** -/
theorem merge_left_comm {u v : Tree κ α} (h : Apart u v) (s : Tree κ α) :
    merge v (merge u s) = merge u (merge v s) := by
  induction u generalizing v s with
  | absent => rw [merge_absent_left, merge_absent_left]
  | leaf a =>
    cases v with
    | absent => rw [merge_absent_left, merge_absent_left]
    | _ => exact h.elim
  | node f ih =>
    cases v with
    | absent => rw [merge_absent_left, merge_absent_left]
    | leaf a => exact h.elim
    | node g =>
      cases s with
      | node s =>
        simp only [merge_node_node]
        rw [funext fun k ↦ ih k (h k) (s k)]
      | absent => rw [merge_absent_right, merge_absent_right, merge_comm h]
      | leaf a => rw [merge_node_leaf, merge_node_leaf, merge_comm h]

/-! ## Sources that have no other value for a map -/

/-- Wherever the update has a map, the source has a map, nothing or `null`. -/
def Fits (null : α) : Tree κ α → Tree κ α → Prop
  | node f, node g => ∀ k, Fits null (f k) (g k)
  | node _, leaf a => a = null
  | _, _ => True

theorem fits_iff {null : α} {u s : Tree κ α} :
    Fits null u s ↔ ∀ path a, (u.lookup path).IsNode → s.lookup path = leaf a → a = null := by
  constructor
  · intro h path a hu hs
    induction path generalizing u s with
    | nil =>
      rw [lookup_nil] at hu hs
      subst hs
      cases u with
      | node f => exact h
      | _ => exact hu.elim
    | cons k path ih =>
      cases u with
      | node f =>
        cases s with
        | node g => exact ih (h k) hu hs
        | _ => cases hs
      | _ => simp [lookup_cons_leaf, IsNode] at hu
  · intro h
    induction u generalizing s with
    | absent => cases s <;> trivial
    | leaf a => cases s <;> trivial
    | node f ih =>
      cases s with
      | absent => trivial
      | leaf a => exact h [] a trivial rfl
      | node g => exact fun k ↦ ih k fun path ↦ h (k :: path)

theorem fits_merge_self {null : α} (u s : Tree κ α) : Fits null u (merge u s) := by
  induction u generalizing s with
  | absent => cases s <;> trivial
  | leaf a => cases s <;> trivial
  | node f ih =>
    have hself (k : κ) : Fits null (f k) (f k) := by
      have h := ih k (f k)
      rwa [merge_self] at h
    cases s with
    | node g => exact fun k ↦ ih k (g k)
    | absent => exact hself
    | leaf a => exact hself

/-- An update that is apart leaves the source fitting. -/
theorem Fits.merge {null : α} {u v s : Tree κ α} (hapart : Apart u v) (h : Fits null v s) :
    Fits null v (merge u s) := by
  induction v generalizing u s with
  | absent => cases DeepMerge.merge u s <;> trivial
  | leaf a => cases DeepMerge.merge u s <;> trivial
  | node g ih =>
    cases u with
    | absent => rwa [merge_absent_left]
    | leaf a => exact hapart.elim
    | node f =>
      have hself (k : κ) : Fits null (g k) (f k) := by
        have hk := ih k (hapart k) (s := .absent) (by cases g k <;> trivial)
        rwa [merge_absent_right] at hk
      cases s with
      | node s => exact fun k ↦ ih k (hapart k) (h k)
      | absent => exact hself
      | leaf a => exact hself

end DeepMerge
