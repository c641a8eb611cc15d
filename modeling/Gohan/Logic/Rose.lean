import Mathlib.Data.List.Nodup

/-!
# Labelled trees and the places in them

A place in a tree is the way down to it, a list of positions among children.  The last step comes
first, so the place above is the tail.  `sub?` reads a tree at a place, and `addresses` lists all
its places from the root on, children in order (`mem_addresses`, `nodup_addresses`).
-/

set_option autoImplicit false

universe u v

/-- A tree, any number of whose nodes may be below one. -/
inductive Rose (α : Type u) where
  | node (label : α) (children : List (Rose α))

namespace Rose

variable {α : Type u} {β : Type v}

/-- What the root is labelled with. -/
def label : Rose α → α
  | node label _ => label

/-- The trees below the root. -/
def children : Rose α → List (Rose α)
  | node _ children => children

/-- Induction on trees. -/
theorem induct {P : Rose α → Prop}
    (node : ∀ label children, (∀ t ∈ children, P t) → P (.node label children)) (t : Rose α) :
    P t :=
  @Rose.rec α P (fun ts ↦ ∀ t ∈ ts, P t) node (fun _ ht ↦ absurd ht List.not_mem_nil)
    (fun _ _ hhead htail ↦ List.forall_mem_cons.mpr ⟨hhead, htail⟩) t

/-- The tree at a place. -/
def sub? (t : Rose α) : List ℕ → Option (Rose α)
  | [] => some t
  | i :: a => (t.sub? a).bind fun s ↦ s.children[i]?

theorem sub?_append (t : Rose α) (a b : List ℕ) :
    t.sub? (a ++ b) = (t.sub? b).bind fun s ↦ s.sub? a := by
  induction a with
  | nil => cases h : t.sub? b <;> simp [sub?, h]
  | cons i a ih => rw [List.cons_append, sub?, ih, Option.bind_assoc]; rfl

theorem sub?_tail {t s : Rose α} {i : ℕ} {a : List ℕ} (h : t.sub? (i :: a) = some s) :
    ∃ above, t.sub? a = some above ∧ above.children[i]? = some s :=
  Option.bind_eq_some_iff.mp h

/-! ## Annotations -/

mutual
/-- The tree with every label replaced by what is said of the tree below it. -/
def annotate (f : Rose α → β) : Rose α → Rose β
  | node label children => node (f (node label children)) (annotateAll f children)

/-- Some trees, with what the function has for each part of them. -/
def annotateAll (f : Rose α → β) : List (Rose α) → List (Rose β)
  | [] => []
  | t :: ts => annotate f t :: annotateAll f ts
end

theorem annotateAll_eq_map (f : Rose α → β) (ts : List (Rose α)) :
    annotateAll f ts = ts.map (annotate f) := by
  induction ts with
  | nil => rfl
  | cons t ts ih => rw [annotateAll, ih, List.map_cons]

@[simp] theorem label_annotate (f : Rose α → β) (t : Rose α) : (annotate f t).label = f t := by
  cases t
  rw [annotate, label]

theorem children_annotate (f : Rose α → β) (t : Rose α) :
    (annotate f t).children = t.children.map (annotate f) := by
  cases t
  rw [annotate, annotateAll_eq_map, children, children]

theorem sub?_annotate (f : Rose α → β) (t : Rose α) (a : List ℕ) :
    (annotate f t).sub? a = (t.sub? a).map (annotate f) := by
  induction a with
  | nil => rfl
  | cons i a ih =>
    rw [sub?, sub?, ih]
    cases t.sub? a with
    | none => rfl
    | some s =>
      rw [Option.map_some, Option.bind_some, Option.bind_some, children_annotate, List.getElem?_map]

/-! ## Places -/

mutual
/-- The places of a tree that is itself at a place. -/
def addressesAt (a : List ℕ) : Rose α → List (List ℕ)
  | node _ children => a :: addressesFrom a 0 children

/-- The places of trees that are children from a position on. -/
def addressesFrom (a : List ℕ) (i : ℕ) : List (Rose α) → List (List ℕ)
  | [] => []
  | t :: ts => addressesAt (i :: a) t ++ addressesFrom a (i + 1) ts
end

/-- The places of a tree. -/
def addresses (t : Rose α) : List (List ℕ) := addressesAt [] t

theorem mem_addressesFrom {a b : List ℕ} {i : ℕ} {ts : List (Rose α)} :
    b ∈ addressesFrom a i ts ↔ ∃ j t, ts[j]? = some t ∧ b ∈ addressesAt ((i + j) :: a) t := by
  induction ts generalizing i with
  | nil => simp [addressesFrom]
  | cons t ts ih =>
    rw [addressesFrom, List.mem_append, ih]
    constructor
    · rintro (h | ⟨j, s, hs, h⟩)
      · exact ⟨0, t, rfl, h⟩
      · exact ⟨j + 1, s, hs, by rwa [Nat.add_right_comm] at h⟩
    · rintro ⟨j, s, hs, h⟩
      cases j with
      | zero =>
        obtain rfl := Option.some.inj hs
        exact .inl h
      | succ j => exact .inr ⟨j, s, hs, by rwa [Nat.add_right_comm]⟩

theorem mem_addressesAt {t : Rose α} {a b : List ℕ} :
    b ∈ addressesAt a t ↔ ∃ c, b = c ++ a ∧ (t.sub? c).isSome := by
  induction t using induct generalizing a b with
  | node label children ih =>
    rw [addressesAt, List.mem_cons, mem_addressesFrom]
    constructor
    · rintro (rfl | ⟨j, t, ht, h⟩)
      · exact ⟨[], rfl, rfl⟩
      · obtain ⟨c, rfl, hc⟩ := (ih t (List.mem_of_getElem? ht)).mp h
        refine ⟨c ++ [j], by simp, ?_⟩
        rw [sub?_append, sub?, sub?, Option.bind_some]
        exact ht ▸ hc
    · rintro ⟨c, rfl, hc⟩
      rcases List.eq_nil_or_concat c with rfl | ⟨c, j, rfl⟩
      · exact .inl rfl
      · rw [List.concat_eq_append, sub?_append, sub?, sub?, Option.bind_some] at hc
        obtain ⟨s, hs⟩ := Option.isSome_iff_exists.mp hc
        obtain ⟨t, ht, hs⟩ := Option.bind_eq_some_iff.mp hs
        refine .inr ⟨j, t, ht, (ih t (List.mem_of_getElem? ht)).mpr ⟨c, by simp, ?_⟩⟩
        exact Option.isSome_iff_exists.mpr ⟨s, hs⟩

theorem mem_addresses {t : Rose α} {a : List ℕ} : a ∈ t.addresses ↔ (t.sub? a).isSome := by
  rw [addresses, mem_addressesAt]
  simp

/-- The place above a place of a tree is one too. -/
theorem mem_addresses_tail {t : Rose α} {i : ℕ} {a : List ℕ} (h : i :: a ∈ t.addresses) :
    a ∈ t.addresses := by
  rw [mem_addresses] at h ⊢
  obtain ⟨s, hs⟩ := Option.isSome_iff_exists.mp h
  obtain ⟨above, habove, -⟩ := sub?_tail hs
  rw [habove]
  rfl

/-- Places below a place end with the way to it. -/
theorem suffix_of_mem_addressesAt {t : Rose α} {a b : List ℕ} (h : b ∈ addressesAt a t) :
    a <:+ b := by
  obtain ⟨c, rfl, -⟩ := mem_addressesAt.mp h
  exact List.suffix_append c a

theorem nodup_addressesFrom {a : List ℕ} {i : ℕ} {ts : List (Rose α)}
    (h : ∀ t ∈ ts, ∀ b, (addressesAt b t).Nodup) : (addressesFrom a i ts).Nodup := by
  induction ts generalizing i with
  | nil => exact List.nodup_nil
  | cons t ts ih =>
    rw [addressesFrom]
    refine List.nodup_append.mpr ⟨h t List.mem_cons_self _,
      ih fun s hs ↦ h s (List.mem_cons_of_mem _ hs), fun b hb c hc heq ↦ ?_⟩
    subst heq
    obtain ⟨j, s, -, hs⟩ := mem_addressesFrom.mp hc
    have heq := (List.suffix_of_suffix_length_le (suffix_of_mem_addressesAt hb)
      (suffix_of_mem_addressesAt hs) (Nat.le_refl _)).eq_of_length rfl
    have hij : i = i + 1 + j := (List.cons.inj heq).1
    omega

theorem nodup_addressesAt (t : Rose α) (a : List ℕ) : (addressesAt a t).Nodup := by
  induction t using induct generalizing a with
  | node label children ih =>
    rw [addressesAt]
    refine List.nodup_cons.mpr ⟨fun h ↦ ?_, nodup_addressesFrom ih⟩
    obtain ⟨j, t, -, hmem⟩ := mem_addressesFrom.mp h
    have hlength := (suffix_of_mem_addressesAt hmem).length_le
    rw [List.length_cons] at hlength
    omega

/-- **Every place is listed once.** -/
theorem nodup_addresses (t : Rose α) : t.addresses.Nodup := nodup_addressesAt t []

end Rose
