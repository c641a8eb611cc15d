import Mathlib.Data.List.Nodup

/-!
# Updating an association list key by key

`put` stores a value under a key of an association list.  `updateAll f as m` goes through a list of
items; for each it looks at what is stored under the key of the item, and stores what `f` makes of
it, which may fail.

As long as the keys of the items are distinct the order does not matter: every item finds what was
there in the beginning (`lookup_updateAll`), the update goes through exactly when it does for every
item (`updateAll_isOk`), and where `f` has nothing to add nothing changes (`updateAll_eq_self`).
-/

set_option autoImplicit false

namespace KeyedUpdate

universe u v w

variable {κ : Type u} {β : Type v} [DecidableEq κ]

/-- Store a value under a key: in the place of the one that is there, or at the end. -/
def put (k : κ) (b : β) : List (κ × β) → List (κ × β)
  | [] => [(k, b)]
  | (l, c) :: m => if l = k then (k, b) :: m else (l, c) :: put k b m

/-- Store a value, if there is one. -/
def putIfSome (k : κ) : Option β → List (κ × β) → List (κ × β)
  | none, m => m
  | some b, m => put k b m

theorem lookup_cons_ne {k l : κ} (h : l ≠ k) (b : β) (m : List (κ × β)) :
    ((l, b) :: m).lookup k = m.lookup k := by
  rw [List.lookup_cons, beq_eq_false_iff_ne.mpr h.symm]

theorem lookup_put_self (k : κ) (b : β) (m : List (κ × β)) : (put k b m).lookup k = some b := by
  induction m with
  | nil => exact List.lookup_cons_self
  | cons e m ih =>
    obtain ⟨l, c⟩ := e
    by_cases h : l = k
    · rw [put, if_pos h]
      exact List.lookup_cons_self
    · rw [put, if_neg h, lookup_cons_ne h, ih]

theorem lookup_put_ne {k l : κ} (h : l ≠ k) (b : β) (m : List (κ × β)) :
    (put k b m).lookup l = m.lookup l := by
  induction m with
  | nil => exact lookup_cons_ne h.symm b []
  | cons e m ih =>
    obtain ⟨l', c⟩ := e
    by_cases hl' : l' = k
    · rw [put, if_pos hl', lookup_cons_ne h.symm, lookup_cons_ne (hl' ▸ h.symm)]
    · rw [put, if_neg hl', List.lookup_cons, List.lookup_cons, ih]

/-- Storing what is there already. -/
theorem put_eq_self {k : κ} {b : β} {m : List (κ × β)} (h : m.lookup k = some b) :
    put k b m = m := by
  induction m with
  | nil => cases h
  | cons e m ih =>
    obtain ⟨l, c⟩ := e
    by_cases hl : l = k
    · subst hl
      rw [List.lookup_cons_self, Option.some.injEq] at h
      rw [put, if_pos rfl, h]
    · rw [lookup_cons_ne hl] at h
      rw [put, if_neg hl, ih h]

theorem put_of_notMem {k : κ} {m : List (κ × β)} (h : k ∉ m.map Prod.fst) (b : β) :
    put k b m = m ++ [(k, b)] := by
  induction m with
  | nil => rfl
  | cons e m ih =>
    obtain ⟨l, c⟩ := e
    rw [List.map_cons, List.mem_cons, not_or] at h
    rw [put, if_neg (Ne.symm h.1), ih h.2, List.cons_append]

theorem lookup_putIfSome_ne {k l : κ} (h : l ≠ k) (b : Option β) (m : List (κ × β)) :
    (putIfSome k b m).lookup l = m.lookup l := by
  cases b with
  | none => rfl
  | some b => exact lookup_put_ne h b m

theorem putIfSome_lookup (k : κ) (m : List (κ × β)) : putIfSome k (m.lookup k) m = m := by
  cases h : m.lookup k with
  | none => rfl
  | some b => exact put_eq_self h

/-! ## Going through a list of items -/

variable {ι : Type w} {ε : Type v} (key : ι → κ) (f : ι → Option β → Except ε (Option β))

/-- Update what is stored under the key of one item. -/
def update (m : List (κ × β)) (a : ι) : Except ε (List (κ × β)) :=
  (f a (m.lookup (key a))).map fun b ↦ putIfSome (key a) b m

/-- One update after the other. -/
def updateAll (as : List ι) (m : List (κ × β)) : Except ε (List (κ × β)) :=
  as.foldlM (update key f) m

/-- Nothing that is stored is removed. -/
def Keeps : Prop := ∀ a b, f a (some b) ≠ .ok none

variable {key f} {as : List ι} {m m' : List (κ × β)}

theorem update_eq_ok {a : ι} : update key f m a = .ok m' ↔
    ∃ b, f a (m.lookup (key a)) = .ok b ∧ m' = putIfSome (key a) b m := by
  rw [update]
  cases f a (m.lookup (key a)) with
  | error e => simp [Except.map]
  | ok b => simp [Except.map, eq_comm]

/-- What is stored under the key of an item that has been updated. -/
theorem lookup_update (hf : Keeps f) {a : ι} (h : update key f m a = .ok m') :
    f a (m.lookup (key a)) = .ok (m'.lookup (key a)) := by
  obtain ⟨b, hb, rfl⟩ := update_eq_ok.mp h
  cases b with
  | some b => rw [putIfSome, lookup_put_self, hb]
  | none =>
    cases hold : m.lookup (key a) with
    | none => rw [putIfSome, ← hold, hb, hold]
    | some c => exact absurd (hold ▸ hb) (hf a c)

theorem lookup_update_ne {a : ι} (h : update key f m a = .ok m') {k : κ} (hk : k ≠ key a) :
    m'.lookup k = m.lookup k := by
  obtain ⟨b, -, rfl⟩ := update_eq_ok.mp h
  exact lookup_putIfSome_ne hk b m

theorem updateAll_cons {a : ι} : updateAll key f (a :: as) m = .ok m' ↔
    ∃ m₁, update key f m a = .ok m₁ ∧ updateAll key f as m₁ = .ok m' := by
  rw [updateAll, List.foldlM_cons]
  cases update key f m a with
  | error e => simp [bind, Except.bind]
  | ok m₁ => simp [bind, Except.bind, updateAll]

theorem lookup_updateAll_of_notMem (h : updateAll key f as m = .ok m') {k : κ}
    (hk : k ∉ as.map key) : m'.lookup k = m.lookup k := by
  induction as generalizing m with
  | nil =>
    obtain rfl : m = m' := Except.ok.inj h
    rfl
  | cons a as ih =>
    obtain ⟨m₁, hfirst, hrest⟩ := updateAll_cons.mp h
    rw [List.map_cons, List.mem_cons, not_or] at hk
    rw [ih hrest hk.2, lookup_update_ne hfirst hk.1]

/-- **Every item finds what was stored under its key in the beginning.** -/
theorem lookup_updateAll (hf : Keeps f) (hkeys : (as.map key).Nodup)
    (h : updateAll key f as m = .ok m') :
    ∀ a ∈ as, f a (m.lookup (key a)) = .ok (m'.lookup (key a)) := by
  induction as generalizing m with
  | nil => exact fun _ ha ↦ absurd ha List.not_mem_nil
  | cons a as ih =>
    obtain ⟨m₁, hfirst, hrest⟩ := updateAll_cons.mp h
    rw [List.map_cons, List.nodup_cons] at hkeys
    intro c hc
    rcases List.mem_cons.mp hc with rfl | hc
    · rw [lookup_updateAll_of_notMem hrest hkeys.1]
      exact lookup_update hf hfirst
    · have hne : key c ≠ key a := fun heq ↦ hkeys.1 (heq ▸ List.mem_map_of_mem hc)
      rw [← lookup_update_ne hfirst hne]
      exact ih hkeys.2 hrest c hc

/-- The update goes through exactly when it does for every item. -/
theorem updateAll_isOk (hkeys : (as.map key).Nodup) :
    (∃ m', updateAll key f as m = .ok m') ↔ ∀ a ∈ as, ∃ b, f a (m.lookup (key a)) = .ok b := by
  induction as generalizing m with
  | nil => exact iff_of_true ⟨m, rfl⟩ fun _ ha ↦ absurd ha List.not_mem_nil
  | cons a as ih =>
    rw [List.map_cons, List.nodup_cons] at hkeys
    have hothers : ∀ m₁, update key f m a = .ok m₁ → ∀ c ∈ as,
        m₁.lookup (key c) = m.lookup (key c) := fun m₁ hfirst c hc ↦
      lookup_update_ne hfirst fun heq ↦ hkeys.1 (heq ▸ List.mem_map_of_mem hc)
    constructor
    · rintro ⟨m', h⟩ c hc
      obtain ⟨m₁, hfirst, hrest⟩ := updateAll_cons.mp h
      rcases List.mem_cons.mp hc with rfl | hc
      · obtain ⟨b, hb, -⟩ := update_eq_ok.mp hfirst
        exact ⟨b, hb⟩
      · rw [← hothers m₁ hfirst c hc]
        exact (ih hkeys.2).mp ⟨m', hrest⟩ c hc
    · intro h
      obtain ⟨b, hb⟩ := h a List.mem_cons_self
      have hfirst : update key f m a = .ok (putIfSome (key a) b m) :=
        update_eq_ok.mpr ⟨b, hb, rfl⟩
      obtain ⟨m', hrest⟩ := (ih (m := putIfSome (key a) b m) hkeys.2).mpr fun c hc ↦ by
        rw [hothers _ hfirst c hc]
        exact h c (List.mem_cons_of_mem _ hc)
      exact ⟨m', updateAll_cons.mpr ⟨_, hfirst, hrest⟩⟩

/-- Where every item finds what `f` would store, nothing changes. -/
theorem updateAll_eq_self (h : ∀ a ∈ as, f a (m.lookup (key a)) = .ok (m.lookup (key a))) :
    updateAll key f as m = .ok m := by
  induction as with
  | nil => rfl
  | cons a as ih =>
    have hfirst : update key f m a = .ok m :=
      update_eq_ok.mpr ⟨_, h a List.mem_cons_self, (putIfSome_lookup _ m).symm⟩
    exact updateAll_cons.mpr ⟨m, hfirst, ih fun c hc ↦ h c (List.mem_cons_of_mem _ hc)⟩

/-- What is stored once is not stored again. -/
theorem updateAll_updateAll (hf : Keeps f) (hkeys : (as.map key).Nodup)
    (hidem : ∀ a ∈ as, ∀ b c, f a b = .ok c → f a c = .ok c)
    (h : updateAll key f as m = .ok m') : updateAll key f as m' = .ok m' :=
  updateAll_eq_self fun a ha ↦ hidem a ha _ _ (lookup_updateAll hf hkeys h a ha)

end KeyedUpdate
