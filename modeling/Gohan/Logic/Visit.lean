import Mathlib.Data.List.Forall2
import Mathlib.Data.List.Perm.Basic

/-!
# Visiting collections in an unspecified order

A loop over a map may visit the entries in any order.  When a program loops over several maps, one
after the other, each of them is visited in some order of its own: `Orders cs vs` says that `vs`
are the visits that may come out for the maps `cs`.

A property of the whole loop that is a property of every visit can then be settled map by map.
`forall_orders_iff` and `exists_orders_iff` are the two quantifiers over the orders: a property
holds of all visits in all orders exactly when it holds of all orders of each map, and it holds of
all visits in some order exactly when each map has an order it holds of.
-/

set_option autoImplicit false

namespace Visit

variable {α : Type*} {P : List α → Prop}

/-! ## Lists that are related element by element -/

theorem exists_mem_right {β : Type*} {R : α → β → Prop} {as : List α} {bs : List β}
    (h : List.Forall₂ R as bs) {a : α} (ha : a ∈ as) : ∃ b ∈ bs, R a b := by
  induction h with
  | nil => cases ha
  | @cons a' b as bs hab _ ih =>
    rcases List.mem_cons.mp ha with rfl | ha
    · exact ⟨b, List.mem_cons_self, hab⟩
    · obtain ⟨c, hc, hac⟩ := ih ha
      exact ⟨c, List.mem_cons_of_mem _ hc, hac⟩

theorem exists_mem_left {β : Type*} {R : α → β → Prop} {as : List α} {bs : List β}
    (h : List.Forall₂ R as bs) {b : β} (hb : b ∈ bs) : ∃ a ∈ as, R a b :=
  exists_mem_right h.flip hb

/-! ## Orders -/

/-- `vs` visits the collections `cs` one by one, each in some order. -/
def Orders (cs vs : List (List α)) : Prop := List.Forall₂ List.Perm cs vs

theorem Orders.refl (cs : List (List α)) : Orders cs cs :=
  List.forall₂_same.mpr fun c _ ↦ List.Perm.refl c

/-- Replace the order in which one of the collections is visited. -/
theorem exists_orders_mem {cs : List (List α)} {c v : List α} (hc : c ∈ cs) (hv : c.Perm v) :
    ∃ vs, Orders cs vs ∧ v ∈ vs := by
  induction cs with
  | nil => simp at hc
  | cons d cs ih =>
    rcases List.mem_cons.mp hc with rfl | hc
    · exact ⟨v :: cs, List.Forall₂.cons hv (Orders.refl cs), List.mem_cons_self⟩
    · obtain ⟨vs, hvs, hmem⟩ := ih hc
      exact ⟨d :: vs, List.Forall₂.cons (List.Perm.refl d) hvs, List.mem_cons_of_mem _ hmem⟩

/-- **All visits in all orders**: all orders of each collection. -/
theorem forall_orders_iff {cs : List (List α)} :
    (∀ vs, Orders cs vs → ∀ v ∈ vs, P v) ↔ ∀ c ∈ cs, ∀ v, c.Perm v → P v := by
  constructor
  · intro h c hc v hv
    obtain ⟨vs, hvs, hmem⟩ := exists_orders_mem hc hv
    exact h vs hvs v hmem
  · intro h vs hvs v hv
    induction hvs with
    | nil => simp at hv
    | cons hperm _ ih =>
      rcases List.mem_cons.mp hv with rfl | hv
      · exact h _ List.mem_cons_self _ hperm
      · exact ih (fun c hc ↦ h c (List.mem_cons_of_mem _ hc)) hv

/-- **All visits in some order**: some order of each collection. -/
theorem exists_orders_iff {cs : List (List α)} :
    (∃ vs, Orders cs vs ∧ ∀ v ∈ vs, P v) ↔ ∀ c ∈ cs, ∃ v, c.Perm v ∧ P v := by
  induction cs with
  | nil => simp [Orders]
  | cons c cs ih =>
    rw [List.forall_mem_cons, ← ih]
    constructor
    · rintro ⟨_, hvs, hP⟩
      obtain ⟨v, vs, hv, hrest, rfl⟩ := List.forall₂_cons_left_iff.mp hvs
      rw [List.forall_mem_cons] at hP
      exact ⟨⟨v, hv, hP.1⟩, vs, hrest, hP.2⟩
    · rintro ⟨⟨v, hv, hPv⟩, vs, hvs, hP⟩
      exact ⟨v :: vs, List.Forall₂.cons hv hvs, List.forall_mem_cons.mpr ⟨hPv, hP⟩⟩

/-- **The first hit in every order**: there is one, and no other. -/
theorem forall_perm_find?_iff {p : α → Bool} {l : List α} {a : α} :
    (∀ order : List α, order.Perm l → order.find? p = some a) ↔
      (a ∈ l ∧ p a = true) ∧ ∀ b ∈ l, p b = true → b = a := by
  constructor
  · intro h
    have hfound := h l (List.Perm.refl l)
    refine ⟨⟨List.mem_of_find?_eq_some hfound, List.find?_some hfound⟩, fun b hb hpb ↦ ?_⟩
    obtain ⟨before, after, rfl⟩ := List.append_of_mem hb
    have hfirst := h (b :: (before ++ after)) List.perm_middle.symm
    rw [List.find?_cons_of_pos hpb] at hfirst
    exact Option.some.inj hfirst
  · rintro ⟨⟨ha, hpa⟩, honly⟩ order hperm
    have hsome : (order.find? p).isSome :=
      List.find?_isSome.mpr ⟨a, hperm.mem_iff.mpr ha, hpa⟩
    obtain ⟨b, hb⟩ := Option.isSome_iff_exists.mp hsome
    rw [hb, honly b (hperm.mem_iff.mp (List.mem_of_find?_eq_some hb)) (List.find?_some hb)]

/-- When the loop over each map is about some item, each item has a visit of its own. -/
theorem Orders.exists_mem_zip {β : Type*} {f : β → List α} {items : List β} {vs : List (List α)}
    (h : Orders (items.map f) vs) {b : β} (hb : b ∈ items) :
    ∃ v, (b, v) ∈ items.zip vs ∧ (f b).Perm v := by
  rw [Orders, List.forall₂_map_left_iff] at h
  induction h with
  | nil => cases hb
  | @cons first v items vs hperm _ ih =>
    rcases List.mem_cons.mp hb with rfl | hb
    · exact ⟨v, List.mem_cons_self, hperm⟩
    · obtain ⟨w, hmem, hw⟩ := ih hb
      exact ⟨w, List.mem_cons_of_mem _ hmem, hw⟩

end Visit
