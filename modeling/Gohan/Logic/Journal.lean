import Mathlib.Data.List.Basic
import Mathlib.Data.List.Induction
import Mathlib.Data.List.Nodup
import Mathlib.Logic.Function.Basic

/-!
# Journals of a key-value store

A store is written key by key, and a journal is the list of the writes in the order they are made.
`replay` is the store after a journal.  What a key holds then is decided by the last entry for it
(`replay_eq`), and by nothing else.

Every entry has a number.  When entries are delivered at least once, late or in another order, the
journal that comes about is not the list of the entries, and still the two may lead to the same
store: `replay_eq_replay` says that it is enough if, for each key, the last entry of the journal is
none that a numbered entry outdates.
-/

set_option autoImplicit false

namespace Journal

universe u v

/-- A write: from now on the key holds the value, or nothing. -/
structure Entry (K : Type u) (V : Type v) where
  id : ℕ
  key : K
  value : Option V

variable {K : Type u} {V : Type v} [DecidableEq K]

/-- The store after a write. -/
def apply (store : K → Option V) (e : Entry K V) : K → Option V :=
  Function.update store e.key e.value

/-- The store after a journal. -/
def replay (store : K → Option V) (es : List (Entry K V)) : K → Option V := es.foldl apply store

/-- The last entry of a journal for a key. -/
def last? (k : K) : List (Entry K V) → Option (Entry K V)
  | [] => none
  | e :: es => (last? k es).or (if e.key = k then some e else none)

variable {store : K → Option V} {es es' : List (Entry K V)} {e : Entry K V} {k : K}

theorem replay_append : replay store (es ++ es') = replay (replay store es) es' := by
  simp [replay]

theorem last?_append : last? k (es ++ es') = (last? k es').or (last? k es) := by
  induction es with
  | nil => simp [last?]
  | cons e es ih => rw [List.cons_append, last?, ih, last?, Option.or_assoc]

theorem last?_append_singleton :
    last? k (es ++ [e]) = if e.key = k then some e else last? k es := by
  rw [last?_append]
  by_cases h : e.key = k <;> simp [last?, h]

theorem of_last?_eq_some (h : last? k es = some e) : e ∈ es ∧ e.key = k := by
  induction es with
  | nil => cases h
  | cons d es ih =>
    rw [last?, Option.or_eq_some_iff] at h
    rcases h with h | ⟨-, h⟩
    · exact ⟨List.mem_cons_of_mem _ (ih h).1, (ih h).2⟩
    · split_ifs at h with hd
      cases h
      exact ⟨List.mem_cons_self, hd⟩

theorem last?_eq_none_iff : last? k es = none ↔ ∀ e ∈ es, e.key ≠ k := by
  induction es with
  | nil => simp [last?]
  | cons d es ih => simp [last?, ih, Option.or_eq_none_iff, and_comm]

/-- **What a key holds after a journal**: what its last entry says. -/
theorem replay_eq : replay store es k = ((last? k es).map Entry.value).getD (store k) := by
  induction es generalizing store with
  | nil => rfl
  | cons d es ih =>
    have hcons : replay store (d :: es) = replay (apply store d) es := rfl
    rw [hcons, ih, last?]
    cases last? k es with
    | some e => rfl
    | none =>
      by_cases hd : d.key = k
      · subst hd
        simp [apply]
      · simp [apply, hd, Function.update_of_ne (Ne.symm hd)]

/-- What a key holds after a journal depends on nothing but what it held before. -/
theorem replay_congr {store' : K → Option V} (h : store k = store' k) (es : List (Entry K V)) :
    replay store es k = replay store' es k := by
  rw [replay_eq, replay_eq, h]

/-- A key without an entry holds what it held. -/
theorem replay_of_forall_ne (h : ∀ e ∈ es, e.key ≠ k) : replay store es k = store k := by
  rw [replay_eq, last?_eq_none_iff.mpr h]
  rfl

/-- In a list in the order of the numbers, the last entry for a key has the greatest number. -/
theorem id_le_of_last? (hes : es.Pairwise (·.id ≤ ·.id)) (h : last? k es = some e) :
    ∀ d ∈ es, d.key = k → d.id ≤ e.id := by
  induction es with
  | nil => cases h
  | cons c es ih =>
    rw [List.pairwise_cons] at hes
    intro d hd hk
    rw [last?, Option.or_eq_some_iff] at h
    rcases h with h | ⟨hnone, h⟩
    · rcases List.mem_cons.mp hd with rfl | hd
      · exact hes.1 e (of_last?_eq_some h).1
      · exact ih hes.2 h d hd hk
    · split_ifs at h
      cases h
      rcases List.mem_cons.mp hd with rfl | hd
      · exact Nat.le_refl _
      · exact absurd hk (last?_eq_none_iff.mp hnone d hd)

omit [DecidableEq K] in
/-- Two entries of such a list with the same number are the same. -/
theorem eq_of_id_eq (hes : es.Pairwise (·.id < ·.id)) {d : Entry K V} (he : e ∈ es) (hd : d ∈ es)
    (h : e.id = d.id) : e = d :=
  List.inj_on_of_nodup_map (List.pairwise_map.mpr (hes.imp (Nat.ne_of_lt ·))) he hd h

/-- **Delivery out of order.**  A journal of numbered entries, some of them perhaps repeated, leads
to the same value of a key as the entries in the order of their numbers, if for every entry for the
key the last one delivered has no smaller number. -/
theorem replay_eq_replay {numbered journal : List (Entry K V)}
    (hnumbered : numbered.Pairwise (·.id < ·.id)) (hsub : ∀ e ∈ journal, e.key = k → e ∈ numbered)
    (hlast : ∀ e ∈ numbered, e.key = k → ∃ d, last? k journal = some d ∧ e.id ≤ d.id) :
    replay store journal k = replay store numbered k := by
  rw [replay_eq, replay_eq]
  congr 2
  cases hn : last? k numbered with
  | none =>
    rw [last?_eq_none_iff] at hn ⊢
    exact fun e he hk ↦ hn e (hsub e he hk) hk
  | some e =>
    obtain ⟨he, hk⟩ := of_last?_eq_some hn
    obtain ⟨d, hd, hle⟩ := hlast e he hk
    obtain ⟨hdmem, hdk⟩ := of_last?_eq_some hd
    have hge : d.id ≤ e.id :=
      id_le_of_last? (hnumbered.imp Nat.le_of_lt) hn d (hsub d hdmem hdk) hdk
    rw [hd, eq_of_id_eq hnumbered (hsub d hdmem hdk) he (by omega)]

/-! ## The latest with a property -/

section Latest

variable {α β : Type*} {p q : α → Bool} {l : List α} {a : α}

/-- The last of those that have a property. -/
def latest (p : α → Bool) (l : List α) : Option α := (l.filter p).getLast?

theorem latest_append_singleton :
    latest p (l ++ [a]) = if p a then some a else latest p l := by
  rw [latest, List.filter_append, latest]
  by_cases h : p a = true <;> simp [h]

theorem of_latest_eq_some (h : latest p l = some a) : a ∈ l ∧ p a = true :=
  List.mem_filter.mp (List.mem_of_getLast? h)

theorem latest_eq_none_iff : latest p l = none ↔ ∀ a ∈ l, p a = false := by
  simp [latest]

theorem latest_congr (h : ∀ a ∈ l, p a = q a) : latest p l = latest q l := by
  rw [latest, latest, List.filter_congr h]

theorem latest_map {p : β → Bool} (f : α → β) :
    latest p (l.map f) = (latest (p ∘ f) l).map f := by
  rw [latest, latest, List.filter_map, List.getLast?_map]

theorem latest_filter : latest p (l.filter q) = latest (fun a ↦ p a && q a) l := by
  rw [latest, latest, List.filter_filter]

/-- The last of many is the last of the fewer that it is among. -/
theorem latest_of_imp (hpq : ∀ a ∈ l, p a = true → q a = true) (h : latest q l = some a)
    (ha : p a = true) : latest p l = some a := by
  have hfilter : l.filter p = (l.filter q).filter p := by
    rw [List.filter_filter]
    refine List.filter_congr fun b hb ↦ ?_
    cases hp : p b with
    | false => rfl
    | true => rw [hpq b hb hp]; rfl
  obtain ⟨front, hfront⟩ := List.getLast?_eq_some_iff.mp h
  rw [latest, hfilter, hfront, List.filter_append]
  simp [ha]

/-- The last entry for a key, where the entries come about one by one from something else. -/
theorem last?_filterMap {f : α → Option (Entry K V)}
    (hp : ∀ a ∈ l, p a = true ↔ ∃ e, f a = some e ∧ e.key = k) :
    last? k (l.filterMap f) = (latest p l).bind f := by
  induction l using List.reverseRecOn with
  | nil => rfl
  | append_singleton l a ih =>
    have hl : ∀ b ∈ l, p b = true ↔ ∃ e, f b = some e ∧ e.key = k :=
      fun b hb ↦ hp b (List.mem_append_left _ hb)
    have ha := hp a (by simp)
    rw [List.filterMap_append, latest_append_singleton]
    cases hf : f a with
    | none =>
      have hnot : ¬ p a = true := fun h ↦ by
        obtain ⟨e, he, -⟩ := ha.mp h
        rw [hf] at he
        cases he
      rw [if_neg hnot, List.filterMap_cons_none hf, List.filterMap_nil, List.append_nil, ih hl]
    | some e =>
      rw [List.filterMap_cons_some hf, List.filterMap_nil, last?_append_singleton]
      by_cases hk : e.key = k
      · rw [if_pos hk, if_pos (ha.mpr ⟨e, hf, hk⟩)]
        exact hf.symm
      · have hnot : ¬ p a = true := fun h ↦ by
          obtain ⟨d, hd, hdk⟩ := ha.mp h
          cases hf.symm.trans hd
          exact hk hdk
        rw [if_neg hk, if_neg hnot, ih hl]

end Latest

end Journal
