import Gohan.Logic.Journal

/-!
# Snapshots of a key-value store

A reader of a store who wants to keep a copy of some of its keys first asks for what they hold, the
snapshot, and then follows the journal from there on.  The copy is the replay of what the reader has
got, from an empty store, and it never differs from what the store was at the end of the journal
that has been followed (`replay_snapshot_append`).
-/

set_option autoImplicit false

namespace Journal

universe u v

variable {K : Type u} {V : Type v} [DecidableEq K]

/-- The entries say what the keys with the property hold, those that hold something. -/
structure Snapshot (store : K → Option V) (p : K → Bool) (es : List (Entry K V)) : Prop where
  sound : ∀ e ∈ es, p e.key = true ∧ e.value ≠ none ∧ store e.key = e.value
  complete : ∀ k, p k = true → store k ≠ none → ∃ e ∈ es, e.key = k

variable {store : K → Option V} {p : K → Bool} {es front back : List (Entry K V)} {k : K}

/-- **A snapshot is a copy.** -/
theorem Snapshot.replay (h : Snapshot store p es) :
    Journal.replay (fun _ ↦ none) es k = if p k = true then store k else none := by
  rw [replay_eq]
  cases hlast : last? k es with
  | some e =>
    obtain ⟨he, rfl⟩ := of_last?_eq_some hlast
    obtain ⟨hp, -, hstore⟩ := h.sound e he
    rw [if_pos hp, hstore]
    rfl
  | none =>
    have hne := last?_eq_none_iff.mp hlast
    split
    · next hp =>
      by_contra hstore
      obtain ⟨e, he, hk⟩ := h.complete k hp fun hnone ↦ hstore (by rw [hnone]; rfl)
      exact hne e he hk
    · rfl

theorem last?_filter : last? k (es.filter (p ·.key)) = if p k = true then last? k es else none := by
  induction es with
  | nil => simp [last?]
  | cons e es ih =>
    rw [List.filter_cons]
    by_cases hk : e.key = k
    · subst hk
      by_cases hp : p e.key = true
      · rw [if_pos hp, last?, last?, ih, if_pos hp, if_pos hp, if_pos rfl]
      · rw [if_neg hp, ih, if_neg hp, if_neg hp]
    · have hrest (l : List (Entry K V)) : last? k (e :: l) = last? k l := by
        rw [last?, if_neg hk, Option.or_none]
      rw [hrest es, ← ih]
      split
      · exact hrest _
      · rfl

/-- A journal of which only the keys with the property are read. -/
theorem replay_filter (hp : p k = true) :
    Journal.replay store (es.filter (p ·.key)) k = Journal.replay store es k := by
  rw [replay_eq, replay_eq, last?_filter, if_pos hp]

/-- **A snapshot and what comes after it** are a copy of what the store is then. -/
theorem replay_snapshot_append (h : Snapshot (Journal.replay store front) p es) :
    Journal.replay (fun _ ↦ none) (es ++ back.filter (p ·.key)) k =
      if p k = true then Journal.replay store (front ++ back) k else none := by
  rw [replay_append]
  split
  · next hp =>
    rw [replay_filter hp, replay_append]
    refine replay_congr ?_ back
    rw [h.replay, if_pos hp]
  · next hp =>
    have hback : ∀ e ∈ back.filter (p ·.key), e.key ≠ k := by
      rintro e he rfl
      exact hp (List.mem_filter.mp he).2
    rw [replay_of_forall_ne hback, h.replay, if_neg hp]

universe w

variable {W : Type w}

/-- The entry of a reader who makes something of the values. -/
def Entry.mapValue (f : V → W) (e : Entry K V) : Entry K W := ⟨e.id, e.key, e.value.map f⟩

/-- The copy of such a reader has what is made of the values of the store. -/
theorem replay_map (f : V → W) :
    Journal.replay (fun k ↦ (store k).map f) (es.map (Entry.mapValue f)) k =
      (Journal.replay store es k).map f := by
  induction es generalizing store with
  | nil => rfl
  | cons e es ih =>
    have happly : apply (fun k ↦ (store k).map f) (e.mapValue f) =
        fun k ↦ (apply store e k).map f := by
      funext k
      rw [apply, apply, Entry.mapValue]
      by_cases hk : k = e.key
      · subst hk
        simp
      · rw [Function.update_of_ne hk, Function.update_of_ne hk]
    show Journal.replay (apply _ (e.mapValue f)) (es.map (Entry.mapValue f)) k = _
    rw [happly, ih]
    rfl

end Journal
