import Mathlib.Data.Finset.Card
import Mathlib.Logic.Function.Basic
import Mathlib.Logic.Relation

/-!
# Topological sort

A depth-first search with three marks.  A node that is visited is first marked `temporary`, then
the nodes it needs are visited, and then it is marked `visited` and put at the end of the order.  A
node that is met while it is `temporary` closes a cycle.  The marks are kept by the key of a node,
so two nodes with one key are visited once.

* `Sorted` is what the order is for: what a node needs comes before it (`visit_ok`).
* When a search fails without having run out of fuel, there is a cycle, or it is not known what
  some node needs (`visit_error`); an order that is sorted has no cycle (`Sorted.not_transGen`).
* More fuel than there are nodes to visit is always enough (`visit_ne_fuel`).

`exhaust` is the loop around the search, which starts again from an unmarked node while there is
one.
-/

set_option autoImplicit false

namespace Toposort

universe u v w

/-- How far a node has been visited. -/
inductive Mark where
  | notVisited
  | temporary
  | visited
  deriving DecidableEq

/-- Why a search ends without an order. -/
inductive Failure (ε : Type w) where
  | cycle
  | next (e : ε)
  | fuel
  deriving DecidableEq

/-- The marks, and the order so far. -/
structure State (α : Type u) (β : Type v) where
  mark : α → Mark
  done : List β

variable {α : Type u} {β : Type v} {ε : Type w}

/-- No node has been visited. -/
def State.start : State α β := ⟨fun _ ↦ .notVisited, []⟩

variable (key : β → α) (next : β → Except ε (List β))

section Search

variable [DecidableEq α]

/-- The visit of a node begins. -/
def State.enter (s : State α β) (b : β) : State α β :=
  { s with mark := Function.update s.mark (key b) .temporary }

/-- The visit of a node ends. -/
def State.leave (s : State α β) (b : β) : State α β :=
  ⟨Function.update s.mark (key b) .visited, s.done ++ [b]⟩

/-- A node is visited, after those that it depends on. -/
def visit : ℕ → State α β → β → Except (Failure ε) (State α β)
  | 0, _, _ => .error .fuel
  | fuel + 1, s, b =>
    match s.mark (key b) with
    | .temporary => .error .cycle
    | .visited => .ok s
    | .notVisited =>
      match next b with
      | .error e => .error (.next e)
      | .ok bs =>
        match bs.foldlM (visit fuel) (s.enter key b) with
        | .error e => .error e
        | .ok t => .ok (t.leave key b)

/-- Visit what `pick` finds, until it finds nothing. -/
def exhaust (pick : State α β → Option β) (fuel : ℕ) :
    ℕ → State α β → Except (Failure ε) (State α β)
  | 0, _ => .error .fuel
  | n + 1, s =>
    match pick s with
    | none => .ok s
    | some b =>
      match visit key next fuel s b with
      | .error e => .error e
      | .ok t => exhaust pick fuel n t

end Search

/-! ## Sorted orders -/

/-- One node needs the other. -/
def Edge (b c : β) : Prop := ∃ bs, next b = .ok bs ∧ c ∈ bs

/-- What a node of the order needs comes before it. -/
def Sorted (done : List β) : Prop :=
  ∀ before b after, done = before ++ b :: after →
    ∃ bs, next b = .ok bs ∧ ∀ c ∈ bs, key c ∈ before.map key

variable {key next}

theorem Sorted.nil : Sorted key next [] := by
  intro before b after h
  simp at h

theorem Sorted.snoc {done bs : List β} {b : β} (h : Sorted key next done) (hnext : next b = .ok bs)
    (hbs : ∀ c ∈ bs, key c ∈ done.map key) : Sorted key next (done ++ [b]) := by
  intro before a after heq
  rcases List.eq_nil_or_concat after with rfl | ⟨after, last, rfl⟩
  · obtain ⟨rfl, hlast⟩ := List.append_inj' heq rfl
    obtain rfl := List.singleton_inj.mp hlast
    exact ⟨bs, hnext, hbs⟩
  · rw [List.concat_eq_append, ← List.cons_append, ← List.append_assoc] at heq
    exact h before a after (List.append_inj' heq rfl).1

/-- What a node of a sorted order needs has a key with a smaller index. -/
theorem Sorted.idxOf_lt [DecidableEq α] {done : List β} (h : Sorted key next done)
    (hnodup : (done.map key).Nodup)
    {a c : β} (ha : a ∈ done) (hedge : Edge next a c) :
    (done.map key).idxOf (key c) < (done.map key).idxOf (key a) ∧ key c ∈ done.map key := by
  obtain ⟨before, after, rfl⟩ := List.append_of_mem ha
  obtain ⟨bs, hbs, hbefore⟩ := h before a after rfl
  obtain ⟨cs, hcs, hc⟩ := hedge
  obtain rfl : bs = cs := Except.ok.inj (hbs.symm.trans hcs)
  have hmem : key c ∈ before.map key := hbefore c hc
  have hnot : key a ∉ before.map key := by
    intro hmem
    rw [List.map_append, List.map_cons] at hnodup
    exact (List.nodup_append.mp hnodup).2.2 _ hmem _ List.mem_cons_self rfl
  refine ⟨?_, by rw [List.map_append]; exact List.mem_append_left _ hmem⟩
  rw [List.map_append, List.map_cons, List.idxOf_append_of_mem hmem,
    List.idxOf_append_of_notMem hnot, List.idxOf_cons_self, Nat.add_zero]
  exact List.idxOf_lt_length_of_mem hmem

/-- What comes after a node of a sorted order is not what it needs. -/
theorem Sorted.pairwise {done : List β} (h : Sorted key next done)
    (hnodup : (done.map key).Nodup) :
    done.Pairwise fun b a ↦ key b ≠ key a ∧ ∀ c, Edge next b c → key c ≠ key a := by
  have hrest : ∀ before rest, done = before ++ rest →
      rest.Pairwise fun b a ↦ key b ≠ key a ∧ ∀ c, Edge next b c → key c ≠ key a := by
    intro before rest hdone
    induction rest generalizing before with
    | nil => exact List.Pairwise.nil
    | cons b after ih =>
      refine List.pairwise_cons.mpr ⟨fun a ha ↦ ?_, ih (before ++ [b]) (by rw [hdone]; simp)⟩
      obtain ⟨bs, hbs, hbefore⟩ := h before b after hdone
      rw [hdone, List.map_append, List.map_cons] at hnodup
      obtain ⟨-, hlast, hdisjoint⟩ := List.nodup_append.mp hnodup
      have hafter : key a ∈ after.map key := List.mem_map_of_mem ha
      refine ⟨fun heq ↦ (List.nodup_cons.mp hlast).1 (heq ▸ hafter), fun c hc heq ↦ ?_⟩
      obtain ⟨cs, hcs, hmem⟩ := hc
      obtain rfl : bs = cs := Except.ok.inj (hbs.symm.trans hcs)
      exact hdisjoint _ (hbefore c hmem) _ (List.mem_cons_of_mem _ hafter) heq
  exact hrest [] done rfl

/-- **There is no cycle in a sorted order.** -/
theorem Sorted.not_transGen [DecidableEq α] {P : β → Prop} {done : List β}
    (h : Sorted key next done) (hnodup : (done.map key).Nodup) (hP : ∀ b ∈ done, P b)
    (hclosed : ∀ b c, P b → Edge next b c → P c)
    (hkey : ∀ a b, P a → P b → key a = key b → a = b) {a : β} (ha : a ∈ done) :
    ¬Relation.TransGen (Edge next) a a := by
  have hstep : ∀ b c, b ∈ done → Edge next b c →
      c ∈ done ∧ (done.map key).idxOf (key c) < (done.map key).idxOf (key b) := by
    intro b c hb hedge
    obtain ⟨hlt, hmem⟩ := h.idxOf_lt hnodup hb hedge
    obtain ⟨d, hd, hkeys⟩ := List.mem_map.mp hmem
    obtain rfl := hkey d c (hP d hd) (hclosed b c (hP b hb) hedge) hkeys
    exact ⟨hd, hlt⟩
  have hpath : ∀ b, Relation.TransGen (Edge next) a b →
      b ∈ done ∧ (done.map key).idxOf (key b) < (done.map key).idxOf (key a) := by
    intro b hb
    induction hb with
    | single hedge => exact hstep a _ ha hedge
    | tail _ hedge ih =>
      obtain ⟨hmem, hlt⟩ := hstep _ _ ih.1 hedge
      exact ⟨hmem, hlt.trans ih.2⟩
  exact fun hcycle ↦ absurd (hpath a hcycle).2 (lt_irrefl _)

/-! ## What a search does to the marks -/

variable (key next) in
/-- The marks tell what is in the order, and the order is sorted. -/
structure Inv (P : β → Prop) (s : State α β) : Prop where
  visited_iff : ∀ k, s.mark k = .visited ↔ k ∈ s.done.map key
  nodup : (s.done.map key).Nodup
  sorted : Sorted key next s.done
  mem : ∀ b ∈ s.done, P b

variable (key next) in
/-- After a search that is not interrupted all nodes of a list are visited, and the marks that are
`temporary` are the same as before. -/
structure Visits (P : β → Prop) (s t : State α β) (bs : List β) : Prop where
  inv : Inv key next P t
  temporary_iff : ∀ k, t.mark k = .temporary ↔ s.mark k = .temporary
  mono : ∀ k, s.mark k = .visited → t.mark k = .visited
  visited : ∀ b ∈ bs, t.mark (key b) = .visited

variable {P : β → Prop} {s t u : State α β} {b : β} {bs cs : List β}

theorem Inv.start : Inv key next P (State.start : State α β) where
  visited_iff k := by simp [State.start]
  nodup := List.nodup_nil
  sorted := Sorted.nil
  mem b hb := absurd hb List.not_mem_nil

theorem Visits.refl (h : Inv key next P s) : Visits key next P s s [] :=
  ⟨h, fun _ ↦ Iff.rfl, fun _ h ↦ h, fun _ hb ↦ absurd hb List.not_mem_nil⟩

theorem Visits.trans (h : Visits key next P s t bs) (h' : Visits key next P t u cs) :
    Visits key next P s u (bs ++ cs) where
  inv := h'.inv
  temporary_iff k := (h'.temporary_iff k).trans (h.temporary_iff k)
  mono k hk := h'.mono k (h.mono k hk)
  visited b hb := by
    rcases List.mem_append.mp hb with hb | hb
    · exact h'.mono _ (h.visited b hb)
    · exact h'.visited b hb

/-- A node that is not visited yet was not visited before. -/
theorem Visits.notVisited (h : Visits key next P s t bs) {k : α} (hk : t.mark k = .notVisited) :
    s.mark k = .notVisited := by
  cases hs : s.mark k with
  | notVisited => rfl
  | temporary => simp [(h.temporary_iff k).mpr hs] at hk
  | visited => simp [h.mono k hs] at hk

variable [DecidableEq α]

@[simp] theorem State.mark_enter_self (s : State α β) (b : β) :
    (s.enter key b).mark (key b) = .temporary := Function.update_self _ _ _

theorem State.mark_enter_of_ne (s : State α β) {k : α} (hk : k ≠ key b) :
    (s.enter key b).mark k = s.mark k := Function.update_of_ne hk _ _

@[simp] theorem State.mark_leave_self (s : State α β) (b : β) :
    (s.leave key b).mark (key b) = .visited := Function.update_self _ _ _

theorem State.mark_leave_of_ne (s : State α β) {k : α} (hk : k ≠ key b) :
    (s.leave key b).mark k = s.mark k := Function.update_of_ne hk _ _

theorem State.map_done_leave (s : State α β) (b : β) :
    (s.leave key b).done.map key = s.done.map key ++ [key b] := List.map_append

theorem Inv.enter (h : Inv key next P s) (hb : s.mark (key b) = .notVisited) :
    Inv key next P (s.enter key b) where
  visited_iff k := by
    show (s.enter key b).mark k = .visited ↔ k ∈ s.done.map key
    rw [← h.visited_iff k]
    by_cases hk : k = key b
    · simp [hk, hb]
    · rw [s.mark_enter_of_ne hk]
  nodup := h.nodup
  sorted := h.sorted
  mem := h.mem

/-- The step of the search: a node is entered, what it needs is visited, and it is left. -/
theorem Visits.leave (hP : P b) (hb : s.mark (key b) = .notVisited) (hnext : next b = .ok bs)
    (h : Visits key next P (s.enter key b) t bs) :
    Visits key next P s (t.leave key b) [b] := by
  have htemp : t.mark (key b) = .temporary := (h.temporary_iff _).mpr (s.mark_enter_self b)
  have hfresh : key b ∉ t.done.map key := by
    intro hmem
    rw [(h.inv.visited_iff _).mpr hmem] at htemp
    cases htemp
  refine ⟨⟨fun k ↦ ?_, ?_, ?_, fun c hc ↦ ?_⟩, fun k ↦ ?_, fun k hk ↦ ?_, fun c hc ↦ ?_⟩
  · rw [t.map_done_leave, List.mem_append, List.mem_singleton, ← h.inv.visited_iff k]
    by_cases hk : k = key b
    · simp [hk]
    · simp [t.mark_leave_of_ne hk, hk]
  · rw [t.map_done_leave]
    exact List.nodup_append.mpr ⟨h.inv.nodup, List.nodup_singleton _, fun k hk l hl heq ↦ by
      rw [heq, List.mem_singleton.mp hl] at hk
      exact hfresh hk⟩
  · exact h.inv.sorted.snoc hnext fun c hc ↦ (h.inv.visited_iff _).mp (h.visited c hc)
  · rcases List.mem_append.mp hc with hc | hc
    · exact h.inv.mem c hc
    · rwa [List.mem_singleton.mp hc]
  · by_cases hk : k = key b
    · simp [hk, hb]
    · rw [t.mark_leave_of_ne hk, h.temporary_iff k, s.mark_enter_of_ne hk]
  · have hne : k ≠ key b := fun heq ↦ by simp [heq, hb] at hk
    rw [t.mark_leave_of_ne hne]
    exact h.mono k (by rwa [s.mark_enter_of_ne hne])
  · rw [List.mem_singleton.mp hc, t.mark_leave_self]

/-! ## A search that succeeds -/

omit [DecidableEq α] in
theorem foldlM_ok {f : State α β → β → Except (Failure ε) (State α β)}
    (hf : ∀ s b t, b ∈ bs → Inv key next P s → f s b = .ok t → Visits key next P s t [b])
    (hs : Inv key next P s) (h : bs.foldlM f s = .ok t) : Visits key next P s t bs := by
  induction bs generalizing s with
  | nil =>
    obtain rfl : s = t := Except.ok.inj h
    exact Visits.refl hs
  | cons b bs ih =>
    rw [List.foldlM_cons] at h
    cases hb : f s b with
    | error e => rw [hb] at h; cases h
    | ok r =>
      rw [hb] at h
      have hfirst := hf s b r List.mem_cons_self hs hb
      have hrest := ih (fun s c t hc ↦ hf s c t (List.mem_cons_of_mem _ hc)) hfirst.inv h
      simpa using hfirst.trans hrest

theorem visit_ok (hclosed : ∀ b c, P b → Edge next b c → P c) {fuel : ℕ} (hb : P b)
    (hs : Inv key next P s) (h : visit key next fuel s b = .ok t) : Visits key next P s t [b] := by
  induction fuel generalizing s t b with
  | zero => cases h
  | succ fuel ih =>
    rw [visit] at h
    cases hmark : s.mark (key b) with
    | temporary => rw [hmark] at h; cases h
    | visited =>
      rw [hmark] at h
      obtain rfl : s = t := Except.ok.inj h
      exact ⟨hs, fun _ ↦ Iff.rfl, fun _ h ↦ h, fun c hc ↦ by rwa [List.mem_singleton.mp hc]⟩
    | notVisited =>
      simp only [hmark] at h
      cases hnext : next b with
      | error e => simp only [hnext] at h; cases h
      | ok bs =>
        simp only [hnext] at h
        cases hfold : bs.foldlM (visit key next fuel) (s.enter key b) with
        | error e => simp only [hfold] at h; cases h
        | ok r =>
          simp only [hfold] at h
          obtain rfl : r.leave key b = t := Except.ok.inj h
          refine Visits.leave hb hmark hnext (foldlM_ok (fun s c t hc hs h ↦ ?_)
            (hs.enter hmark) hfold)
          exact ih (hclosed b c hb ⟨bs, hnext, hc⟩) hs h

theorem exhaust_ok (hclosed : ∀ b c, P b → Edge next b c → P c) {pick : State α β → Option β}
    (hpick : ∀ s b, pick s = some b → P b) {fuel n : ℕ} (hs : Inv key next P s)
    (h : exhaust key next pick fuel n s = .ok t) : Visits key next P s t [] ∧ pick t = none := by
  induction n generalizing s with
  | zero => cases h
  | succ n ih =>
    rw [exhaust] at h
    cases hnone : pick s with
    | none =>
      simp only [hnone] at h
      obtain rfl : s = t := Except.ok.inj h
      exact ⟨Visits.refl hs, hnone⟩
    | some b =>
      simp only [hnone] at h
      cases hvisit : visit key next fuel s b with
      | error e => simp only [hvisit] at h; cases h
      | ok r =>
        simp only [hvisit] at h
        have hfirst := visit_ok hclosed (hpick s b hnone) hs hvisit
        obtain ⟨hrest, hend⟩ := ih hfirst.inv h
        exact ⟨⟨hrest.inv, (hfirst.trans hrest).temporary_iff, (hfirst.trans hrest).mono,
          hrest.visited⟩, hend⟩

/-! ## A search that fails -/

variable (next) in
/-- What is wrong with the graph when a search fails for want of something other than fuel. -/
def Explains (P : β → Prop) : Failure ε → Prop
  | .cycle => ∃ a, P a ∧ Relation.TransGen (Edge next) a a
  | .next e => ∃ a, P a ∧ next a = .error e
  | .fuel => True

theorem foldlM_error {σ : Type*} {φ : Type*} {f : σ → β → Except φ σ} {s : σ} {e : φ}
    (h : bs.foldlM f s = .error e) : ∃ before b after t, bs = before ++ b :: after ∧
      before.foldlM f s = .ok t ∧ f t b = .error e := by
  induction bs generalizing s with
  | nil => cases h
  | cons b bs ih =>
    rw [List.foldlM_cons] at h
    cases hb : f s b with
    | error e' =>
      rw [hb] at h
      obtain rfl : e' = e := Except.error.inj h
      exact ⟨[], b, bs, s, rfl, rfl, hb⟩
    | ok r =>
      rw [hb] at h
      obtain ⟨before, c, after, t, rfl, hbefore, hc⟩ := ih h
      refine ⟨b :: before, c, after, t, rfl, ?_, hc⟩
      rw [List.foldlM_cons, hb]
      exact hbefore

/-- The nodes that are being visited lead to the one that is visited next. -/
theorem visit_error (hclosed : ∀ b c, P b → Edge next b c → P c)
    (hkey : ∀ a b, P a → P b → key a = key b → a = b) {fuel : ℕ} (hb : P b)
    (hs : Inv key next P s)
    (hpath : ∀ k, s.mark k = .temporary → ∃ a, P a ∧ key a = k ∧ Relation.TransGen (Edge next) a b)
    {e : Failure ε} (h : visit key next fuel s b = .error e) : Explains next P e := by
  induction fuel generalizing s b with
  | zero =>
    obtain rfl : Failure.fuel = e := Except.error.inj h
    trivial
  | succ fuel ih =>
    rw [visit] at h
    cases hmark : s.mark (key b) with
    | temporary =>
      simp only [hmark] at h
      obtain rfl : Failure.cycle = e := Except.error.inj h
      obtain ⟨a, ha, hkeys, hcycle⟩ := hpath _ hmark
      obtain rfl := hkey a b ha hb hkeys
      exact ⟨a, ha, hcycle⟩
    | visited => simp only [hmark] at h; cases h
    | notVisited =>
      simp only [hmark] at h
      cases hnext : next b with
      | error e' =>
        simp only [hnext] at h
        obtain rfl : Failure.next e' = e := Except.error.inj h
        exact ⟨b, hb, hnext⟩
      | ok bs =>
        simp only [hnext] at h
        cases hfold : bs.foldlM (visit key next fuel) (s.enter key b) with
        | ok r => simp only [hfold] at h; cases h
        | error e' =>
          simp only [hfold] at h
          obtain rfl : e' = e := Except.error.inj h
          obtain ⟨before, c, after, t, rfl, hbefore, hc⟩ := foldlM_error hfold
          have hedge : ∀ d ∈ before ++ c :: after, Edge next b d := fun d hd ↦ ⟨_, hnext, hd⟩
          have hvisits := foldlM_ok (fun s d t hd hs h ↦ visit_ok hclosed
            (hclosed b d hb (hedge d (List.mem_append_left _ hd))) hs h) (hs.enter hmark) hbefore
          have hbc : Edge next b c := hedge c (by simp)
          refine ih (hclosed b c hb hbc) hvisits.inv (fun k hk ↦ ?_) hc
          rw [hvisits.temporary_iff] at hk
          by_cases heq : k = key b
          · exact ⟨b, hb, heq.symm, Relation.TransGen.single hbc⟩
          · rw [s.mark_enter_of_ne heq] at hk
            obtain ⟨a, ha, hka, hab⟩ := hpath k hk
            exact ⟨a, ha, hka, hab.tail hbc⟩

theorem exhaust_error (hclosed : ∀ b c, P b → Edge next b c → P c)
    (hkey : ∀ a b, P a → P b → key a = key b → a = b) {pick : State α β → Option β}
    (hpick : ∀ s b, pick s = some b → P b) {fuel n : ℕ} (hs : Inv key next P s)
    (hidle : ∀ k, s.mark k ≠ .temporary) {e : Failure ε}
    (h : exhaust key next pick fuel n s = .error e) : Explains next P e := by
  induction n generalizing s with
  | zero =>
    obtain rfl : Failure.fuel = e := Except.error.inj h
    trivial
  | succ n ih =>
    rw [exhaust] at h
    cases hnone : pick s with
    | none => simp only [hnone] at h; cases h
    | some b =>
      simp only [hnone] at h
      have hb : P b := hpick s b hnone
      cases hvisit : visit key next fuel s b with
      | error e' =>
        simp only [hvisit] at h
        obtain rfl : e' = e := Except.error.inj h
        exact visit_error hclosed hkey hb hs (fun k hk ↦ absurd hk (hidle k)) hvisit
      | ok r =>
        simp only [hvisit] at h
        have hvisits := visit_ok hclosed hb hs hvisit
        exact ih hvisits.inv (fun k hk ↦ hidle k ((hvisits.temporary_iff k).mp hk)) h

/-! ## Fuel -/

/-- How many of the keys have no mark. -/
def fresh (keys : Finset α) (s : State α β) : ℕ :=
  (keys.filter fun k ↦ s.mark k = .notVisited).card

omit [DecidableEq α] in
theorem Visits.fresh_le (h : Visits key next P s t bs) (keys : Finset α) :
    fresh keys t ≤ fresh keys s := by
  refine Finset.card_le_card fun k hk ↦ ?_
  rw [Finset.mem_filter] at hk ⊢
  exact ⟨hk.1, h.notVisited hk.2⟩

omit [DecidableEq α] in
/-- A node gets a mark and none loses it. -/
theorem fresh_lt {keys : Finset α} (hmem : key b ∈ keys) (hb : s.mark (key b) = .notVisited)
    (ht : t.mark (key b) ≠ .notVisited)
    (hmono : ∀ k, t.mark k = .notVisited → s.mark k = .notVisited) :
    fresh keys t < fresh keys s := by
  refine Finset.card_lt_card ⟨fun k hk ↦ ?_, fun hsub ↦ ?_⟩
  · rw [Finset.mem_filter] at hk ⊢
    exact ⟨hk.1, hmono k hk.2⟩
  · exact ht (Finset.mem_filter.mp (hsub (Finset.mem_filter.mpr ⟨hmem, hb⟩))).2

theorem visit_ne_fuel (hclosed : ∀ b c, P b → Edge next b c → P c) {keys : Finset α}
    (hkeys : ∀ b, P b → key b ∈ keys) {fuel : ℕ} (hb : P b) (hs : Inv key next P s)
    (hfuel : fresh keys s < fuel) : visit key next fuel s b ≠ .error .fuel := by
  induction fuel generalizing s b with
  | zero => exact absurd hfuel (Nat.not_lt_zero _)
  | succ fuel ih =>
    intro h
    rw [visit] at h
    cases hmark : s.mark (key b) with
    | temporary => simp only [hmark] at h; cases h
    | visited => simp only [hmark] at h; cases h
    | notVisited =>
      simp only [hmark] at h
      cases hnext : next b with
      | error e => simp only [hnext] at h; cases h
      | ok bs =>
        simp only [hnext] at h
        cases hfold : bs.foldlM (visit key next fuel) (s.enter key b) with
        | ok r => simp only [hfold] at h; cases h
        | error e =>
          simp only [hfold] at h
          obtain rfl : e = Failure.fuel := Except.error.inj h
          obtain ⟨before, c, after, t, rfl, hbefore, hc⟩ := foldlM_error hfold
          have hP : ∀ d ∈ before ++ c :: after, P d := fun d hd ↦ hclosed b d hb ⟨_, hnext, hd⟩
          have hvisits := foldlM_ok (fun s d t hd hs h ↦ visit_ok hclosed
            (hP d (List.mem_append_left _ hd)) hs h) (hs.enter hmark) hbefore
          have henter : fresh keys (s.enter key b) < fresh keys s := by
            refine fresh_lt (hkeys b hb) hmark (by simp) fun k hk ↦ ?_
            by_cases heq : k = key b
            · rwa [heq]
            · rwa [s.mark_enter_of_ne heq] at hk
          have hle := hvisits.fresh_le keys
          exact ih (hP c (by simp)) hvisits.inv (by omega) hc

theorem exhaust_ne_fuel (hclosed : ∀ b c, P b → Edge next b c → P c) {keys : Finset α}
    (hkeys : ∀ b, P b → key b ∈ keys) {pick : State α β → Option β}
    (hpick : ∀ s b, pick s = some b → P b ∧ s.mark (key b) = .notVisited) {fuel n : ℕ}
    (hs : Inv key next P s) (hfuel : fresh keys s < fuel) (hn : fresh keys s < n) :
    exhaust key next pick fuel n s ≠ .error .fuel := by
  induction n generalizing s with
  | zero => exact absurd hn (Nat.not_lt_zero _)
  | succ n ih =>
    intro h
    rw [exhaust] at h
    cases hnone : pick s with
    | none => simp only [hnone] at h; cases h
    | some b =>
      simp only [hnone] at h
      obtain ⟨hb, hmark⟩ := hpick s b hnone
      cases hvisit : visit key next fuel s b with
      | error e =>
        simp only [hvisit] at h
        obtain rfl : e = Failure.fuel := Except.error.inj h
        exact visit_ne_fuel hclosed hkeys hb hs hfuel hvisit
      | ok r =>
        simp only [hvisit] at h
        have hvisits := visit_ok hclosed hb hs hvisit
        have hlt : fresh keys r < fresh keys s :=
          fresh_lt (hkeys b hb) hmark (by simp [hvisits.visited b]) fun k ↦ hvisits.notVisited
        exact ih hvisits.inv (by omega) (by omega) h

end Toposort
