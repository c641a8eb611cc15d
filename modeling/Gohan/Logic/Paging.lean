import Gohan.Logic.Selection
import Mathlib.Data.List.Perm.Basic
import Mathlib.Data.List.Range

/-!
# Reading a list page by page

A list in some order is read in pages of `n` elements, and for each page the list is put in order
anew.  The order need not be strict: elements may be tied, and then the list may come out in several
ways (`Orders`), a different one for each page.

`take_perm_take`: before a place where no two elements are tied across it, there are the same
elements however the list came out.  So the pages have every element once if the ends of pages are
such places; and `pages_perm_iff` says that only then can one rely on it.
-/

set_option autoImplicit false

namespace Paging

open List

variable {α : Type*} {r : α → α → Prop}

/-- The list is one way of putting the rows in order. -/
structure Orders (r : α → α → Prop) (rows l : List α) : Prop where
  perm : l.Perm rows
  pairwise : l.Pairwise r

/-- No element from this place on is tied with one before it. -/
def Splits (r : α → α → Prop) (l : List α) (place : ℕ) : Prop :=
  ∀ a ∈ l.take place, ∀ c ∈ l.drop place, ¬r c a

/-- The elements from `offset` on, `n` of them. -/
def window (offset n : ℕ) (l : List α) : List α := Selection.cut offset (some n) l

/-- The first `K` pages, each of its own list. -/
def pages (n K : ℕ) (ls : ℕ → List α) : List α := (range K).flatMap fun k ↦ window (k * n) n (ls k)

/-! ## Before a place without ties -/

/-- What holds of an element and of all before it holds of the elements at the front. -/
theorem filter_eq_take {p : α → Bool} {l : List α}
    (h : l.Pairwise fun a b ↦ p b = true → p a = true) :
    l.filter p = l.take (l.filter p).length := by
  induction l with
  | nil => rfl
  | cons a l ih =>
    obtain ⟨ha, hl⟩ := pairwise_cons.mp h
    cases hp : p a with
    | true =>
      rw [filter_cons_of_pos hp, length_cons, take_succ_cons, ← ih hl]
    | false =>
      have hnone : l.filter p = [] := by
        rw [filter_eq_nil_iff]
        intro b hb hpb
        rw [ha b hb hpb] at hp
        cases hp
      rw [filter_cons_of_neg (by simp [hp]), hnone]
      rfl

theorem take_perm_take [Std.Total r] [IsTrans α r] {rows l l' : List α} {place : ℕ}
    (hl : Orders r rows l) (hl' : Orders r rows l') (hsplits : Splits r l place) :
    (l.take place).Perm (l'.take place) := by
  classical
  -- an element is before the place if it comes before one that is, in every order
  let p : α → Bool := fun x ↦ decide (∃ a ∈ l.take place, r x a)
  have htake : l.filter p = l.take place := by
    conv_lhs => rw [← take_append_drop place l]
    have hfront : (l.take place).filter p = l.take place := by
      rw [filter_eq_self]
      intro a ha
      exact decide_eq_true ⟨a, ha, (Std.Total.total a a).elim id id⟩
    have hback : (l.drop place).filter p = [] := by
      rw [filter_eq_nil_iff]
      intro c hc hpc
      obtain ⟨a, ha, hca⟩ := of_decide_eq_true hpc
      exact hsplits a ha c hc hca
    rw [filter_append, hfront, hback, append_nil]
  have hdown : l'.Pairwise fun a b ↦ p b = true → p a = true := by
    refine hl'.pairwise.imp fun {a b} hab hpb ↦ ?_
    obtain ⟨c, hc, hbc⟩ := of_decide_eq_true hpb
    exact decide_eq_true ⟨c, hc, IsTrans.trans a b c hab hbc⟩
  have hperm : (l'.filter p).Perm (l.take place) :=
    htake ▸ (hl'.perm.trans hl.perm.symm).filter p
  have hlength : l'.length = l.length := (hl'.perm.trans hl.perm.symm).length_eq
  have htake' : l'.filter p = l'.take place := by
    rw [filter_eq_take hdown, hperm.length_eq, length_take, ← hlength]
    exact (take_eq_take_min).symm
  rw [← htake']
  exact hperm.symm

/-! ## Pages -/

theorem pages_succ (n K : ℕ) (ls : ℕ → List α) :
    pages n (K + 1) ls = pages n K ls ++ window (K * n) n (ls K) := by
  rw [pages, range_succ, flatMap_append, flatMap_singleton]
  rfl

theorem take_append_window (k n : ℕ) (l : List α) :
    l.take (k * n) ++ window (k * n) n l = l.take ((k + 1) * n) := by
  rw [Nat.succ_mul, take_add]
  rfl

/-- The pages of one list make up the list. -/
theorem pages_const (n K : ℕ) (l : List α) : pages n K (fun _ ↦ l) = l.take (K * n) := by
  induction K with
  | zero => simp [pages]
  | succ K ih => rw [pages_succ, ih, take_append_window]

/-- Every element is on one page, if the pages end at places without ties. -/
theorem pages_perm_take [Std.Total r] [IsTrans α r] {rows l : List α} {n : ℕ}
    (hl : Orders r rows l) (hsplits : ∀ k, Splits r l (k * n)) {ls : ℕ → List α}
    (hls : ∀ k, Orders r rows (ls k)) (K : ℕ) : (pages n K ls).Perm (l.take (K * n)) := by
  induction K with
  | zero => simp [pages]
  | succ K ih =>
    have hbefore : (l.take (K * n)).Perm ((ls K).take (K * n)) :=
      take_perm_take hl (hls K) (hsplits K)
    rw [pages_succ]
    refine ((ih.trans hbefore).append_right _).trans ?_
    rw [take_append_window]
    exact (take_perm_take hl (hls K) (hsplits (K + 1))).symm

/-- The list changes after `k` pages. -/
theorem pages_change (n : ℕ) {k K : ℕ} (hk : k ≤ K) (l l' : List α) :
    pages n K (fun j ↦ if j < k then l else l') =
      l.take (k * n) ++ (l'.drop (k * n)).take ((K - k) * n) := by
  induction K with
  | zero =>
    obtain rfl : k = 0 := Nat.le_zero.mp hk
    simp [pages]
  | succ K ih =>
    rcases Nat.lt_or_eq_of_le hk with hlt | rfl
    · have hle : k ≤ K := by omega
      have hsub : K + 1 - k = K - k + 1 := by omega
      have hoffset : K * n = k * n + (K - k) * n := by
        rw [← Nat.add_mul]
        congr 1
        omega
      rw [pages_succ, ih hle, if_neg (by omega), append_assoc, hsub,
        ← take_append_window (K - k) n, window, window, Selection.cut, Selection.cut, drop_drop,
        ← hoffset]
    · have hsame : pages n (K + 1) (fun j ↦ if j < K + 1 then l else l') =
          pages n (K + 1) fun _ ↦ l := by
        refine flatMap_congr fun j hj ↦ ?_
        show window (j * n) n (if j < K + 1 then l else l') = _
        rw [if_pos (mem_range.mp hj)]
      rw [hsame, pages_const]
      simp

/-- A tie across a place is one between the elements next to it. -/
theorem exists_adjacent_tie [Std.Total r] [IsTrans α r] {l : List α} (hl : l.Pairwise r)
    {place : ℕ} (h : ¬Splits r l place) :
    ∃ front x y back, l = front ++ x :: y :: back ∧ front.length + 1 = place ∧ r y x := by
  rw [Splits] at h
  push Not at h
  obtain ⟨a, ha, c, hc, hca⟩ := h
  obtain ⟨front, x, hfront⟩ := (eq_nil_or_concat (l.take place)).resolve_left (ne_nil_of_mem ha)
  cases hback : l.drop place with
  | nil =>
    rw [hback] at hc
    cases hc
  | cons y back =>
    have hsplit : l = front ++ x :: y :: back := by
      rw [← take_append_drop place l, hfront, hback]
      simp
    have hplace : front.length + 1 = place := by
      have hlength := congrArg length hfront
      have hlt : place < l.length := by
        by_contra hge
        rw [drop_eq_nil_of_le (by omega)] at hback
        cases hback
      rw [length_take, concat_eq_append, length_append, length_singleton] at hlength
      omega
    refine ⟨front, x, y, back, hsplit, hplace, ?_⟩
    have hrefl (b : α) : r b b := (Std.Total.total b b).elim id id
    have hax : r a x := by
      rw [hfront, concat_eq_append, mem_append, mem_singleton] at ha
      rcases ha with ha | rfl
      · rw [hsplit] at hl
        exact (pairwise_append.mp hl).2.2 a ha x mem_cons_self
      · exact hrefl a
    have hyc : r y c := by
      rw [hback, mem_cons] at hc
      rcases hc with rfl | hc
      · exact hrefl c
      · rw [hsplit] at hl
        exact (pairwise_cons.mp (pairwise_cons.mp (pairwise_append.mp hl).2.1).2).1 c hc
    exact IsTrans.trans y c x hyc (IsTrans.trans c a x hca hax)

/-- Tied neighbours may come the other way round. -/
theorem Orders.swap [IsTrans α r] {rows front back : List α} {x y : α}
    (h : Orders r rows (front ++ x :: y :: back)) (htie : r y x) :
    Orders r rows (front ++ y :: x :: back) where
  perm := ((Perm.swap x y back).append_left front).trans h.perm
  pairwise := by
    obtain ⟨hfront, hrest, hacross⟩ := pairwise_append.mp h.pairwise
    obtain ⟨hx, hrest⟩ := pairwise_cons.mp hrest
    obtain ⟨hy, hback⟩ := pairwise_cons.mp hrest
    refine pairwise_append.mpr ⟨hfront, ?_, fun a ha b hb ↦ ?_⟩
    · refine pairwise_cons.mpr ⟨fun b hb ↦ ?_, pairwise_cons.mpr ⟨fun b hb ↦ ?_, hback⟩⟩
      · rcases mem_cons.mp hb with rfl | hb
        · exact htie
        · exact hy b hb
      · exact hx b (mem_cons_of_mem y hb)
    · refine hacross a ha b ?_
      simp only [mem_cons] at hb ⊢
      tauto

/-- **However the list comes out for each page, the pages have every row once: this holds exactly
when every page ends at a place without ties.** -/
theorem pages_perm_iff [Std.Total r] [IsTrans α r] {rows l : List α} (hl : Orders r rows l)
    (hnodup : rows.Nodup) {n K : ℕ} (hcover : rows.length ≤ K * n) :
    (∀ ls : ℕ → List α, (∀ k, Orders r rows (ls k)) → (pages n K ls).Perm rows) ↔
      ∀ k, Splits r l (k * n) := by
  have hlength := hl.perm.length_eq
  constructor
  · intro hpages k
    by_contra htied
    obtain ⟨front, x, y, back, rfl, hplace, htie⟩ := exists_adjacent_tie hl.pairwise htied
    have hk : k ≤ K := by
      by_contra hlt
      have hle : K * n ≤ k * n := Nat.mul_le_mul_right n (by omega)
      simp only [length_append, length_cons] at hlength
      omega
    have hperm := hpages (fun j ↦ if j < k then front ++ x :: y :: back
      else front ++ y :: x :: back) fun j ↦ by
        split
        · exact hl
        · exact hl.swap htie
    rw [pages_change n hk] at hperm
    -- `x` ends one page and begins the next
    have htake : (front ++ x :: y :: back).take (k * n) = front ++ [x] := by
      rw [← hplace, take_append, take_of_length_le (by omega)]
      simp
    have hdrop : (front ++ y :: x :: back).drop (k * n) = x :: back := by
      rw [← hplace, drop_append, drop_of_length_le (by omega)]
      simp
    have hrest : (x :: back).take ((K - k) * n) = x :: back := by
      refine take_of_length_le ?_
      rw [Nat.sub_mul]
      simp only [length_append, length_cons] at hlength ⊢
      omega
    rw [htake, hdrop, hrest] at hperm
    have htwice : (front ++ [x] ++ x :: back).Nodup := hperm.nodup_iff.mpr hnodup
    exact (nodup_append.mp htwice).2.2 x (by simp) x mem_cons_self rfl
  · intro hsplits ls hls
    have hall : l.take (K * n) = l := take_of_length_le (by omega)
    exact ((pages_perm_take hl hsplits hls K).trans (Perm.of_eq hall)).trans hl.perm

end Paging
