import Mathlib.Data.List.AList
import Mathlib.Data.List.Sort

/-!
# Sorting into buckets

Elements with keys are put into buckets, one for each key, and are read out bucket by bucket in the
order of the keys.  That is a stable sort by the key (`read_foldl_push`): a list that is sorted by
its keys is known by what it has under each of them (`eq_of_filter_key_eq`), and in both lists that
is what was put in, in the order in which it was.
-/

set_option autoImplicit false

namespace Buckets

universe u v

variable {κ : Type u} {α : Type v} [LinearOrder κ]

/-- Lists, by key. -/
abbrev Store (κ : Type u) (α : Type v) := AList fun _ : κ ↦ List α

/-- What is in the bucket of a key, which need not be there. -/
def bucket (store : Store κ α) (key : κ) : List α := (store.lookup key).getD []

/-- A value is put at the end of the list under a key. -/
def push (store : Store κ α) (key : κ) (a : α) : Store κ α :=
  store.insert key (bucket store key ++ [a])

/-- Bucket by bucket. -/
def read (store : Store κ α) : List α := (store.keys.insertionSort (· ≤ ·)).flatMap (bucket store)

/-- The elements that were put in with the key. -/
def pick (log : List (κ × α)) (key : κ) : List α := (log.filter (·.1 = key)).map (·.2)

/-- The log, stably sorted by the keys. -/
def sort (log : List (κ × α)) : List (κ × α) := log.mergeSort fun a b ↦ a.1 ≤ b.1

/-! ## The buckets -/

theorem bucket_push (store : Store κ α) (key key' : κ) (a : α) :
    bucket (push store key a) key' = bucket store key' ++ if key = key' then [a] else [] := by
  rw [push, bucket]
  by_cases h : key = key'
  · subst h
    rw [AList.lookup_insert, if_pos rfl]
    rfl
  · rw [AList.lookup_insert_ne (Ne.symm h), if_neg h, List.append_nil, bucket]

theorem bucket_foldl_push (log : List (κ × α)) (store : Store κ α) (key : κ) :
    bucket (log.foldl (fun store entry ↦ push store entry.1 entry.2) store) key =
      bucket store key ++ pick log key := by
  induction log generalizing store with
  | nil => simp [pick]
  | cons entry log ih =>
    rw [List.foldl_cons, ih, bucket_push, List.append_assoc]
    by_cases h : entry.1 = key
    · simp [pick, h]
    · simp [pick, h]

theorem mem_keys_foldl_push {log : List (κ × α)} {store : Store κ α} {key : κ} :
    key ∈ (log.foldl (fun store entry ↦ push store entry.1 entry.2) store).keys ↔
      key ∈ store.keys ∨ key ∈ log.map (·.1) := by
  induction log generalizing store with
  | nil => simp
  | cons entry log ih =>
    rw [List.foldl_cons, ih, push, ← AList.mem_keys, AList.mem_insert, ← AList.mem_keys,
      List.map_cons, List.mem_cons]
    tauto

/-! ## Lists that are sorted by their keys -/

/-- Read as a list of entries again. -/
def entries (store : Store κ α) : List (κ × α) :=
  (store.keys.insertionSort (· ≤ ·)).flatMap fun key ↦ (bucket store key).map (key, ·)

theorem map_snd_entries (store : Store κ α) : (entries store).map (·.2) = read store := by
  rw [entries, read, List.map_flatMap]
  refine List.flatMap_congr fun key _ ↦ ?_
  rw [List.map_map]
  exact List.map_id'' (fun _ ↦ rfl) _

/-- **A list that is sorted by its keys is known by what it has under each.** -/
theorem eq_of_filter_key_eq {l l' : List (κ × α)} (hl : l.Pairwise fun a b ↦ a.1 ≤ b.1)
    (hl' : l'.Pairwise fun a b ↦ a.1 ≤ b.1)
    (h : ∀ key, l.filter (·.1 = key) = l'.filter (·.1 = key)) : l = l' := by
  induction l generalizing l' with
  | nil =>
    cases l' with
    | nil => rfl
    | cons b l' => simpa using (h b.1).symm
  | cons a l ih =>
    cases l' with
    | nil => simpa using h a.1
    | cons b l' =>
      rw [List.pairwise_cons] at hl hl'
      -- the least key comes first in both
      have hab : a.1 ≤ b.1 := by
        have hmem : b ∈ (a :: l).filter (·.1 = b.1) := by simp [h b.1]
        obtain rfl | hmem := List.mem_cons.mp (List.mem_filter.mp hmem).1
        · exact le_rfl
        · exact hl.1 b hmem
      have hba : b.1 ≤ a.1 := by
        have hmem : a ∈ (b :: l').filter (·.1 = a.1) := by simp [← h a.1]
        obtain rfl | hmem := List.mem_cons.mp (List.mem_filter.mp hmem).1
        · exact le_rfl
        · exact hl'.1 a hmem
      have hkey : a.1 = b.1 := le_antisymm hab hba
      have heq := h a.1
      rw [List.filter_cons_of_pos (by simp), List.filter_cons_of_pos (by simp [hkey])] at heq
      obtain ⟨rfl, hrest⟩ := List.cons.inj heq
      refine congrArg (a :: ·) (ih hl.2 hl'.2 fun key ↦ ?_)
      have hkeys := h key
      by_cases hk : a.1 = key
      · subst hk
        exact hrest
      · rwa [List.filter_cons_of_neg (by simpa using hk),
          List.filter_cons_of_neg (by simpa using hk)] at hkeys

theorem pairwise_sort (log : List (κ × α)) : (sort log).Pairwise fun a b ↦ a.1 ≤ b.1 := by
  have h : (sort log).Pairwise fun a b ↦ decide (a.1 ≤ b.1) = true := List.pairwise_mergeSort
    (fun a b c hab hbc ↦ by simpa using (of_decide_eq_true hab).trans (of_decide_eq_true hbc))
    (fun a b ↦ by simpa using le_total a.1 b.1) log
  exact h.imp of_decide_eq_true

/-- The sort is stable. -/
theorem filter_key_sort (log : List (κ × α)) (key : κ) :
    (sort log).filter (·.1 = key) = log.filter (·.1 = key) := by
  have hperm : ((sort log).filter (·.1 = key)).Perm (log.filter (·.1 = key)) :=
    (List.mergeSort_perm log _).filter _
  have hequal : (log.filter (·.1 = key)).Pairwise fun a b ↦ decide (a.1 ≤ b.1) = true := by
    refine List.pairwise_of_forall_mem_list fun a ha b hb ↦ ?_
    have ha := (List.mem_filter.mp ha).2
    have hb := (List.mem_filter.mp hb).2
    simp only [decide_eq_true_eq] at ha hb ⊢
    exact (ha.trans hb.symm).le
  have hsub : (log.filter (·.1 = key)).Sublist (sort log) :=
    List.sublist_mergeSort (fun a b c hab hbc ↦
      by simpa using (of_decide_eq_true hab).trans (of_decide_eq_true hbc))
      (fun a b ↦ by simpa using le_total a.1 b.1) hequal List.filter_sublist
  have hfilter := hsub.filter (·.1 = key)
  rw [List.filter_filter] at hfilter
  simp only [Bool.and_self] at hfilter
  exact (hfilter.eq_of_length hperm.length_eq.symm).symm

theorem map_pair_filter (log : List (κ × α)) (key : κ) :
    (log.filter (·.1 = key)).map ((key, ·) ∘ (·.2)) = log.filter (·.1 = key) := by
  refine (List.map_congr_left fun entry hentry ↦ ?_).trans (List.map_id _)
  have hkey : entry.1 = key := of_decide_eq_true (List.mem_filter.mp hentry).2
  exact hkey ▸ rfl

/-- The entries of a store whose keys are all there, under one of them. -/
theorem filter_key_flatMap {keys : List κ} (hnodup : keys.Nodup) (f : κ → List α) (key : κ) :
    (keys.flatMap fun key ↦ (f key).map (key, ·)).filter (·.1 = key) =
      if key ∈ keys then (f key).map (key, ·) else [] := by
  induction keys with
  | nil => rfl
  | cons head keys ih =>
    rw [List.nodup_cons] at hnodup
    rw [List.flatMap_cons, List.filter_append, ih hnodup.2]
    by_cases h : head = key
    · subst h
      rw [if_neg hnodup.1, List.append_nil, if_pos List.mem_cons_self, List.filter_eq_self]
      intro entry hmem
      obtain ⟨a, -, rfl⟩ := List.mem_map.mp hmem
      exact decide_eq_true rfl
    · have hnone : ((f head).map (head, ·)).filter (·.1 = key) = [] := by
        rw [List.filter_eq_nil_iff]
        intro entry hmem
        obtain ⟨a, -, rfl⟩ := List.mem_map.mp hmem
        simpa using h
      rw [hnone, List.nil_append]
      simp [Ne.symm h]

theorem pairwise_flatMap {keys : List κ} (hsorted : keys.Pairwise (· ≤ ·)) (f : κ → List α) :
    (keys.flatMap fun key ↦ (f key).map (key, ·)).Pairwise fun a b ↦ a.1 ≤ b.1 := by
  rw [List.pairwise_flatMap]
  refine ⟨fun key _ ↦ ?_, hsorted.imp fun hle a ha b hb ↦ ?_⟩
  · rw [List.pairwise_map]
    exact List.pairwise_of_forall fun _ _ ↦ le_rfl
  · obtain ⟨_, -, rfl⟩ := List.mem_map.mp ha
    obtain ⟨_, -, rfl⟩ := List.mem_map.mp hb
    exact hle

/-- **To read the buckets is to sort what was put in, stably by the keys.** -/
theorem read_foldl_push (log : List (κ × α)) :
    read (log.foldl (fun store entry ↦ push store entry.1 entry.2) (∅ : Store κ α)) =
      (sort log).map (·.2) := by
  set store := log.foldl (fun store entry ↦ push store entry.1 entry.2) (∅ : Store κ α) with hstore
  rw [← map_snd_entries]
  refine congrArg (List.map (·.2)) (eq_of_filter_key_eq ?_ (pairwise_sort log) fun key ↦ ?_)
  · exact pairwise_flatMap (List.pairwise_insertionSort (· ≤ ·) _) _
  · have hnodup : (store.keys.insertionSort (· ≤ ·)).Nodup :=
      (List.perm_insertionSort _ _).nodup_iff.mpr store.nodupKeys
    have hat : (bucket store key).map (key, ·) = log.filter (·.1 = key) := by
      rw [hstore, bucket_foldl_push]
      change ([] ++ pick log key).map (key, ·) = _
      rw [List.nil_append, pick, List.map_map]
      exact map_pair_filter log key
    rw [entries, filter_key_flatMap hnodup, filter_key_sort, hat]
    split
    · rfl
    · next hmem =>
      symm
      rw [List.filter_eq_nil_iff]
      intro entry hentry hkey
      refine hmem ((List.perm_insertionSort _ _).mem_iff.mpr ?_)
      rw [hstore, mem_keys_foldl_push]
      exact Or.inr (List.mem_map.mpr ⟨entry, hentry, of_decide_eq_true hkey⟩)

end Buckets
