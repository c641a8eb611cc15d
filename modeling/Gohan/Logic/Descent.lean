import Mathlib.Data.List.Chain
import Mathlib.Data.List.Nodup
import Mathlib.Logic.Relation

/-!
# Recursion along a relation, without marks

A recursion that follows the edges of a graph and does not mark where it has been comes to an end
when every path from where it starts does.  `Within r n a` says that the paths from `a` have fewer
than `n` edges: it is what a recursion to depth `n` needs.

Where the graph has finitely many nodes, there is such a depth unless a cycle can be reached
(`exists_within_iff`), and then the number of nodes is deep enough (`within_length`): a longer path
meets a node twice.
-/

set_option autoImplicit false

namespace Descent

universe u

variable {α : Type u} {r : α → α → Prop} {a b : α} {m n : ℕ} {nodes : List α}

/-- The paths from a node have fewer than so many edges. -/
def Within (r : α → α → Prop) : ℕ → α → Prop
  | 0, _ => False
  | n + 1, a => ∀ b, r a b → Within r n b

/-- A cycle can be reached from the node. -/
def Cyclic (r : α → α → Prop) (a : α) : Prop :=
  ∃ b, Relation.ReflTransGen r a b ∧ Relation.TransGen r b b

/-- What holds of everything that can be reached: it holds here, and wherever a step leads to. -/
theorem forall_reaches_iff {P : α → Prop} : (∀ b, Relation.ReflTransGen r a b → P b) ↔
    P a ∧ ∀ b, r a b → ∀ c, Relation.ReflTransGen r b c → P c := by
  constructor
  · exact fun h ↦ ⟨h a .refl, fun b hb c hc ↦ h c (.head hb hc)⟩
  · rintro ⟨ha, hnext⟩ c hc
    rcases Relation.ReflTransGen.cases_head hc with rfl | ⟨b, hb, hc⟩
    · exact ha
    · exact hnext b hb c hc

theorem Within.mono (h : Within r m a) (hmn : m ≤ n) : Within r n a := by
  induction m generalizing n a with
  | zero => exact h.elim
  | succ m ih =>
    obtain ⟨n, rfl⟩ := Nat.exists_eq_succ_of_ne_zero (show n ≠ 0 by omega)
    exact fun b hb ↦ ih (h b hb) (by omega)

/-- From a node that reaches a cycle one can go on. -/
theorem Cyclic.exists_next (h : Cyclic r a) : ∃ b, r a b ∧ Cyclic r b := by
  obtain ⟨c, hpath, hcycle⟩ := h
  rcases Relation.ReflTransGen.cases_head hpath with rfl | ⟨b, hstep, hrest⟩
  · obtain ⟨b, hstep, hback⟩ := Relation.TransGen.head'_iff.mp hcycle
    exact ⟨b, hstep, a, hback, hcycle⟩
  · exact ⟨b, hstep, c, hrest, hcycle⟩

theorem Cyclic.not_within (h : Cyclic r a) : ¬Within r n a := by
  induction n generalizing a with
  | zero => exact id
  | succ n ih =>
    obtain ⟨b, hstep, hb⟩ := h.exists_next
    exact fun hwithin ↦ ih hb (hwithin b hstep)

/-- A node that is not within a depth has a path of that length. -/
theorem exists_path_of_not_within (h : ¬Within r n a) :
    ∃ path : List α, path.length = n ∧ List.IsChain r (a :: path) := by
  induction n generalizing a with
  | zero => exact ⟨[], rfl, List.isChain_singleton a⟩
  | succ n ih =>
    simp only [Within, not_forall] at h
    obtain ⟨b, hstep, hb⟩ := h
    obtain ⟨path, hlength, hchain⟩ := ih hb
    exact ⟨b :: path, by rw [List.length_cons, hlength],
      List.isChain_cons_cons.mpr ⟨hstep, hchain⟩⟩

theorem transGen_of_mem {path : List α} (hchain : List.IsChain r (a :: path)) (hb : b ∈ path) :
    Relation.TransGen r a b := by
  induction path generalizing a with
  | nil => cases hb
  | cons c path ih =>
    obtain ⟨hstep, hrest⟩ := List.isChain_cons_cons.mp hchain
    rcases List.mem_cons.mp hb with rfl | hb
    · exact .single hstep
    · exact .head hstep (ih hrest hb)

/-- A path meets no node twice, if it meets no cycle. -/
theorem nodup_of_isChain {path : List α} (hchain : List.IsChain r (a :: path))
    (hacyclic : ¬Cyclic r a) : (a :: path).Nodup := by
  induction path generalizing a with
  | nil => simp
  | cons b path ih =>
    obtain ⟨hstep, hrest⟩ := List.isChain_cons_cons.mp hchain
    refine List.nodup_cons.mpr ⟨fun hmem ↦ ?_, ih hrest ?_⟩
    · exact hacyclic ⟨a, .refl, transGen_of_mem hchain hmem⟩
    · rintro ⟨c, hpath, hcycle⟩
      exact hacyclic ⟨c, .head hstep hpath, hcycle⟩

/-- The number of nodes is deep enough. -/
theorem within_length (hnodes : ∀ b, Relation.ReflTransGen r a b → b ∈ nodes)
    (hacyclic : ¬Cyclic r a) : Within r nodes.length a := by
  by_contra hnot
  obtain ⟨path, hlength, hchain⟩ := exists_path_of_not_within hnot
  have hsubset : ∀ b ∈ a :: path, b ∈ nodes := by
    intro b hb
    rcases List.mem_cons.mp hb with rfl | hb
    · exact hnodes b .refl
    · exact hnodes b (transGen_of_mem hchain hb).to_reflTransGen
  have hle := (nodup_of_isChain hchain hacyclic).length_le_of_subset hsubset
  rw [List.length_cons] at hle
  omega

/-- **A recursion comes to an end when it meets no cycle.** -/
theorem exists_within_iff (hnodes : ∀ b, Relation.ReflTransGen r a b → b ∈ nodes) :
    (∃ n, Within r n a) ↔ ¬Cyclic r a := by
  constructor
  · rintro ⟨n, h⟩ hcyclic
    exact hcyclic.not_within h
  · exact fun hacyclic ↦ ⟨nodes.length, within_length hnodes hacyclic⟩

end Descent
