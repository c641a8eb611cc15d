import Mathlib.Data.List.Infix

/-!
# Patterns with wildcards

A pattern of `LIKE` is a list of symbols, three of which do not stand for themselves: one matches
any run of symbols, one matches any single symbol, and the third takes the meaning from the symbol
after it.  `tokens` reads a pattern, and `Matches` holds a text against what was read.  An escape
symbol with nothing after it is an error or a literal, depending on the database, so such a pattern
is not read at all.

`escape` puts the escape symbol before every symbol with a meaning.  What is escaped is read as its
own symbols (`tokens_escape_append`), so it matches itself alone, and between two wildcards it
matches the texts it occurs in (`likes_surrounded_escape`).  Escaping may also be done one symbol
after another (`escapeAll_cons`): a later pass must not meet the escapes of an earlier one, so the
escape symbol has to go first.
-/

set_option autoImplicit false

namespace Like

universe u

/-- The symbols of a pattern that have a meaning. -/
structure Wildcards (α : Type u) where
  any : α
  one : α
  escape : α
  any_ne_one : any ≠ one
  any_ne_escape : any ≠ escape
  one_ne_escape : one ≠ escape

/-- What a pattern is made of. -/
inductive Token (α : Type u) where
  | any
  | one
  | literal (c : α)

variable {α : Type u}

/-- A text fits what was read of a pattern. -/
def Fits : List (Token α) → List α → Prop
  | [], x => x = []
  | .any :: ts, x => ∃ y z, x = y ++ z ∧ Fits ts z
  | .one :: ts, x => ∃ c z, x = c :: z ∧ Fits ts z
  | .literal c :: ts, x => ∃ z, x = c :: z ∧ Fits ts z

/-- Symbols that stand for themselves come off the front of the text. -/
theorem fits_literals_append (v x : List α) (ts : List (Token α)) :
    Fits (v.map .literal ++ ts) x ↔ ∃ z, x = v ++ z ∧ Fits ts z := by
  induction v generalizing x with
  | nil =>
    show Fits ts x ↔ ∃ z, x = z ∧ Fits ts z
    exact ⟨fun h ↦ ⟨x, rfl, h⟩, fun ⟨z, hx, h⟩ ↦ hx ▸ h⟩
  | cons c v ih =>
    show (∃ z, x = c :: z ∧ Fits (v.map .literal ++ ts) z) ↔ ∃ z, x = c :: v ++ z ∧ Fits ts z
    constructor
    · rintro ⟨y, rfl, hy⟩
      obtain ⟨z, rfl, hz⟩ := (ih y).mp hy
      exact ⟨z, rfl, hz⟩
    · rintro ⟨z, rfl, hz⟩
      exact ⟨v ++ z, rfl, (ih (v ++ z)).mpr ⟨z, rfl, hz⟩⟩

/-- Nothing but wildcards for any run: every text fits. -/
theorem fits_any (x : List α) : Fits [.any] x := ⟨x, [], (List.append_nil x).symm, rfl⟩

/-- Symbols between two runs are looked for in the text. -/
theorem fits_surrounded (v x : List α) :
    Fits (.any :: (v.map .literal ++ [.any])) x ↔ v <:+: x := by
  show (∃ y z, x = y ++ z ∧ Fits (v.map .literal ++ [.any]) z) ↔ _
  simp only [fits_literals_append]
  constructor
  · rintro ⟨y, z, rfl, w, rfl, -⟩
    exact ⟨y, w, by rw [List.append_assoc]⟩
  · rintro ⟨y, w, rfl⟩
    exact ⟨y, v ++ w, List.append_assoc y v w, w, rfl, fits_any w⟩

variable [DecidableEq α] (W : Wildcards α)

/-- Read a pattern. -/
def tokens : List α → Option (List (Token α))
  | [] => some []
  | [c] =>
    if c = W.escape then none
    else if c = W.any then some [.any]
    else if c = W.one then some [.one]
    else some [.literal c]
  | c :: d :: p =>
    if c = W.escape then (tokens p).map (.literal d :: ·)
    else if c = W.any then (tokens (d :: p)).map (.any :: ·)
    else if c = W.one then (tokens (d :: p)).map (.one :: ·)
    else (tokens (d :: p)).map (.literal c :: ·)

/-- `x LIKE p ESCAPE e`: the pattern can be read, and the text fits. -/
def Likes (p x : List α) : Prop := ∃ ts, tokens W p = some ts ∧ Fits ts x

/-- The symbol has a meaning. -/
def IsSpecial (c : α) : Prop := c = W.any ∨ c = W.one ∨ c = W.escape

instance (c : α) : Decidable (IsSpecial W c) := inferInstanceAs (Decidable (_ ∨ _ ∨ _))

/-- The text with every special symbol escaped. -/
def escape (v : List α) : List α := v.flatMap fun c ↦ if IsSpecial W c then [W.escape, c] else [c]

variable {W}

@[simp] theorem tokens_nil : tokens W [] = some [] := rfl

@[simp] theorem tokens_any (p : List α) :
    tokens W (W.any :: p) = (tokens W p).map (.any :: ·) := by
  cases p with
  | nil =>
    show (if W.any = W.escape then none else if W.any = W.any then some [Token.any] else _) = _
    rw [if_neg W.any_ne_escape, if_pos rfl]
    rfl
  | cons d p => rw [tokens, if_neg W.any_ne_escape, if_pos rfl]

@[simp] theorem tokens_escape (c : α) (p : List α) :
    tokens W (W.escape :: c :: p) = (tokens W p).map (.literal c :: ·) := by
  rw [tokens, if_pos rfl]

theorem tokens_literal {c : α} (hc : ¬IsSpecial W c) (p : List α) :
    tokens W (c :: p) = (tokens W p).map (.literal c :: ·) := by
  have hany : c ≠ W.any := fun h ↦ hc (.inl h)
  have hone : c ≠ W.one := fun h ↦ hc (.inr (.inl h))
  have hescape : c ≠ W.escape := fun h ↦ hc (.inr (.inr h))
  cases p with
  | nil =>
    show (if c = W.escape then none else if c = W.any then some [Token.any] else
      if c = W.one then some [Token.one] else some [Token.literal c]) = _
    rw [if_neg hescape, if_neg hany, if_neg hone]
    rfl
  | cons d p => rw [tokens, if_neg hescape, if_neg hany, if_neg hone]

/-- What is escaped reads as its own symbols. -/
theorem tokens_escape_append (v p : List α) :
    tokens W (escape W v ++ p) = (tokens W p).map (v.map .literal ++ ·) := by
  induction v with
  | nil => exact Option.map_id'.symm
  | cons c v ih =>
    have hcons : tokens W (escape W (c :: v) ++ p) =
        (tokens W (escape W v ++ p)).map (.literal c :: ·) := by
      show tokens W ((if IsSpecial W c then [W.escape, c] else [c]) ++ escape W v ++ p) = _
      by_cases hc : IsSpecial W c
      · rw [if_pos hc]
        exact tokens_escape c _
      · rw [if_neg hc]
        exact tokens_literal hc _
    rw [hcons, ih, Option.map_map]
    rfl

/-- Between two wildcards an escaped text matches the texts it occurs in. -/
theorem likes_surrounded_escape (v x : List α) :
    Likes W (W.any :: (escape W v ++ [W.any])) x ↔ v <:+: x := by
  have hread : tokens W (W.any :: (escape W v ++ [W.any])) =
      some (.any :: (v.map .literal ++ [.any])) := by
    simp [tokens_escape_append]
  constructor
  · rintro ⟨ts, hts, hx⟩
    obtain rfl := Option.some.inj (hread.symm.trans hts)
    exact (fits_surrounded v x).mp hx
  · intro h
    exact ⟨_, hread, (fits_surrounded v x).mpr h⟩

/-! ## One symbol after another -/

/-- Every occurrence of one symbol replaced by some symbols. -/
def replace (c : α) (by_ v : List α) : List α := v.flatMap fun d ↦ if d = c then by_ else [d]

/-- Escape some symbols with `e`, one pass for each. -/
def escapeAll (e : α) : List α → List α → List α
  | [], v => v
  | c :: cs, v => escapeAll e cs (replace c [e, c] v)

/-- A pass for a symbol that is none of those escaped so far and not the escape itself. -/
theorem replace_flatMap_escape {e c : α} {cs : List α} (hc : c ∉ cs) (hce : c ≠ e)
    (v : List α) :
    replace c [e, c] (v.flatMap fun d ↦ if d ∈ cs then [e, d] else [d]) =
      v.flatMap fun d ↦ if d ∈ cs ++ [c] then [e, d] else [d] := by
  rw [replace, List.flatMap_assoc]
  refine List.flatMap_congr fun d _ ↦ ?_
  by_cases hd : d ∈ cs
  · have hdc : d ≠ c := fun h ↦ hc (h ▸ hd)
    simp [hd, hdc, hce.symm]
  · by_cases hdc : d = c
    · subst hdc
      simp [hd]
    · simp [hd, hdc]

/-- Escaping in passes is escaping at once, if no later pass is for the escape symbol. -/
theorem escapeAll_flatMap {e : α} {cs done : List α} (hnodup : (done ++ cs).Nodup)
    (he : e ∉ cs) (v : List α) :
    escapeAll e cs (v.flatMap fun d ↦ if d ∈ done then [e, d] else [d]) =
      v.flatMap fun d ↦ if d ∈ done ++ cs then [e, d] else [d] := by
  induction cs generalizing done with
  | nil => rw [List.append_nil]; rfl
  | cons c cs ih =>
    have hc : c ∉ done := fun h ↦ (List.nodup_append.mp hnodup).2.2 c h c List.mem_cons_self rfl
    have hce : c ≠ e := fun h ↦ he (h ▸ List.mem_cons_self)
    have hassoc : done ++ c :: cs = done ++ [c] ++ cs := by simp
    rw [escapeAll, replace_flatMap_escape hc hce, hassoc]
    exact ih (hassoc ▸ hnodup) fun h ↦ he (List.mem_cons_of_mem c h)

/-- The passes, the first of which is for the escape symbol itself. -/
theorem escapeAll_cons {e : α} {cs : List α} (hnodup : (e :: cs).Nodup) (v : List α) :
    escapeAll e (e :: cs) v = v.flatMap fun d ↦ if d ∈ e :: cs then [e, d] else [d] := by
  have hfirst : replace e [e, e] v = v.flatMap fun d ↦ if d ∈ [e] then [e, d] else [d] := by
    refine List.flatMap_congr fun d _ ↦ ?_
    by_cases hd : d = e
    · simp [hd]
    · simp [hd]
  rw [escapeAll, hfirst]
  exact @escapeAll_flatMap _ _ e cs [e] hnodup (List.nodup_cons.mp hnodup).1 v

end Like
