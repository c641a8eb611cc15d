import Mathlib.Data.List.AList
import Mathlib.Data.Rat.Init

/-!
# Go values, maps and results

Gohan moves almost all of its data through `interface{}`: a policy comes out of a YAML file, a
request body out of JSON and a row out of the database, and each is a `map[string]interface{}`
whose values are inspected by type switches.  `Value` has one constructor for every dynamic type
that occurs there.  The distinction between `int` and `float` is kept on purpose: a policy read
from YAML holds an `int` where a request body holds a `float64`, and Go's `==` on interfaces
compares the dynamic types first.

A finite `float64` is represented by the rational it denotes; JSON has neither NaN nor infinities.

Maps come in two forms.  Inside a `Value` a map is a bare association list, because the type is
recursive.  A map that the program itself owns — a resource's data, a table keyed by action, the
query parameters — is a `GoMap`, Mathlib's `AList`, which carries the proof that no key occurs
twice.  The order of its entries is the order in which one `range` over it happens to run.

A Go function that returns an error or panics is a function into `Go α`.  Both outcomes are kept
apart in `Fault`: an error is returned to the client, a panic is not.
-/

set_option autoImplicit false

namespace Gohan

/-- The dynamic values that occur behind an `interface{}`. -/
inductive Value where
  | nil
  | bool (b : Bool)
  | int (n : ℤ)
  | float (q : ℚ)
  | str (s : String)
  | strs (ss : List String)
  | list (vs : List Value)
  | map (m : List (String × Value))

namespace Value

mutual
/-- Structural equality, as a function that computes. -/
def beq : Value → Value → Bool
  | .nil, .nil => true
  | .bool a, .bool b => a == b
  | .int a, .int b => a == b
  | .float a, .float b => a == b
  | .str a, .str b => a == b
  | .strs a, .strs b => a == b
  | .list a, .list b => beqList a b
  | .map a, .map b => beqMap a b
  | _, _ => false

/-- `beq` on the elements of two lists. -/
def beqList : List Value → List Value → Bool
  | [], [] => true
  | a :: as, b :: bs => beq a b && beqList as bs
  | _, _ => false

/-- `beq` on the entries of two maps, in the order they are listed. -/
def beqMap : List (String × Value) → List (String × Value) → Bool
  | [], [] => true
  | (k, a) :: as, (l, b) :: bs => k == l && beq a b && beqMap as bs
  | _, _ => false
end

mutual
theorem beq_iff_eq : ∀ a b : Value, beq a b = true ↔ a = b
  | .nil, b => by cases b <;> simp [beq]
  | .bool _, b => by cases b <;> simp [beq]
  | .int _, b => by cases b <;> simp [beq]
  | .float _, b => by cases b <;> simp [beq]
  | .str _, b => by cases b <;> simp [beq]
  | .strs _, b => by cases b <;> simp [beq]
  | .list as, b => by cases b <;> simp [beq, beqList_iff_eq as]
  | .map as, b => by cases b <;> simp [beq, beqMap_iff_eq as]

theorem beqList_iff_eq : ∀ as bs : List Value, beqList as bs = true ↔ as = bs
  | [], bs => by cases bs <;> simp [beqList]
  | a :: as, bs => by cases bs <;> simp [beqList, beq_iff_eq a, beqList_iff_eq as]

theorem beqMap_iff_eq : ∀ as bs : List (String × Value), beqMap as bs = true ↔ as = bs
  | [], bs => by cases bs <;> simp [beqMap]
  | (k, a) :: as, bs => by
    cases bs <;> simp [beqMap, beq_iff_eq a, beqMap_iff_eq as, Prod.ext_iff]
end

instance : DecidableEq Value := fun a b ↦ decidable_of_iff _ (beq_iff_eq a b)

instance : Inhabited Value := ⟨.nil⟩

end Value

/-! ## Strings -/

/-- `strings.HasPrefix`. -/
def hasPrefix (s p : String) : Bool := p.toList.isPrefixOf s.toList

/-- `strings.TrimPrefix`. -/
def trimPrefix (s p : String) : String :=
  if hasPrefix s p then String.ofList (s.toList.drop p.toList.length) else s

/-- `strings.Split(s, "/")`. -/
def splitPath (s : String) : List String := (s.toList.splitOn '/').map String.ofList

/-! ## Errors, panics and results -/

/-- What a Go function can end in instead of a result.  A formatted message is kept as its format
and its arguments, as `fmt.Errorf` and `fmt.Sprintf` receive them. -/
inductive Fault where
  | error (format : String) (args : List Value)
  | panic (format : String) (args : List Value)
  deriving DecidableEq

/-- The result of a Go function that may return an error or panic. -/
abbrev Go (α : Type) := Except Fault α

namespace Go

variable {α β : Type}

/-- `return errors.New(…)` and `return fmt.Errorf(…)`. -/
def errorf (format : String) (args : List Value := []) : Go α := .error (.error format args)

/-- `panic(…)`, and the run-time panics of the language. -/
def panicf (format : String) (args : List Value := []) : Go α := .error (.panic format args)

/-- The function came back with a result or with an error: it did not panic. -/
def Returns (x : Go α) : Prop := ∀ format args, x ≠ .error (.panic format args)

@[simp] theorem returns_ok (a : α) : Returns (.ok a : Go α) := by simp [Returns]

@[simp] theorem returns_pure (a : α) : Returns (pure a : Go α) := returns_ok a

@[simp] theorem returns_errorf (f : String) (as : List Value) : Returns (errorf f as : Go α) := by
  simp [Returns, errorf]

@[simp] theorem not_returns_panicf (f : String) (as : List Value) :
    ¬ Returns (panicf f as : Go α) := fun h ↦ h f as rfl

/-- A sequence of two calls panics when the first does, or the second does on its result. -/
theorem returns_bind {x : Go α} {f : α → Go β} :
    Returns (x >>= f) ↔ Returns x ∧ ∀ a, x = .ok a → Returns (f a) := by
  cases x with
  | ok a => simp [bind, Except.bind]
  | error e => simp [Returns, bind, Except.bind]

/-- A sequence of two calls succeeds when the first does and the second does on its result. -/
theorem bind_eq_ok {x : Go α} {f : α → Go β} {b : β} :
    (x >>= f) = .ok b ↔ ∃ a, x = .ok a ∧ f a = .ok b := by
  cases x <;> simp [bind, Except.bind]

@[simp] theorem ok_bind (a : α) (f : α → Go β) : (Except.ok a >>= f : Go β) = f a := rfl

theorem map_eq_ok {x : Go α} {f : α → β} {b : β} :
    x.map f = .ok b ↔ ∃ a, x = .ok a ∧ f a = b := by
  cases x <;> simp [Except.map]

/-- A result with a property that can be decided. -/
theorem exists_of_map_decide {x : Go α} {P : α → Prop} [DecidablePred P]
    (h : x.map (fun a ↦ decide (P a)) = .ok true) : ∃ a, x = .ok a ∧ P a := by
  obtain ⟨a, hx, ha⟩ := map_eq_ok.mp h
  exact ⟨a, hx, of_decide_eq_true ha⟩

/-- A sequence of two checks succeeds when both do. -/
theorem andThen_eq_ok {x : Go Unit} {y : Go β} {b : β} :
    (x >>= fun _ ↦ y) = .ok b ↔ x = .ok () ∧ y = .ok b := by
  cases x <;> simp [bind, Except.bind]

/-- A call does not end in the given error or panic. -/
def Avoids (fault : Fault) (x : Go α) : Prop := x ≠ .error fault

variable {fault : Fault}

@[simp] theorem avoids_ok (a : α) : Avoids fault (.ok a : Go α) := by simp [Avoids]

theorem avoids_errorf {format : String} {args : List Value} (h : fault ≠ .error format args) :
    Avoids fault (errorf format args : Go α) := fun heq ↦ h (Except.error.inj heq).symm

theorem avoids_panicf {format : String} {args : List Value} (h : fault ≠ .panic format args) :
    Avoids fault (panicf format args : Go α) := fun heq ↦ h (Except.error.inj heq).symm

theorem Avoids.bind {x : Go α} {f : α → Go β} (hx : Avoids fault x)
    (hf : ∀ a, Avoids fault (f a)) : Avoids fault (x >>= f) := by
  cases x with
  | ok a => exact hf a
  | error e => exact fun h ↦ hx (by rw [Except.error.inj h])

/-- A loop over checks, which stops at the first one that fails. -/
def forEach (check : α → Go Unit) : List α → Go Unit
  | [] => .ok ()
  | a :: as => do
    check a
    forEach check as

theorem forEach_eq_ok {check : α → Go Unit} {as : List α} :
    forEach check as = .ok () ↔ ∀ a ∈ as, check a = .ok () := by
  induction as with
  | nil => simp [forEach]
  | cons a as ih => rw [forEach, andThen_eq_ok, ih, List.forall_mem_cons]

theorem exists_ok_of_isOk {x : Go α} (h : x.isOk = true) : ∃ a, x = .ok a := by
  cases x with
  | ok a => exact ⟨a, rfl⟩
  | error fault => cases h

theorem mapM_eq_ok {f : α → Go β} {as : List α} {bs : List β} :
    as.mapM f = .ok bs ↔ List.Forall₂ (fun a b ↦ f a = .ok b) as bs := by
  induction as generalizing bs with
  | nil =>
    rw [List.mapM_nil, List.forall₂_nil_left_iff]
    exact Except.ok.injEq [] bs ▸ eq_comm
  | cons a as ih =>
    rw [List.mapM_cons, bind_eq_ok, List.forall₂_cons_left_iff]
    refine exists_congr fun b ↦ ?_
    rw [bind_eq_ok]
    constructor
    · rintro ⟨hb, cs, hcs, hbs⟩
      exact ⟨cs, hb, ih.mp hcs, (Except.ok.inj hbs).symm⟩
    · rintro ⟨cs, hb, hcs, rfl⟩
      exact ⟨hb, cs, ih.mpr hcs, rfl⟩

@[simp] theorem errorf_ne_ok (f : String) (as : List Value) (a : α) :
    (errorf f as : Go α) ≠ .ok a := by simp [errorf]

@[simp] theorem panicf_ne_ok (f : String) (as : List Value) (a : α) :
    (panicf f as : Go α) ≠ .ok a := by simp [panicf]

end Go

/-! ## Maps -/

/-- A `map[string]T`, with its entries in one of the orders a `range` can visit them. -/
abbrev GoMap (α : Type) := AList fun _ : String ↦ α

namespace GoMap

variable {α : Type}

instance [DecidableEq α] : DecidableEq (GoMap α) := fun m m' ↦
  decidable_of_iff (m.entries = m'.entries) AList.ext_iff.symm

/-- The map a composite literal or a decoder builds: a later entry replaces an earlier one. -/
def ofList (l : List (String × α)) : GoMap α := l.foldl (fun m e ↦ m.insert e.1 e.2) ∅

/-- The entries, as pairs. -/
def toList (m : GoMap α) : List (String × α) := m.entries.map fun e ↦ (e.1, e.2)

/-- `m[k]` for a map of interfaces: an absent key reads as `nil`. -/
def get (m : GoMap Value) (k : String) : Value := (m.lookup k).getD .nil

@[simp] theorem get_insert_self (m : GoMap Value) (k : String) (v : Value) :
    get (m.insert k v) k = v := by simp [get]

/-- `m[k]` for a map of slices: an absent key reads as the empty slice. -/
def getSlice {β : Type} (m : GoMap (List β)) (k : String) : List β := (m.lookup k).getD []

/-- `m[k] = append(m[k], x)`. -/
def push {β : Type} (m : GoMap (List β)) (k : String) (x : β) : GoMap (List β) :=
  m.insert k (m.getSlice k ++ [x])

/-- The map of the entries whose key passes a test. -/
def filterKeys (p : String → Bool) (m : GoMap α) : GoMap α :=
  ⟨m.entries.filter fun e ↦ p e.1, m.nodupKeys.sublist List.filter_sublist⟩

/-- The map with a function applied to each value. -/
def mapValues {β : Type} (f : α → β) (m : GoMap α) : GoMap β :=
  ⟨m.entries.map fun e ↦ ⟨e.1, f e.2⟩, by
    rw [List.NodupKeys, List.keys, List.map_map]
    exact m.nodupKeys⟩

theorem dlookup_filter (p : String → Bool) (es : List (Sigma fun _ : String ↦ α)) (k : String) :
    (es.filter fun e ↦ p e.1).dlookup k = if p k then es.dlookup k else none := by
  induction es with
  | nil => simp
  | cons e es ih =>
    obtain ⟨l, v⟩ := e
    rw [List.filter_cons]
    by_cases hk : k = l
    · subst hk
      cases hp : p k <;> simp_all
    · cases hp : p l <;> simp_all [List.dlookup_cons_ne]

theorem lookup_filterKeys (p : String → Bool) (m : GoMap α) (k : String) :
    (m.filterKeys p).lookup k = if p k then m.lookup k else none := dlookup_filter p m.entries k

theorem filter_kerase (p : String → Bool) (k : String) (es : List (Sigma fun _ : String ↦ α)) :
    (es.kerase k).filter (fun e ↦ p e.1) =
      if p k then (es.filter fun e ↦ p e.1).kerase k else es.filter fun e ↦ p e.1 := by
  induction es with
  | nil => simp
  | cons e es ih =>
    by_cases hk : k = e.1
    · rw [List.kerase_cons_eq hk, List.filter_cons, ← hk]
      cases hp : p k with
      | true => rw [if_pos rfl, if_pos rfl, List.kerase_cons_eq hk]
      | false => rfl
    · rw [List.kerase_cons_ne hk, List.filter_cons, ih, List.filter_cons]
      cases p k <;> cases p e.1 <;> simp [List.kerase_cons_ne hk]

/-- Entering a value under a key that does not pass the test does not show. -/
theorem filterKeys_insert (p : String → Bool) (m : GoMap α) (k : String) (a : α) :
    filterKeys p (m.insert k a) = if p k then (m.filterKeys p).insert k a else m.filterKeys p := by
  refine AList.ext ?_
  have hentries : (filterKeys p (m.insert k a)).entries =
      ((m.insert k a).entries.filter fun e ↦ p e.1) := rfl
  rw [hentries, AList.entries_insert, List.filter_cons, filter_kerase]
  cases p k <;> rfl

theorem lookup_map_entries (es : List (Sigma fun _ : String ↦ α)) (k : String) :
    (es.map fun e ↦ (e.1, e.2)).lookup k = es.dlookup k := by
  induction es with
  | nil => rfl
  | cons e es ih =>
    obtain ⟨l, v⟩ := e
    rw [List.map_cons, List.lookup_cons, ih]
    by_cases hk : k = l
    · subst hk
      simp
    · have hbeq : (k == l) = false := by simpa using hk
      rw [List.dlookup_cons_ne _ _ hk, hbeq]

theorem lookup_toList (m : GoMap α) (k : String) : m.toList.lookup k = m.lookup k :=
  lookup_map_entries m.entries k

theorem map_fst_toList (m : GoMap α) : m.toList.map (·.1) = m.keys := by
  simp [toList, AList.keys, List.keys]

theorem mem_toList {m : GoMap α} {k : String} {a : α} :
    (k, a) ∈ m.toList ↔ m.lookup k = some a := by
  rw [← Option.mem_def, AList.mem_lookup_iff, toList, List.mem_map]
  constructor
  · rintro ⟨e, he, heq⟩
    obtain ⟨rfl, rfl⟩ := Prod.mk.inj heq
    exact he
  · exact fun h ↦ ⟨⟨k, a⟩, h, rfl⟩

theorem mem_toList_mapValues {β : Type} {f : α → β} {m : GoMap α} {k : String} {b : β} :
    (k, b) ∈ (m.mapValues f).toList ↔ ∃ a, m.lookup k = some a ∧ f a = b := by
  simp only [← mem_toList, mapValues, toList, List.map_map, List.mem_map, Function.comp_apply,
    Prod.mk.injEq]
  constructor
  · rintro ⟨e, he, rfl, rfl⟩
    exact ⟨e.2, ⟨e, he, rfl, rfl⟩, rfl⟩
  · rintro ⟨a, ⟨e, he, rfl, rfl⟩, rfl⟩
    exact ⟨e, he, rfl, rfl⟩

theorem lookup_mapValues {β : Type} (f : α → β) (m : GoMap α) (k : String) :
    (m.mapValues f).lookup k = (m.lookup k).map f := by
  cases h : m.lookup k with
  | none =>
    refine Option.eq_none_iff_forall_ne_some.mpr fun b hb ↦ ?_
    obtain ⟨a, ha, -⟩ := mem_toList_mapValues.mp (mem_toList.mpr hb)
    rw [h] at ha
    cases ha
  | some a => exact mem_toList.mp (mem_toList_mapValues.mpr ⟨a, h, rfl⟩)

theorem nodup_toList (m : GoMap α) : m.toList.Nodup :=
  List.Nodup.of_map (·.1) (by rw [map_fst_toList]; exact m.keys_nodup)

/-- The entries of two maps that are the same but for the order of a `range`. -/
theorem toList_perm {m m' : GoMap α} (h : ∀ k, m.lookup k = m'.lookup k) :
    m.toList.Perm m'.toList := by
  refine (List.perm_ext_iff_of_nodup m.nodup_toList m'.nodup_toList).mpr fun ⟨k, a⟩ ↦ ?_
  rw [mem_toList, mem_toList, h]

theorem lookup_union (m m' : GoMap α) (k : String) :
    (m ∪ m').lookup k = (m.lookup k).or (m'.lookup k) := by
  cases h : m.lookup k with
  | none => rw [AList.lookup_union_right (AList.lookup_eq_none.mp h), Option.none_or]
  | some a =>
    have hmem : k ∈ m := AList.lookup_isSome.mp (by rw [h]; rfl)
    rw [AList.lookup_union_left hmem, h, Option.some_or]

theorem of_mem_filterKeys {p : String → Bool} {m : GoMap α} {k : String}
    (h : k ∈ m.filterKeys p) : p k = true := by
  rw [← AList.lookup_isSome, lookup_filterKeys] at h
  by_contra hp
  rw [if_neg hp] at h
  exact absurd h (by simp)

/-- What a map has under a key is one of the entries it was built from. -/
theorem mem_of_lookup_ofList {l : List (String × α)} {k : String} {a : α}
    (h : (ofList l).lookup k = some a) : (k, a) ∈ l := by
  have hfold : ∀ (l : List (String × α)) (m : GoMap α),
      (l.foldl (fun m e ↦ m.insert e.1 e.2) m).lookup k = some a →
        (k, a) ∈ l ∨ m.lookup k = some a := by
    intro l
    induction l with
    | nil => exact fun m h ↦ .inr h
    | cons e l ih =>
      intro m h
      rcases ih _ h with hmem | hm
      · exact .inl (List.mem_cons_of_mem _ hmem)
      · by_cases hk : k = e.1
        · subst hk
          rw [AList.lookup_insert] at hm
          cases hm
          exact .inl List.mem_cons_self
        · exact .inr (by rwa [AList.lookup_insert_ne hk] at hm)
  rcases hfold l ∅ h with hmem | hempty
  · exact hmem
  · rw [AList.lookup_empty] at hempty
    cases hempty

/-- Under the key of an entry there is something. -/
theorem mem_ofList {l : List (String × α)} {k : String} {a : α} (h : (k, a) ∈ l) :
    k ∈ ofList l := by
  have hfold : ∀ (l : List (String × α)) (m : GoMap α), k ∈ m ∨ (∃ a, (k, a) ∈ l) →
      k ∈ l.foldl (fun m e ↦ m.insert e.1 e.2) m := by
    intro l
    induction l with
    | nil => exact fun m h ↦ h.elim id fun ⟨_, h⟩ ↦ absurd h List.not_mem_nil
    | cons e l ih =>
      intro m h
      refine ih _ ?_
      rcases h with hm | ⟨b, hb⟩
      · exact .inl ((AList.mem_insert _).mpr (.inr hm))
      · rcases List.mem_cons.mp hb with rfl | hb
        · exact .inl ((AList.mem_insert _).mpr (.inl rfl))
        · exact .inr ⟨b, hb⟩
  exact hfold l ∅ (.inr ⟨a, h⟩)

/-- A map made of the entries of a map is this map. -/
theorem lookup_ofList_toList (m : GoMap α) (k : String) :
    (ofList m.toList).lookup k = m.lookup k := by
  cases hlookup : m.lookup k with
  | none =>
    rw [AList.lookup_eq_none] at hlookup ⊢
    intro hmem
    obtain ⟨a, ha⟩ := Option.isSome_iff_exists.mp (AList.lookup_isSome.mpr hmem)
    have hback := mem_toList.mp (mem_of_lookup_ofList ha)
    exact hlookup (AList.lookup_isSome.mp (by rw [hback]; rfl))
  | some a =>
    have hmem := mem_ofList (mem_toList.mpr hlookup)
    obtain ⟨b, hb⟩ := Option.isSome_iff_exists.mp (AList.lookup_isSome.mpr hmem)
    have hback := mem_toList.mp (mem_of_lookup_ofList hb)
    rw [hb, ← hback, hlookup]

@[simp] theorem getSlice_empty {β : Type} (k : String) :
    (∅ : GoMap (List β)).getSlice k = [] := by simp [getSlice]

theorem getSlice_insert {β : Type} (m : GoMap (List β)) (k l : String) (xs : List β) :
    getSlice (m.insert k xs) l = if l = k then xs else m.getSlice l := by
  by_cases h : l = k
  · subst h; simp [getSlice]
  · rw [if_neg h, getSlice, AList.lookup_insert_ne h]; rfl

theorem getSlice_push {β : Type} (m : GoMap (List β)) (k l : String) (x : β) :
    (m.push k x).getSlice l = if l = k then m.getSlice l ++ [x] else m.getSlice l := by
  rw [push, getSlice_insert]
  split
  · next h => rw [h]
  · rfl

/-- Pushing one value under several keys. -/
theorem getSlice_foldl_push {β : Type} (keys : List String) (m : GoMap (List β)) (x : β)
    (k : String) : (keys.foldl (fun t l ↦ t.push l x) m).getSlice k =
      m.getSlice k ++ List.replicate (keys.count k) x := by
  induction keys generalizing m with
  | nil => simp
  | cons l ls ih =>
    rw [List.foldl_cons, ih, getSlice_push]
    by_cases h : k = l
    · subst h
      simp [List.replicate_succ]
    · rw [if_neg h, List.count_cons_of_ne (Ne.symm h)]

end GoMap

/-- A `map[string]interface{}`. -/
abbrev Dict := GoMap Value

/-! ## Type assertions -/

namespace Value

/-- `v.(string)`, in its two-result form. -/
def string? : Value → Option String
  | .str s => some s
  | _ => none

/-- `s, _ := v.(string)`: the empty string when the assertion fails. -/
def maybeString (v : Value) : String := v.string?.getD ""

/-- `v.(float64)`, in its two-result form. -/
def float64? : Value → Option ℚ
  | .float q => some q
  | _ => none

/-- `v.([]interface{})`, in its two-result form. -/
def slice? : Value → Option (List Value)
  | .list vs => some vs
  | _ => none

/-- `v.(map[string]interface{})`, in its two-result form. -/
def map? : Value → Option (List (String × Value))
  | .map m => some m
  | _ => none

/-- `util.MaybeMap`: an empty map when the assertion fails. -/
def maybeMap : Value → Dict
  | .map m => GoMap.ofList m
  | _ => ∅

/-- `util.MaybeStringList`: the strings of a list. -/
def maybeStringList : Value → List String
  | .strs ss => ss
  | .list vs => vs.filterMap string?
  | _ => []

/-- Go's `==` on two interface values.  Different dynamic types are unequal; equal dynamic types
are compared, and comparing two slices or two maps is a run-time panic. -/
def ifaceEq : Value → Value → Go Bool
  | .list _, .list _ => .panicf "runtime error: comparing uncomparable type []interface {}"
  | .strs _, .strs _ => .panicf "runtime error: comparing uncomparable type []string"
  | .map _, .map _ => .panicf "runtime error: comparing uncomparable type map[string]interface {}"
  | a, b => .ok (a == b)

/-- Two values Go compares as equal are the same value. -/
theorem eq_of_ifaceEq {a b : Value} (h : ifaceEq a b = .ok true) : a = b := by
  unfold ifaceEq at h
  split at h <;> simp_all

end Value

end Gohan
