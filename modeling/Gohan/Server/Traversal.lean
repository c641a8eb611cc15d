import Gohan.Server.Attachments
import Mathlib.Data.List.Flatten

/-!
# Traversing data, item by item

The data that is traversed need not have been read from JSON.  An extension may have put slices of
maps into it, some of which may be nil, so a piece of data is a `Piece`: unlike a `Value` it tells
an `[]interface{}` from an `[]map[string]interface{}`.

`found` says what is stored at a path, and for each of these values whether an `[]interface{}` was
passed on the way.  A traversal keeps the values of a property, each one once, as long as it moves
by keys and through slices of maps.  `advanceByItem` appends the items of an `[]interface{}` in its
type switch and appends them again after it, and it keeps the nulls among them; a key keeps a nil
map.  `dataSet_perm_iff` says that nothing else is lost or added.
-/

set_option autoImplicit false

namespace Gohan

open NestedProperty

/-- Neither nil nor a list nor a map. -/
def Value.isPlain : Value → Bool
  | .nil | .list _ | .map _ => false
  | _ => true

namespace Traversal

/-- A piece of data. -/
inductive Piece where
  | null
  | plain (v : Value) (h : v.isPlain = true)
  /-- `[]interface{}` -/
  | list (items : List Piece)
  /-- `[]map[string]interface{}`, in which a map may be nil. -/
  | maps (items : List (Option (List (String × Piece))))
  | map (m : Option (List (String × Piece)))

namespace Piece

/-- `d == nil`: a nil map in an interface is not. -/
def isNil : Piece → Bool
  | .null => true
  | _ => false

/-- A nil interface or a nil map. -/
def isNull : Piece → Bool
  | .null | .map none => true
  | _ => false

/-- `m[key]`; there is nothing in a nil map. -/
def under (m : Option (List (String × Piece))) (key : String) : Option Piece :=
  (m.getD []).lookup key

end Piece

open Piece

/-! ## The traversal -/

/-- Where a path has come to: the property, those below it, and what there is in the data. -/
structure DataTraversal where
  currentProperty : Option NestedProperty
  currentChildren : List NestedProperty
  dataSet : List Piece

/-- `newDataTraversal`. -/
def newDataTraversal (properties : List NestedProperty) (data : List (String × Piece)) :
    DataTraversal where
  currentProperty := none
  currentChildren := properties
  dataSet := [.map (some data)]

/-- A step of a path. -/
inductive Step where
  | key (k : String)
  | item

namespace DataTraversal

/-- The loop of `advanceByKey`. -/
def piecesUnderKey (key : String) : List Piece → Go (List Piece)
  | [] => .ok []
  | .null :: dataSet => piecesUnderKey key dataSet
  | .map m :: dataSet => do
    let newDataSet ← piecesUnderKey key dataSet
    match under m key with
    | none | some .null => .ok newDataSet
    | some dataPieceUnderKey => .ok (dataPieceUnderKey :: newDataSet)
  | _ :: _ => .errorf
      "expected map[string]interface\x7b\x7d or nil while advancing by key \"%s\", got: %#v"
      [.str key]

/-- `advanceByKey`: a step to a property. -/
def advanceByKey (traversal : DataTraversal) (key : String) : Go DataTraversal :=
  match find traversal.currentChildren key with
  | none => .errorf "property of name \"%s\" not found" [.str key]
  | some child => do
    let dataSet ← piecesUnderKey key traversal.dataSet
    .ok { currentProperty := some child, currentChildren := child.properties, dataSet }

/-- The loop of `advanceByItem`: what is appended for an `[]interface{}` in the switch is appended
for it once more. -/
def itemsOfPieces : List Piece → Go (List Piece)
  | [] => .ok []
  | .null :: dataSet => itemsOfPieces dataSet
  | .list dataPieceArray :: dataSet => do
    let newDataSet ← itemsOfPieces dataSet
    .ok (dataPieceArray ++ dataPieceArray ++ newDataSet)
  | .maps dataPieceArray :: dataSet => do
    let newDataSet ← itemsOfPieces dataSet
    .ok (dataPieceArray.map .map ++ newDataSet)
  | _ :: _ => .errorf
      ("expected []interface\x7b\x7d, []map[string]interface\x7b\x7d or nil while " ++
        "advancing by item, got: %#v")
      []

/-- `advanceByItem`: a step to the items of an array. -/
def advanceByItem (traversal : DataTraversal) : Go DataTraversal :=
  match traversal.currentProperty.bind items with
  | none => .errorf "cannot access array: currently situated on non-array property"
  | some child => do
    let dataSet ← itemsOfPieces traversal.dataSet
    .ok { currentProperty := some child, currentChildren := child.properties, dataSet }

/-- One step of a path. -/
def advance (traversal : DataTraversal) : Step → Go DataTraversal
  | .key k => traversal.advanceByKey k
  | .item => traversal.advanceByItem

/-- The steps of a path, one after another. -/
def traverse (traversal : DataTraversal) : List Step → Go DataTraversal
  | [] => .ok traversal
  | step :: path => do (← traversal.advance step).traverse path

end DataTraversal

/-! ## What is stored at a path -/

/-- What a step leads to, and whether it does so through an `[]interface{}`. -/
def children : Step → Piece → List (Bool × Piece)
  | .key k, .map m => (under m k).toList.map fun d ↦ (false, d)
  | .item, .list ds => ds.map fun d ↦ (true, d)
  | .item, .maps ms => ms.map fun m ↦ (false, .map m)
  | _, _ => []

/-- The values at a path, nulls included, and whether an `[]interface{}` is on the way to them. -/
def found : List Step → Piece → List (Bool × Piece)
  | [], d => [(false, d)]
  | step :: path, d =>
    (children step d).flatMap fun x ↦ (found path x.2).map fun y ↦ (x.1 || y.1, y.2)

/-- The values that are not null, each occurrence once. -/
def valuesAt (path : List Step) (d : Piece) : List Piece :=
  ((found path d).map Prod.snd).filter fun v ↦ !v.isNull

/-- Does a path end with a key? -/
def EndsWithKey (path : List Step) : Prop := ∃ k, path.getLast? = some (.key k)

/-- No value is behind an `[]interface{}`, and the only nulls are nil interfaces under a key. -/
structure Single (path : List Step) (d : Piece) : Prop where
  noList : ∀ x ∈ found path d, x.2.isNull = false → x.1 = false
  noNull : ∀ x ∈ found path d, x.2.isNull = true → x.2 = .null ∧ EndsWithKey path

/-- A property, followed along a path. -/
inductive Leads : NestedProperty → List Step → NestedProperty → Prop
  | here (p : NestedProperty) : Leads p [] p
  | key {p child q : NestedProperty} {k : String} {path : List Step}
      (hfind : find p.properties k = some child) (h : Leads child path q) :
      Leads p (.key k :: path) q
  | item {p child q : NestedProperty} {path : List Step}
      (hitems : p.items = some child) (h : Leads child path q) : Leads p (.item :: path) q

/-- A piece of data has the shape of a property. -/
inductive Shaped : NestedProperty → Piece → Prop
  | null (p : NestedProperty) : Shaped p .null
  | plain {p : NestedProperty} (d : Piece) (hproperties : p.properties = [])
      (hitems : p.items = none) : Shaped p d
  | map {p : NestedProperty} {m : Option (List (String × Piece))} (hitems : p.items = none)
      (h : ∀ k child d, find p.properties k = some child → under m k = some d → Shaped child d) :
      Shaped p (.map m)
  | list {p child : NestedProperty} {ds : List Piece} (hproperties : p.properties = [])
      (hitems : p.items = some child) (h : ∀ d ∈ ds, Shaped child d) : Shaped p (.list ds)
  | maps {p child : NestedProperty} {ms : List (Option (List (String × Piece)))}
      (hproperties : p.properties = []) (hitems : p.items = some child)
      (h : ∀ m ∈ ms, Shaped child (.map m)) : Shaped p (.maps ms)

/-- The data of a resource has the shape of its schema. -/
def ShapedBy (properties : List NestedProperty) (data : List (String × Piece)) : Prop :=
  ∀ k child d, find properties k = some child → data.lookup k = some d → Shaped child d

/-! ## What the traversal keeps -/

/-- What a step keeps of a piece. -/
def stepped : Step → Piece → List Piece
  | .key k, .map m => (under m k).toList.filter fun d ↦ !d.isNil
  | .item, .list ds => ds ++ ds
  | .item, .maps ms => ms.map .map
  | _, _ => []

/-- What a path keeps of a piece. -/
def reached : List Step → Piece → List Piece
  | [], d => [d]
  | step :: path, d => (stepped step d).flatMap (reached path)

namespace DataTraversal

theorem piecesUnderKey_eq {key : String} {dataSet : List Piece}
    (h : ∀ d ∈ dataSet, d = .null ∨ ∃ m, d = .map m) :
    piecesUnderKey key dataSet = .ok (dataSet.flatMap (stepped (.key key))) := by
  induction dataSet with
  | nil => rfl
  | cons d dataSet ih =>
    have ih := ih fun d hd ↦ h d (List.mem_cons_of_mem _ hd)
    rw [List.flatMap_cons]
    rcases h d List.mem_cons_self with rfl | ⟨m, rfl⟩
    · rw [piecesUnderKey, ih]
      rfl
    · rw [piecesUnderKey, ih]
      show _ = Except.ok ((under m key).toList.filter (fun d ↦ !d.isNil) ++ _)
      cases under m key with
      | none => rfl
      | some d => cases d <;> rfl

theorem itemsOfPieces_eq {dataSet : List Piece}
    (h : ∀ d ∈ dataSet, d = .null ∨ (∃ ds, d = .list ds) ∨ ∃ ms, d = .maps ms) :
    itemsOfPieces dataSet = .ok (dataSet.flatMap (stepped .item)) := by
  induction dataSet with
  | nil => rfl
  | cons d dataSet ih =>
    have ih := ih fun d hd ↦ h d (List.mem_cons_of_mem _ hd)
    rw [List.flatMap_cons]
    rcases h d List.mem_cons_self with rfl | ⟨ds, rfl⟩ | ⟨ms, rfl⟩
    all_goals
      rw [itemsOfPieces, ih]
      rfl

end DataTraversal

/-! ### Steps along the schema -/

/-- A key of a property is looked up in maps. -/
theorem Shaped.isMap {p child : NestedProperty} {d : Piece} {k : String} (h : Shaped p d)
    (hfind : find p.properties k = some child) : d = .null ∨ ∃ m, d = .map m := by
  have hne : p.properties ≠ [] := fun hnil ↦ by simp [hnil, find] at hfind
  cases h with
  | null => exact .inl rfl
  | plain _ hproperties _ => exact absurd hproperties hne
  | map _ _ => exact .inr ⟨_, rfl⟩
  | list hproperties _ _ => exact absurd hproperties hne
  | maps hproperties _ _ => exact absurd hproperties hne

theorem Shaped.isList {p child : NestedProperty} {d : Piece} (h : Shaped p d)
    (hchild : p.items = some child) : d = .null ∨ (∃ ds, d = .list ds) ∨ ∃ ms, d = .maps ms := by
  have hne : p.items ≠ none := fun hnone ↦ by simp [hnone] at hchild
  cases h with
  | null => exact .inl rfl
  | plain _ _ hitems => exact absurd hitems hne
  | map hitems _ => exact absurd hitems hne
  | list _ _ _ => exact .inr (.inl ⟨_, rfl⟩)
  | maps _ _ _ => exact .inr (.inr ⟨_, rfl⟩)

/-- What is kept of a map has the shape of the property the step leads to. -/
theorem Shaped.steppedKey {p child : NestedProperty} {d : Piece} {k : String} (h : Shaped p d)
    (hfind : find p.properties k = some child) : ∀ d' ∈ stepped (.key k) d, Shaped child d' := by
  intro d' hd'
  rcases h.isMap hfind with rfl | ⟨m, rfl⟩
  · cases hd'
  · have hunder := Option.mem_toList.mp (List.mem_filter.mp hd').1
    cases h with
    | plain _ hproperties _ => simp [hproperties, find] at hfind
    | map _ h => exact h k child d' hfind hunder

theorem Shaped.steppedItem {p child : NestedProperty} {d : Piece} (h : Shaped p d)
    (hchild : p.items = some child) : ∀ d' ∈ stepped .item d, Shaped child d' := by
  intro d' hd'
  cases h with
  | null => cases hd'
  | plain _ _ hitems => simp [hitems] at hchild
  | map _ _ => cases hd'
  | list _ hitems h =>
    obtain rfl := Option.some.inj (hitems.symm.trans hchild)
    exact h d' ((List.mem_append.mp hd').elim id id)
  | maps _ hitems h =>
    obtain rfl := Option.some.inj (hitems.symm.trans hchild)
    obtain ⟨m, hm, rfl⟩ := List.mem_map.mp hd'
    exact h m hm

namespace DataTraversal

theorem traverse_of_leads {p q : NestedProperty} {path : List Step} (hleads : Leads p path q)
    {traversal : DataTraversal} (hcurrent : traversal.currentProperty = some p)
    (hchildren : traversal.currentChildren = p.properties)
    (hshaped : ∀ d ∈ traversal.dataSet, Shaped p d) :
    ∃ next, traversal.traverse path = .ok next ∧ next.currentProperty = some q ∧
      next.dataSet = traversal.dataSet.flatMap (reached path) := by
  induction hleads generalizing traversal with
  | here p => exact ⟨traversal, rfl, hcurrent, by simp [reached]⟩
  | @key p child q k path hfind _ ih =>
    have hpieces := @piecesUnderKey_eq k _ fun d hd ↦ (hshaped d hd).isMap hfind
    obtain ⟨next, hnext, hlast, hdataSet⟩ := @ih
      ⟨some child, child.properties, traversal.dataSet.flatMap (stepped (.key k))⟩ rfl rfl
      (List.forall_mem_flatMap.mpr fun d hd ↦ (hshaped d hd).steppedKey hfind)
    refine ⟨next, ?_, hlast, ?_⟩
    · rw [traverse, advance, advanceByKey, hchildren, hfind]
      simp only [hpieces]
      exact hnext
    · rw [hdataSet, List.flatMap_assoc]
      rfl
  | @item p child q path hitems _ ih =>
    have hpieces := itemsOfPieces_eq fun d hd ↦ (hshaped d hd).isList hitems
    obtain ⟨next, hnext, hlast, hdataSet⟩ := @ih
      ⟨some child, child.properties, traversal.dataSet.flatMap (stepped .item)⟩ rfl rfl
      (List.forall_mem_flatMap.mpr fun d hd ↦ (hshaped d hd).steppedItem hitems)
    refine ⟨next, ?_, hlast, ?_⟩
    · rw [traverse, advance, advanceByItem, hcurrent, Option.bind_some, hitems]
      simp only [hpieces]
      exact hnext
    · rw [hdataSet, List.flatMap_assoc]
      rfl

/-- From the data of a resource. -/
theorem traverse_newDataTraversal {properties : List NestedProperty} {data : List (String × Piece)}
    (hshaped : ShapedBy properties data) {k : String} {p q : NestedProperty} {path : List Step}
    (hfind : find properties k = some p) (hleads : Leads p path q) :
    ∃ next, (newDataTraversal properties data).traverse (.key k :: path) = .ok next ∧
      next.currentProperty = some q ∧
        next.dataSet = reached (.key k :: path) (.map (some data)) := by
  have hpieces : piecesUnderKey k [.map (some data)] =
      .ok ([.map (some data)].flatMap (stepped (.key k))) :=
    piecesUnderKey_eq fun d hd ↦ .inr ⟨some data, List.mem_singleton.mp hd⟩
  have hstepped : ∀ d ∈ [Piece.map (some data)].flatMap (stepped (.key k)), Shaped p d := by
    intro d hd
    rw [List.flatMap_singleton] at hd
    exact hshaped k p d hfind (Option.mem_toList.mp (List.mem_filter.mp hd).1)
  obtain ⟨next, hnext, hlast, hdataSet⟩ := @traverse_of_leads p q path hleads
    ⟨some p, p.properties, [.map (some data)].flatMap (stepped (.key k))⟩ rfl rfl hstepped
  refine ⟨next, ?_, hlast, ?_⟩
  · rw [traverse, advance, advanceByKey]
    simp only [newDataTraversal, hfind, hpieces]
    exact hnext
  · rw [hdataSet, List.flatMap_singleton]
    rfl

end DataTraversal

/-! ## Each value once -/

section Once

variable {step : Step} {path : List Step} {d : Piece}

theorem found_ne_nil {x : Bool × Piece} (h : x ∈ found path d) (hpath : path ≠ []) :
    d.isNil = false := by
  cases path with
  | nil => exact absurd rfl hpath
  | cons step path =>
    cases d with
    | null => cases step <;> cases h
    | _ => rfl

theorem valuesAt_cons (step : Step) (path : List Step) (d : Piece) :
    valuesAt (step :: path) d = (children step d).flatMap fun x ↦ valuesAt path x.2 := by
  rw [valuesAt, found, List.map_flatMap, List.filter_flatMap]
  refine List.flatMap_congr fun x _ ↦ ?_
  rw [List.map_map]
  rfl

/-- A key does not lose a value. -/
theorem valuesAt_key (k : String) (path : List Step) (d : Piece) :
    valuesAt (.key k :: path) d = (stepped (.key k) d).flatMap (valuesAt path) := by
  rw [valuesAt_cons]
  cases d with
  | map m =>
    show ((under m k).toList.map _).flatMap _ = ((under m k).toList.filter _).flatMap _
    cases under m k with
    | none => rfl
    | some d =>
      cases d with
      | null => cases path with
        | nil => rfl
        | cons step path => cases step <;> rfl
      | _ => rfl
  | _ => rfl

theorem valuesAt_list (path : List Step) (ds : List Piece) :
    valuesAt (.item :: path) (.list ds) = ds.flatMap (valuesAt path) := by
  rw [valuesAt_cons, children, List.flatMap_map]

theorem valuesAt_maps (path : List Step) (ms : List (Option (List (String × Piece)))) :
    valuesAt (.item :: path) (.maps ms) = ms.flatMap fun m ↦ valuesAt path (.map m) := by
  rw [valuesAt_cons, children, List.flatMap_map]

/-- Every value that is not null is kept. -/
theorem valuesAt_sublist (path : List Step) (d : Piece) :
    (valuesAt path d).Sublist (reached path d) := by
  induction path generalizing d with
  | nil => exact List.filter_sublist
  | cons step path ih =>
    cases step with
    | key k =>
      rw [valuesAt_key, reached]
      exact List.Sublist.flatMap_right _ fun d' _ ↦ ih d'
    | item =>
      cases d with
      | list ds =>
        rw [valuesAt_list, reached, stepped, List.flatMap_append]
        exact (List.Sublist.flatMap_right _ fun d' _ ↦ ih d').trans (List.sublist_append_left _ _)
      | maps ms =>
        rw [valuesAt_maps, reached, stepped, List.flatMap_map]
        exact List.Sublist.flatMap_right _ fun m _ ↦ ih (.map m)
      | _ => exact .slnil

theorem flatMap_eq_flatMap_iff {α β : Type} {l : List α} {f g : α → List β}
    (h : ∀ a ∈ l, (g a).Sublist (f a)) :
    l.flatMap f = l.flatMap g ↔ ∀ a ∈ l, f a = g a := by
  refine ⟨fun heq ↦ ?_, List.flatMap_congr⟩
  induction l with
  | nil => simp
  | cons a l ih =>
    rw [List.forall_mem_cons] at h ⊢
    rw [List.flatMap_cons, List.flatMap_cons] at heq
    have hrest := (List.Sublist.flatMap_right l h.2).length_le
    have hlength := congrArg List.length heq
    rw [List.length_append, List.length_append] at hlength
    have ha : f a = g a := (h.1.eq_of_length_le (by omega)).symm
    rw [ha, List.append_cancel_left_eq] at heq
    exact ⟨ha, ih h.2 heq⟩

theorem endsWithKey_cons (hpath : path ≠ []) : EndsWithKey (step :: path) ↔ EndsWithKey path := by
  cases path with
  | nil => exact absurd rfl hpath
  | cons step' path => rw [EndsWithKey, EndsWithKey, List.getLast?_cons_cons]

/-- A value that ends a path under a key. -/
theorem single_key (k : String) (path : List Step) (d : Piece) :
    Single (.key k :: path) d ↔ ∀ d' ∈ stepped (.key k) d, Single path d' := by
  cases d with
  | map m =>
    have hfound (x : Bool × Piece) :
        x ∈ found (.key k :: path) (.map m) ↔ ∃ d', under m k = some d' ∧ x ∈ found path d' := by
      simp [found, children, -Prod.exists]
    have hstepped (d' : Piece) :
        d' ∈ stepped (.key k) (.map m) ↔ under m k = some d' ∧ d'.isNil = false := by
      simp [stepped]
    simp only [hstepped, and_imp]
    constructor
    · intro h d' hd' hnil
      refine ⟨fun x hx ↦ h.noList x ((hfound x).mpr ⟨d', hd', hx⟩), fun x hx hnull ↦ ?_⟩
      obtain ⟨heq, hends⟩ := h.noNull x ((hfound x).mpr ⟨d', hd', hx⟩) hnull
      refine ⟨heq, ?_⟩
      by_cases hpath : path = []
      · subst hpath
        obtain rfl := List.mem_singleton.mp hx
        rw [show d' = .null from heq] at hnil
        cases hnil
      · exact (endsWithKey_cons hpath).mp hends
    · intro h
      refine ⟨fun x hx hnull ↦ ?_, fun x hx hnull ↦ ?_⟩
      all_goals
        obtain ⟨d', hd', hx⟩ := (hfound x).mp hx
        by_cases hpath : path = []
      · subst hpath
        rw [List.mem_singleton.mp hx]
      · exact (h d' hd' (found_ne_nil hx hpath)).noList x hx hnull
      · subst hpath
        refine ⟨?_, k, rfl⟩
        cases hnil : d'.isNil with
        | true =>
          rw [List.mem_singleton.mp hx]
          cases d' <;> first | rfl | cases hnil
        | false => exact ((h d' hd' hnil).noNull x hx hnull).1
      · obtain ⟨heq, hends⟩ := (h d' hd' (found_ne_nil hx hpath)).noNull x hx hnull
        exact ⟨heq, (endsWithKey_cons hpath).mpr hends⟩
  | _ =>
    exact iff_of_true ⟨by simp [found, children], by simp [found, children]⟩ (by simp [stepped])

theorem single_maps (path : List Step) (ms : List (Option (List (String × Piece)))) :
    Single (.item :: path) (.maps ms) ↔ ∀ m ∈ ms, Single path (.map m) := by
  have hfound (x : Bool × Piece) :
      x ∈ found (.item :: path) (.maps ms) ↔ ∃ m ∈ ms, x ∈ found path (.map m) := by
    simp [found, children, -Prod.exists]
  have hends {m : Option (List (String × Piece))} {x : Bool × Piece}
      (hx : x ∈ found path (.map m)) (heq : x.2 = .null) :
      EndsWithKey (.item :: path) ↔ EndsWithKey path := by
    refine endsWithKey_cons fun hpath ↦ ?_
    subst hpath
    rw [List.mem_singleton.mp hx] at heq
    cases heq
  constructor
  · intro h m hm
    refine ⟨fun x hx ↦ h.noList x ((hfound x).mpr ⟨m, hm, hx⟩), fun x hx hnull ↦ ?_⟩
    obtain ⟨heq, hkey⟩ := h.noNull x ((hfound x).mpr ⟨m, hm, hx⟩) hnull
    exact ⟨heq, (hends hx heq).mp hkey⟩
  · intro h
    refine ⟨fun x hx ↦ ?_, fun x hx hnull ↦ ?_⟩
    · obtain ⟨m, hm, hx⟩ := (hfound x).mp hx
      exact (h m hm).noList x hx
    · obtain ⟨m, hm, hx⟩ := (hfound x).mp hx
      obtain ⟨heq, hkey⟩ := (h m hm).noNull x hx hnull
      exact ⟨heq, (hends hx heq).mpr hkey⟩

/-- Nothing is kept of a piece when all that is stored in it are nulls under a last key. -/
theorem reached_eq_nil_iff (h : reached path d = valuesAt path d ↔ Single path d) :
    reached path d = [] ↔ ∀ x ∈ found path d, x.2 = .null ∧ EndsWithKey path := by
  have hvalues : valuesAt path d = [] ↔ ∀ x ∈ found path d, x.2.isNull = true := by
    simp [valuesAt, List.filter_eq_nil_iff, -Prod.exists, -Prod.forall]
  constructor
  · intro hnil x hx
    have hempty : valuesAt path d = [] := List.sublist_nil.mp (hnil ▸ valuesAt_sublist path d)
    exact (h.mp (hnil.trans hempty.symm)).noNull x hx (hvalues.mp hempty x hx)
  · intro hnulls
    have hnull (x : Bool × Piece) (hx : x ∈ found path d) : x.2.isNull = true := by
      rw [(hnulls x hx).1]
      rfl
    have hsingle : Single path d := by
      refine ⟨fun x hx hvalue ↦ ?_, fun x hx _ ↦ hnulls x hx⟩
      rw [hnull x hx] at hvalue
      cases hvalue
    rw [h.mpr hsingle, hvalues.mpr hnull]

/-- The items of an `[]interface{}` are kept twice, so once only when nothing is kept of them. -/
theorem single_list (path : List Step) (ds : List Piece)
    (h : ∀ d ∈ ds, reached path d = valuesAt path d ↔ Single path d) :
    Single (.item :: path) (.list ds) ↔ ∀ d ∈ ds, reached path d = [] := by
  have hfound (x : Bool × Piece) : x ∈ found (.item :: path) (.list ds) ↔
      ∃ d ∈ ds, ∃ y ∈ found path d, x = (true, y.2) := by
    simp [found, children, eq_comm, -Prod.exists]
  have hnil : (∀ d ∈ ds, reached path d = []) ↔
      ∀ d ∈ ds, ∀ x ∈ found path d, x.2 = .null ∧ EndsWithKey path :=
    forall₂_congr fun d hd ↦ reached_eq_nil_iff (h d hd)
  rw [hnil]
  constructor
  · intro hsingle d hd x hx
    have hmem := (hfound (true, x.2)).mpr ⟨d, hd, x, hx, rfl⟩
    have hnull : x.2.isNull = true := by
      by_contra hvalue
      cases hsingle.noList _ hmem (Bool.eq_false_iff.mpr hvalue)
    obtain ⟨heq, hkey⟩ := hsingle.noNull _ hmem hnull
    refine ⟨heq, (endsWithKey_cons fun hpath ↦ ?_).mp hkey⟩
    subst hpath
    obtain ⟨k, hk⟩ := hkey
    cases hk
  · intro hnulls
    refine ⟨fun x hx hvalue ↦ ?_, fun x hx hnull ↦ ?_⟩
    · obtain ⟨d, hd, y, hy, rfl⟩ := (hfound x).mp hx
      rw [(hnulls d hd y hy).1] at hvalue
      cases hvalue
    · obtain ⟨d, hd, y, hy, rfl⟩ := (hfound x).mp hx
      obtain ⟨heq, hkey⟩ := hnulls d hd y hy
      have hpath : path ≠ [] := fun hpath ↦ by
        obtain ⟨k, hk⟩ := hkey
        rw [hpath] at hk
        cases hk
      exact ⟨heq, (endsWithKey_cons hpath).mpr hkey⟩

/-- Each value is kept once exactly where no list doubles it and no null is left. -/
theorem reached_eq_valuesAt_iff (path : List Step) (d : Piece) :
    reached path d = valuesAt path d ↔ Single path d := by
  induction path generalizing d with
  | nil =>
    have hends : ¬EndsWithKey [] := fun ⟨_, hk⟩ ↦ by cases hk
    cases hnull : d.isNull with
    | true =>
      have hne : reached [] d ≠ valuesAt [] d := by simp [reached, valuesAt, found, hnull]
      exact iff_of_false hne fun h ↦ hends (h.noNull _ (List.mem_singleton_self _) hnull).2
    | false =>
      refine iff_of_true (by simp [reached, valuesAt, found, hnull]) ⟨fun x hx _ ↦ ?_, ?_⟩
      · rw [List.mem_singleton.mp hx]
      · intro x hx hnull'
        rw [List.mem_singleton.mp hx, hnull] at hnull'
        cases hnull'
  | cons step path ih =>
    cases step with
    | key k =>
      rw [valuesAt_key, reached, flatMap_eq_flatMap_iff fun d' _ ↦ valuesAt_sublist path d',
        single_key]
      exact forall₂_congr fun d' _ ↦ ih d'
    | item =>
      cases d with
      | list ds =>
        rw [valuesAt_list, reached, stepped, List.flatMap_append,
          single_list path ds fun d _ ↦ ih d, ← List.flatMap_eq_nil_iff]
        constructor
        · intro h
          have hle := (List.Sublist.flatMap_right ds fun d _ ↦ valuesAt_sublist path d).length_le
          have hlength := congrArg List.length h
          rw [List.length_append] at hlength
          exact List.length_eq_zero_iff.mp (by omega)
        · intro h
          have hnone := List.Sublist.flatMap_right ds fun d _ ↦ valuesAt_sublist path d
          rw [h, List.sublist_nil] at hnone
          rw [h, hnone, List.append_nil]
      | maps ms =>
        rw [valuesAt_maps, reached, stepped, List.flatMap_map,
          flatMap_eq_flatMap_iff fun m _ ↦ valuesAt_sublist path (.map m), single_maps]
        exact forall₂_congr fun m _ ↦ ih (.map m)
      | _ => exact iff_of_true rfl ⟨by simp [found, children], by simp [found, children]⟩

end Once

/-- **A traversal along a path of the schema comes to its end with the values that are stored there,
each occurrence once, exactly when none of them is behind an `[]interface{}` and no null is an item
or a nil map.** -/
theorem dataSet_perm_iff {properties : List NestedProperty} {data : List (String × Piece)}
    (hshaped : ShapedBy properties data) {k : String} {p q : NestedProperty} {path : List Step}
    (hfind : find properties k = some p) (hleads : Leads p path q) :
    ∃ traversal, (newDataTraversal properties data).traverse (.key k :: path) = .ok traversal ∧
      traversal.currentProperty = some q ∧
        (traversal.dataSet.Perm (valuesAt (.key k :: path) (.map (some data))) ↔
          Single (.key k :: path) (.map (some data))) := by
  obtain ⟨traversal, htraverse, hcurrent, hdataSet⟩ :=
    DataTraversal.traverse_newDataTraversal hshaped hfind hleads
  refine ⟨traversal, htraverse, hcurrent, ?_⟩
  rw [← reached_eq_valuesAt_iff, hdataSet]
  constructor
  · intro hperm
    exact ((valuesAt_sublist _ _).eq_of_length hperm.length_eq.symm).symm
  · intro heq
    rw [heq]

/-! ## Data that was read -/

namespace Piece

mutual
/-- What was read from JSON has neither slices of maps nor nil maps in it. -/
def ofValue : Value → Piece
  | .nil => .null
  | .list vs => .list (ofList vs)
  | .map m => .map (some (ofEntries m))
  | .bool b => .plain (.bool b) rfl
  | .int n => .plain (.int n) rfl
  | .float q => .plain (.float q) rfl
  | .str s => .plain (.str s) rfl
  | .strs ss => .plain (.strs ss) rfl

/-- The pieces of a list. -/
def ofList : List Value → List Piece
  | [] => []
  | v :: vs => ofValue v :: ofList vs

/-- The pieces of a map. -/
def ofEntries : List (String × Value) → List (String × Piece)
  | [] => []
  | (k, v) :: m => (k, ofValue v) :: ofEntries m
end

theorem ofList_eq_map (vs : List Value) : ofList vs = vs.map ofValue := by
  induction vs with
  | nil => rfl
  | cons v vs ih => rw [ofList, ih, List.map_cons]

theorem under_ofEntries (m : List (String × Value)) (k : String) :
    under (some (ofEntries m)) k = (m.lookup k).map ofValue := by
  show (ofEntries m).lookup k = _
  induction m with
  | nil => rfl
  | cons e m ih =>
    obtain ⟨k', v⟩ := e
    rw [ofEntries, List.lookup_cons, List.lookup_cons, ih]
    cases k == k' <;> rfl

end Piece

/-- The step for an identifier of a name. -/
def stepOf (key : String) : Step := if key = itemPropertyID then .item else .key key

/-- A traversal of what was read. -/
def ofTraversal (traversal : Gohan.DataTraversal) : DataTraversal :=
  ⟨traversal.currentProperty, traversal.currentChildren, traversal.dataSet.map ofValue⟩

theorem piecesUnderKey_ofValue {key : String} {dataSet newDataSet : List Value}
    (h : Gohan.DataTraversal.piecesUnderKey key dataSet = .ok newDataSet) :
    DataTraversal.piecesUnderKey key (dataSet.map ofValue) = .ok (newDataSet.map ofValue) := by
  induction dataSet generalizing newDataSet with
  | nil =>
    cases h
    rfl
  | cons d dataSet ih =>
    cases d with
    | nil => exact ih h
    | map m =>
      rw [Gohan.DataTraversal.piecesUnderKey, Go.bind_eq_ok] at h
      obtain ⟨rest, hrest, h⟩ := h
      rw [List.map_cons, ofValue, DataTraversal.piecesUnderKey, ih hrest]
      simp only [Go.ok_bind, under_ofEntries]
      cases hlookup : m.lookup key with
      | none =>
        rw [hlookup] at h
        cases h
        rfl
      | some v =>
        rw [hlookup] at h
        cases v <;> (cases h; rfl)
    | _ => cases h

theorem itemsOfPieces_ofValue {dataSet newDataSet : List Value}
    (h : Gohan.DataTraversal.itemsOfPieces dataSet = .ok newDataSet) :
    DataTraversal.itemsOfPieces (dataSet.map ofValue) = .ok (newDataSet.map ofValue) := by
  induction dataSet generalizing newDataSet with
  | nil =>
    cases h
    rfl
  | cons d dataSet ih =>
    cases d with
    | nil => exact ih h
    | list vs =>
      rw [Gohan.DataTraversal.itemsOfPieces, Go.bind_eq_ok] at h
      obtain ⟨rest, hrest, h⟩ := h
      cases h
      rw [List.map_cons, ofValue, DataTraversal.itemsOfPieces, ih hrest, ofList_eq_map]
      simp only [Go.ok_bind, List.map_append]
    | _ => cases h

/-- **On what was read**, the traversal is the one that attachments are validated with. -/
theorem traverse_ofTraversal {path : List String} {traversal next : Gohan.DataTraversal}
    (h : traversal.traverse path = .ok next) :
    (ofTraversal traversal).traverse (path.map stepOf) = .ok (ofTraversal next) := by
  induction path generalizing traversal with
  | nil =>
    cases h
    rfl
  | cons key path ih =>
    obtain ⟨middle, hmiddle, hnext⟩ := Go.bind_eq_ok.mp h
    have hstep : (ofTraversal traversal).advance (stepOf key) = .ok (ofTraversal middle) := by
      rw [Gohan.DataTraversal.advance] at hmiddle
      rw [stepOf]
      by_cases hkey : key = itemPropertyID
      · rw [if_pos hkey] at hmiddle ⊢
        rw [Gohan.DataTraversal.advanceByItem] at hmiddle
        rw [DataTraversal.advance, DataTraversal.advanceByItem, ofTraversal]
        cases hitems : traversal.currentProperty.bind items with
        | none =>
          rw [hitems] at hmiddle
          cases hmiddle
        | some child =>
          rw [hitems] at hmiddle
          obtain ⟨dataSet, hdataSet, hmiddle⟩ := Go.bind_eq_ok.mp hmiddle
          cases hmiddle
          simp only [itemsOfPieces_ofValue hdataSet]
          rfl
      · rw [if_neg hkey] at hmiddle ⊢
        rw [Gohan.DataTraversal.advanceByKey] at hmiddle
        rw [DataTraversal.advance, DataTraversal.advanceByKey, ofTraversal]
        cases hfind : find traversal.currentChildren key with
        | none =>
          rw [hfind] at hmiddle
          cases hmiddle
        | some child =>
          rw [hfind] at hmiddle
          obtain ⟨dataSet, hdataSet, hmiddle⟩ := Go.bind_eq_ok.mp hmiddle
          cases hmiddle
          simp only [piecesUnderKey_ofValue hdataSet]
          rfl
    rw [List.map_cons, DataTraversal.traverse, hstep]
    exact ih hnext

/-! ## Servers of a volume -/

/-- A volume names the servers it is attached to, and has interfaces. -/
def volumeProperties : List NestedProperty :=
  [.mk { id := "server_ids", type := "array" } []
      (some (.mk { id := itemPropertyID, relation := "server" } [] none)),
    .mk { id := "interfaces", type := "array" } [] <| some <|
      .mk { id := itemPropertyID, type := "object" }
        [.mk { id := "network_id", relation := "network" } [] none] none]

/-- One server, as it is read from a request. -/
def oneServer : List (String × Piece) := [("server_ids", .list [.plain (.str "s1") rfl])]

/-- Two interfaces that an extension put in, and one that is nil. -/
def twoInterfaces : List (String × Piece) :=
  [("interfaces", .maps [some [("network_id", .plain (.str "n1") rfl)], none,
    some [("network_id", .plain (.str "n2") rfl)]])]

theorem shapedBy_oneServer : ShapedBy volumeProperties oneServer := by
  intro k child d hfind hlookup
  rw [oneServer, List.lookup_cons] at hlookup
  cases hk : k == "server_ids" with
  | false =>
    rw [hk] at hlookup
    cases hlookup
  | true =>
    rw [hk] at hlookup
    obtain rfl := beq_iff_eq.mp hk
    obtain rfl := Option.some.inj hlookup
    obtain rfl := Option.some.inj hfind
    refine .list rfl rfl fun d hd ↦ ?_
    obtain rfl := List.mem_singleton.mp hd
    exact .plain _ rfl rfl

/-- The one server is found twice. -/
theorem not_dataSet_perm :
    ¬∀ (properties : List NestedProperty) (data : List (String × Piece)) (k : String)
      (p q : NestedProperty) (path : List Step), ShapedBy properties data →
        find properties k = some p → Leads p path q →
          ∃ traversal,
            (newDataTraversal properties data).traverse (.key k :: path) = .ok traversal ∧
              traversal.dataSet.Perm (valuesAt (.key k :: path) (.map (some data))) := by
  intro h
  obtain ⟨traversal, htraverse, hperm⟩ := h volumeProperties oneServer "server_ids" _ _ [.item]
    shapedBy_oneServer rfl (.item rfl (.here _))
  obtain rfl := Except.ok.inj htraverse
  exact absurd hperm.length_eq (by decide)

theorem shapedBy_twoInterfaces : ShapedBy volumeProperties twoInterfaces := by
  intro k child d hfind hlookup
  rw [twoInterfaces, List.lookup_cons] at hlookup
  cases hk : k == "interfaces" with
  | false =>
    rw [hk] at hlookup
    cases hlookup
  | true =>
    rw [hk] at hlookup
    obtain rfl := beq_iff_eq.mp hk
    obtain rfl := Option.some.inj hlookup
    obtain rfl := Option.some.inj hfind
    refine .maps rfl rfl fun m _ ↦ .map rfl fun k child d hfind _ ↦ ?_
    have hchild := (find_eq_some hfind).1
    obtain rfl := List.mem_singleton.mp hchild
    exact .plain _ rfl rfl

/-- The networks of the interfaces are found once. -/
theorem dataSet_perm_twoInterfaces : ∃ traversal,
    (newDataTraversal volumeProperties twoInterfaces).traverse
        [.key "interfaces", .item, .key "network_id"] = .ok traversal ∧
      traversal.dataSet.Perm [.plain (.str "n1") rfl, .plain (.str "n2") rfl] := by
  obtain ⟨traversal, htraverse, -, hiff⟩ := @dataSet_perm_iff _ _ shapedBy_twoInterfaces
    "interfaces" _ _ [.item, .key "network_id"] rfl (.item rfl (.key rfl (.here _)))
  refine ⟨traversal, htraverse, hiff.mpr ⟨?_, ?_⟩⟩
  · intro x hx _
    have hx : x ∈ [(false, Piece.plain (.str "n1") rfl), (false, .plain (.str "n2") rfl)] := hx
    simp only [List.mem_cons, List.not_mem_nil, or_false] at hx
    rcases hx with rfl | rfl <;> rfl
  · intro x hx hnull
    have hx : x ∈ [(false, Piece.plain (.str "n1") rfl), (false, .plain (.str "n2") rfl)] := hx
    simp only [List.mem_cons, List.not_mem_nil, or_false] at hx
    rcases hx with rfl | rfl <;> cases hnull

end Traversal

end Gohan
