import Gohan.Db.Counting
import Gohan.Db.Projection

/-!
# What options leave out of a list

A list that is asked for with options has, for each row on the page, the columns that the fields
name and the related resources that are joined; with fields, NULLs are left out.  It is compared
here with the list without options.

* `listIn_eq` — where the names are distinct, a list that is answered has for each row on the page
  the resource that is made of it, whatever is joined.
* `Keeps` — nothing is left out of the resource that is made of a row.  `keeps_iff` says that this
  is when the two resources are the same.
-/

set_option autoImplicit false

namespace Gohan.Join

open Columns (Thins)

/-! ## Answers, row by row -/

section Rows

variable {D : DB} {d : Dialect} {db : Database} {depth : ℕ} {s : Schema} {sc : SelectContext}
  {tree : Columns} {clause : List Sqlizer}

/-- The rows on a page, before anything is joined to them. -/
def pageRows (D : DB) (db : Database) (s : Schema) (pg : Option Paginator)
    (clause : List Sqlizer) : List Dict :=
  Selection.cut (pg.elim 0 (·.Offset)) (pg.bind (·.limit?))
    (D.ordered (pg.bind (·.order? s)) (D.selected (db (tableOf D s)).rows clause))

theorem length_pageRows (D : DB) (db : Database) (s : Schema) (pg : Option Paginator)
    (clause : List Sqlizer) : (pageRows D db s pg clause).length =
      windowSize pg (D.selected (db (tableOf D s)).rows clause).length := by
  rw [pageRows, length_cut, DB.length_ordered, windowSize.eq_def]
  cases pg with
  | none => rfl
  | some pg =>
    simp only [Option.bind_some, Option.elim_some, Paginator.limit?]
    split <;> rfl

theorem map_cut {α β : Type} (f : α → β) (offset : ℕ) (limit : Option ℕ) (l : List α) :
    (Selection.cut offset limit l).map f = Selection.cut offset limit (l.map f) := by
  cases limit with
  | none => exact List.map_drop
  | some n => rw [Selection.cut, Selection.cut, List.map_take, List.map_drop]

/-- The rows of a statement are those of its table, selected and in order, each with its joins. -/
theorem orderedRows_eq (h : Keyed D db) (st : Statement)
    (hroot : st.table ∉ st.joins.map (·.aliasName)) :
    orderedRows D db st = (D.ordered st.order (D.selected (db st.table).rows st.clause)).map
      fun row ↦ enterRows D db st.joins (AList.singleton st.table row) := by
  have hrow (row : Dict) :
      (enterRows D db st.joins (AList.singleton st.table row)).row st.table = row :=
    (row_enterRows_of_notMem hroot).trans (Scope.row_singleton st.table row)
  have hselected : selectedRows D db st = (D.selected (db st.table).rows st.clause).map
      fun row ↦ enterRows D db st.joins (AList.singleton st.table row) := by
    rw [selectedRows, joinedRows_eq h, List.filter_map, DB.selected]
    simp only [Function.comp_def, hrow]
  rw [orderedRows, hselected]
  cases st.order with
  | none => rfl
  | some order =>
    refine (List.map_insertionSort _ _ _ _ fun a _ b _ ↦ ?_).symm
    rw [hrow, hrow]

/-- **With distinct names an answer has the resources that are made of the rows on the page.** -/
theorem listIn_eq (hkeyed : Keyed D db)
    (h : Gohan.makeColumns D.schemas sc.fields sc.join depth s = .ok tree)
    (hclause : addFilterToQuery s sc.filter = .ok clause)
    (hcolumns : (statementOf D s sc tree clause).columns ≠ [])
    (haccepted : (statementOf D s sc tree clause).Accepted d)
    (hwords : (words columnNaming tree).Nodup) :
    listIn D d db depth s sc = .ok ((pageRows D db s sc.paginator clause).map
      (D.resourceOf db s sc.fields.isSome tree),
        (D.selected (db (tableOf D s)).rows clause).length) := by
  have hroot : (statementOf D s sc tree clause).table ∉
      (statementOf D s sc tree clause).joins.map (·.aliasName) := notMem_aliasName _ _ _
  have htables : (words tableNaming tree).Nodup :=
    nodup_aliasName.mp (List.nodup_cons.mp haccepted.nodup).2
  obtain ⟨resources, hlist, -⟩ := counts_of_accepted hkeyed h haccepted
  rw [listIn, buildSelect_eq h hclause, toSql, if_neg hcolumns, Go.ok_bind, hlist]
  rw [executeCountingSelect, executeSelect, execute, if_pos haccepted, Go.ok_bind,
    mapM_eq_ok_map (decodeRow_eq h _), orderedRows_eq hkeyed _ hroot, ← map_cut,
    List.map_map] at hlist
  rw [← (Prod.mk.inj (Except.ok.inj hlist)).1]
  congr 2
  refine List.map_congr_left fun row _ ↦ ?_
  exact congrArg (newResource s) (decodeTree_scan hwords htables row)

end Rows

/-! ## What is left out -/

section Keeps

variable {D : DB} {db : Database} {skipNil : Bool} {property : Property} {included : Bool}
  {tree tree' : Columns} {row data data' : Dict} {key : String}

/-- The row that a property refers to. -/
def relatedOf (D : DB) (db : Database) (related : Schema) (property : Property) (row : Dict) :
    Dict :=
  relatedRow D.server.toSqlEngine (db (related.getDbTableName D.legacy)) (row.get property.id)

/-- Something is shown of a row when NULLs are left out. -/
def Shows (D : DB) (db : Database) : Columns → Dict → Prop
  | .done, _ => False
  | .plain property included rest, row =>
    (included = true ∧ row.get property.id ≠ .nil) ∨ Shows D db rest row
  | .joined property related inner included rest, row =>
    (included = true ∧ row.get property.id ≠ .nil) ∨
      Shows D db inner (relatedOf D db related property row) ∨ Shows D db rest row

/-- A column is not left out, or it would not be there without options either: a NULL in a column
that is not nullable never is. -/
def KeepsColumn (skipNil : Bool) (property : Property) (included : Bool) (row : Dict) : Prop :=
  skipNil = true → if row.get property.id = .nil then property.nullable = false
    else included = true

/-- **Nothing is left out** of a row by the second tree that is in the first. -/
inductive Keeps (D : DB) (db : Database) (skipNil : Bool) : Columns → Columns → Dict → Prop
  | done {row : Dict} : Keeps D db skipNil .done .done row
  | plain {property : Property} {included included' : Bool} {rest rest' : Columns} {row : Dict}
      (own : KeepsColumn skipNil property included' row)
      (hrest : Keeps D db skipNil rest rest' row) :
      Keeps D db skipNil (.plain property included rest) (.plain property included' rest') row
  | joined {property : Property} {related : Schema} {inner inner' : Columns}
      {included included' : Bool} {rest rest' : Columns} {row : Dict}
      (own : KeepsColumn skipNil property included' row)
      (shows : skipNil = true → Shows D db inner' (relatedOf D db related property row))
      (hinner : Keeps D db skipNil inner inner' (relatedOf D db related property row))
      (hrest : Keeps D db skipNil rest rest' row) :
      Keeps D db skipNil (.joined property related inner included rest)
        (.joined property related inner' included' rest') row

theorem decode_plain (rest : Columns) :
    D.decode db skipNil (.plain property included rest) row data =
      D.decode db skipNil rest row (decodeColumn skipNil property included row data) := rfl

theorem decode_joined (related : Schema) (inner rest : Columns) :
    D.decode db skipNil (.joined property related inner included rest) row data =
      D.decode db skipNil rest row (enterRelated skipNil property
        (D.decode db skipNil inner (relatedOf D db related property row) ∅)
          (decodeColumn skipNil property included row data)) := rfl

theorem insert_ne_empty (key : String) (value : Value) (data : Dict) : data.insert key value ≠ ∅ :=
  fun h ↦ by simpa using congrArg (AList.lookup key) h

theorem decodeColumn_ne_empty_iff : decodeColumn true property included row data ≠ ∅ ↔
    data ≠ ∅ ∨ included = true ∧ row.get property.id ≠ .nil := by
  rw [decodeColumn_eq, enterValue]
  cases included with
  | false => simp
  | true =>
    by_cases hnil : row.get property.id = .nil
    · simp [hnil]
    · simp [hnil, insert_ne_empty]

/-- What is shown of a row is there. -/
theorem decode_ne_empty_iff :
    D.decode db true tree row data ≠ ∅ ↔ data ≠ ∅ ∨ Shows D db tree row := by
  induction tree generalizing row data with
  | done => simp [DB.decode, Shows]
  | plain property included rest ih =>
    rw [decode_plain, ih, decodeColumn_ne_empty_iff, Shows, or_assoc]
  | joined property related inner included rest ihinner ihrest =>
    have hrelated : D.decode db true inner (relatedOf D db related property row) ∅ ≠ ∅ ↔
        Shows D db inner (relatedOf D db related property row) :=
      ihinner.trans (or_iff_right fun h ↦ h rfl)
    rw [decode_joined, ihrest, Shows, ← hrelated, enterRelated]
    by_cases hempty : D.decode db true inner (relatedOf D db related property row) ∅ = ∅
    · rw [if_neg (by simp [hempty]), decodeColumn_ne_empty_iff]
      simp [hempty, or_assoc]
    · rw [if_pos (.inl hempty)]
      simp [hempty, insert_ne_empty]

theorem decodeColumn_of_keeps (h : KeepsColumn skipNil property included row)
    (hincluded : skipNil = false → included = true) :
    decodeColumn skipNil property included row data =
      decodeColumn false property true row data := by
  cases skipNil with
  | false => rw [hincluded rfl]
  | true =>
    have hkeeps := h rfl
    rw [decodeColumn_eq, decodeColumn_eq, enterValue, enterValue]
    by_cases hnil : row.get property.id = .nil
    · rw [if_pos hnil] at hkeeps
      simp [hnil, hkeeps]
    · rw [if_neg hnil] at hkeeps
      simp [hnil, hkeeps]

/-- Where nothing is left out, what is decoded is the same. -/
theorem decode_of_keeps (h : Keeps D db skipNil tree tree' row) (hall : tree.all = true)
    (hall' : skipNil = false → tree'.all = true) :
    D.decode db skipNil tree' row data = D.decode db false tree row data := by
  induction h generalizing data with
  | done => rfl
  | plain own hrest ih =>
    simp only [Columns.all, Bool.and_eq_true, imp_and] at hall hall'
    obtain ⟨rfl, hrestAll⟩ := hall
    rw [decode_plain, decode_plain, decodeColumn_of_keeps own hall'.1, ih hrestAll hall'.2]
  | @joined property related inner inner' included included' rest rest' row own shows hinner hrest
      ihinner ihrest =>
    simp only [Columns.all, Bool.and_eq_true, imp_and] at hall hall'
    obtain ⟨⟨rfl, hinnerAll⟩, hrestAll⟩ := hall
    have hentered : D.decode db skipNil inner' (relatedOf D db related property row) ∅ ≠ ∅ ∨
        skipNil = false := by
      cases skipNil with
      | false => exact .inr rfl
      | true => exact .inl (decode_ne_empty_iff.mpr (.inr (shows rfl)))
    rw [decode_joined, decode_joined, decodeColumn_of_keeps own hall'.1.1, enterRelated,
      if_pos hentered, enterRelated, if_pos (.inr rfl), ihinner hinnerAll hall'.1.2,
      ihrest hrestAll hall'.2]

/-! ## What is there shows what is kept -/

theorem names_subset_of_thins (h : Thins tree tree') : tree'.names ⊆ tree.names := by
  induction h with
  | done => exact List.Subset.refl _
  | plain _ ih => exact List.cons_subset_cons _ ih
  | joined _ _ _ ih => exact List.cons_subset_cons _ (List.cons_subset_cons _ ih)
  | unjoined _ ih => exact List.cons_subset_cons _ (List.subset_cons_of_subset _ ih)

theorem keepsColumn_of_isSome (hincluded : skipNil = false → included = true)
    (h : (shown skipNil property (if included then row.get property.id else .nil)).isSome =
      (shown false property (row.get property.id)).isSome) :
    KeepsColumn skipNil property included row := by
  rintro rfl
  rw [shown, shown] at h
  by_cases hnil : row.get property.id = .nil
  · rw [if_pos hnil]
    simpa [hnil] using h
  · rw [if_neg hnil]
    simpa [hnil] using h

/-- A related resource that is shown as it would be without options. -/
theorem same_of_shownRelated {shownData fullData : Dict}
    (h : shownRelated skipNil shownData = shownRelated false fullData) :
    (shownData ≠ ∅ ∨ skipNil = false) ∧ ∀ key, shownData.lookup key = fullData.lookup key := by
  have hfull : shownRelated false fullData = some (.map fullData.toList) := if_pos (.inr rfl)
  rw [hfull, shownRelated] at h
  have hshown : shownData ≠ ∅ ∨ skipNil = false := by
    by_contra hhidden
    rw [if_neg hhidden] at h
    cases h
  rw [if_pos hshown] at h
  have hsame : shownData.toList = fullData.toList := Value.map.inj (Option.some.inj h)
  refine ⟨hshown, fun key ↦ ?_⟩
  rw [← GoMap.lookup_ofList_toList, hsame, GoMap.lookup_ofList_toList]

/-- **What is under the names of a schema shows whether something is left out.** -/
theorem keeps_of_lookup (hthins : Thins tree tree') (hdistinct : tree.Distinct)
    (hall : tree.all = true) (hall' : skipNil = false → tree'.all = true)
    (hnew : ∀ key ∈ tree.names, data.lookup key = none ∧ data'.lookup key = none)
    (hown : ∀ key ∈ tree.names, ((D.decode db skipNil tree' row data').lookup key).isSome =
      ((D.decode db false tree row data).lookup key).isSome)
    (hrelations : ∀ key ∈ tree.relations, (D.decode db skipNil tree' row data').lookup key =
      (D.decode db false tree row data).lookup key) : Keeps D db skipNil tree tree' row := by
  induction hthins generalizing row data data' with
  | done => exact .done
  | @plain property included included' rest rest' h ih =>
    obtain ⟨hid, hdistinct⟩ := hdistinct
    simp only [Columns.all, Bool.and_eq_true, imp_and] at hall hall'
    obtain ⟨rfl, hrestAll⟩ := hall
    simp only [Columns.names, List.forall_mem_cons] at hnew hown
    obtain ⟨⟨hnone, hnone'⟩, hnew⟩ := hnew
    obtain ⟨hownId, hown⟩ := hown
    have hne : ∀ key ∈ rest.names, key ≠ property.id := fun key hkey heq ↦ hid (heq ▸ hkey)
    refine .plain (keepsColumn_of_isSome hall'.1 ?_)
      (ih hdistinct hrestAll hall'.2 (fun key hkey ↦ ?_) hown hrelations)
    · have hid' : property.id ∉ rest'.names := fun hmem ↦ hid (names_subset_of_thins h hmem)
      rw [decode_plain, decode_plain, DB.lookup_decode_of_notMem hid,
        DB.lookup_decode_of_notMem hid', decodeColumn_eq, decodeColumn_eq,
        lookup_enterValue hnone, lookup_enterValue hnone'] at hownId
      exact hownId
    · rw [DB.lookup_decodeColumn_of_ne (hne key hkey), DB.lookup_decodeColumn_of_ne (hne key hkey)]
      exact hnew key hkey
  | @joined property related inner inner' included included' rest rest' hinner h ihinner ih =>
    obtain ⟨hne, hid, hrelation, hinnerDistinct, hdistinct⟩ := hdistinct
    simp only [Columns.all, Bool.and_eq_true, imp_and] at hall hall'
    obtain ⟨⟨rfl, hinnerAll⟩, hrestAll⟩ := hall
    simp only [Columns.names, Columns.relations, List.forall_mem_cons, decode_joined]
      at hnew hown hrelations
    obtain ⟨⟨hnone, hnone'⟩, ⟨hrelNone, hrelNone'⟩, hnew⟩ := hnew
    obtain ⟨hownId, -, hown⟩ := hown
    obtain ⟨hrelated, hrelations⟩ := hrelations
    have hid' : property.id ∉ rest'.names := fun hmem ↦ hid (names_subset_of_thins h hmem)
    have hrelation' : property.relationProperty ∉ rest'.names :=
      fun hmem ↦ hrelation (names_subset_of_thins h hmem)
    -- the data of the related row, with and without options
    rw [DB.lookup_decode_of_notMem hrelation, DB.lookup_decode_of_notMem hrelation',
      lookup_enterRelated, lookup_enterRelated] at hrelated
    · obtain ⟨hshown, hlookup⟩ := same_of_shownRelated hrelated
      refine .joined (keepsColumn_of_isSome hall'.1.1 ?_) ?_ ?_
        (ih hdistinct hrestAll hall'.2 (fun key hkey ↦ ?_) hown hrelations)
      · rw [DB.lookup_decode_of_notMem hid, DB.lookup_decode_of_notMem hid',
          lookup_enterRelated_of_ne hne, lookup_enterRelated_of_ne hne, decodeColumn_eq,
          decodeColumn_eq, lookup_enterValue hnone, lookup_enterValue hnone'] at hownId
        exact hownId
      · rintro rfl
        rcases hshown with hshown | hfalse
        · simpa using decode_ne_empty_iff.mp hshown
        · cases hfalse
      · exact ihinner hinnerDistinct hinnerAll hall'.1.2
          (fun key _ ↦ ⟨AList.lookup_empty key, AList.lookup_empty key⟩)
          (fun key _ ↦ by rw [hlookup]) fun key _ ↦ hlookup key
      · have hkeyRel : key ≠ property.relationProperty := fun heq ↦ hrelation (heq ▸ hkey)
        have hkeyId : key ≠ property.id := fun heq ↦ hid (heq ▸ hkey)
        rw [lookup_enterRelated_of_ne hkeyRel, lookup_enterRelated_of_ne hkeyRel,
          DB.lookup_decodeColumn_of_ne hkeyId, DB.lookup_decodeColumn_of_ne hkeyId]
        exact hnew key hkey
    · rw [DB.lookup_decodeColumn_of_ne hne.symm, hrelNone]
    · rw [DB.lookup_decodeColumn_of_ne hne.symm, hrelNone']
  | @unjoined property related inner included included' rest rest' h ih =>
    obtain ⟨hne, -, hrelation, -, -⟩ := hdistinct
    simp only [Columns.names, List.forall_mem_cons] at hnew hown
    have hrelNone' := hnew.2.1.2
    have hrelNone := hnew.2.1.1
    have hrelation' : property.relationProperty ∉ rest'.names :=
      fun hmem ↦ hrelation (names_subset_of_thins h hmem)
    -- the related resource is there without options only
    have hrelated := hown.2.1
    rw [decode_plain, decode_joined, DB.lookup_decode_of_notMem hrelation,
      DB.lookup_decode_of_notMem hrelation', DB.lookup_decodeColumn_of_ne hne.symm, hrelNone',
      lookup_enterRelated (by rw [DB.lookup_decodeColumn_of_ne hne.symm, hrelNone]),
      shownRelated, if_pos (.inr rfl)] at hrelated
    cases hrelated

/-- **A resource is the same exactly when nothing is left out.** -/
theorem keeps_iff {s : Schema} (hthins : Thins tree tree') (hdistinct : tree.Distinct)
    (hall : tree.all = true) (hall' : skipNil = false → tree'.all = true)
    (hparent : s.parent ≠ "" → s.parentPropertyID ∉ tree.relations) :
    D.resourceOf db s skipNil tree' row = D.resourceOf db s false tree row ↔
      Keeps D db skipNil tree tree' row := by
  constructor
  · intro hsame
    have hlookup (key : String) := congrArg (AList.lookup key) hsame
    simp only [DB.resourceOf, lookup_newResource] at hlookup
    refine keeps_of_lookup hthins hdistinct hall hall'
      (fun key _ ↦ ⟨AList.lookup_empty key, AList.lookup_empty key⟩) (fun key _ ↦ ?_)
      fun key hkey ↦ ?_
    · have hkey := congrArg Option.isSome (hlookup key)
      split at hkey
      · simpa using hkey
      · exact hkey
    · have hnot : ¬(s.parent ≠ "" ∧ key = s.parentPropertyID) :=
        fun h ↦ hparent h.1 (h.2 ▸ hkey)
      have hkey' := hlookup key
      rwa [if_neg hnot, if_neg hnot] at hkey'
  · intro h
    rw [DB.resourceOf, DB.resourceOf, decode_of_keeps h hall hall']

end Keeps

/-! ## Trees with and without options -/

section Trees

variable {schemas : List Schema} {fields : Option (List String)} {join join' : Bool}
  {tree tree' : Columns} {s : Schema}

theorem words_sublist_of_thins (h : Thins tree tree') :
    (words columnNaming tree').Sublist (words columnNaming tree) := by
  induction h with
  | done => exact .refl _
  | plain _ ih => exact (List.Sublist.refl _).append ih
  | joined _ _ ihinner ih => exact ((ihinner.map _).append (.refl _)).append ih
  | unjoined _ ih => exact (List.sublist_append_right _ _).append ih

theorem thins_columnsOf {relatedTree relatedTree' : Schema → Go Columns}
    (hrelated : ∀ t inner inner', relatedTree t = .ok inner → relatedTree' t = .ok inner' →
      Thins inner inner')
    (hjoin : join' = true → join = true) {properties : List Property}
    (h : Gohan.columnsOf relatedTree schemas none join s properties = .ok tree)
    (h' : Gohan.columnsOf relatedTree' schemas fields join' s properties = .ok tree') :
    Thins tree tree' := by
  induction properties generalizing tree tree' with
  | nil =>
    cases h
    cases h'
    exact .done
  | cons property properties ih =>
    obtain ⟨rest, hrest, hfirst⟩ := columnsOf_cons_eq_ok.mp h
    obtain ⟨rest', hrest', hfirst'⟩ := columnsOf_cons_eq_ok.mp h'
    have hthins := ih hrest hrest'
    rcases hfirst with ⟨hplain, rfl⟩ | ⟨-, t, inner, ht, hinner, rfl⟩
    · rcases hfirst' with ⟨-, rfl⟩ | ⟨hjoined, -⟩
      · exact .plain hthins
      · exact absurd ⟨hjoined.1, hjoin hjoined.2⟩ hplain
    · rcases hfirst' with ⟨-, rfl⟩ | ⟨-, t', inner', ht', hinner', rfl⟩
      · exact .unjoined hthins
      · obtain rfl := Option.some.inj (ht.symm.trans ht')
        exact .joined (hrelated t inner inner' hinner hinner') hthins

/-- **Options only take columns and joins away.** -/
theorem thins_makeColumns (hjoin : join' = true → join = true) {depth : ℕ}
    (h : Gohan.makeColumns schemas none join depth s = .ok tree)
    (h' : Gohan.makeColumns schemas fields join' depth s = .ok tree') : Thins tree tree' := by
  induction depth generalizing s tree tree' with
  | zero => exact absurd h (Go.panicf_ne_ok _ _ _)
  | succ depth ih => exact thins_columnsOf (fun _ _ _ ↦ ih) hjoin h h'

end Trees

end Gohan.Join
