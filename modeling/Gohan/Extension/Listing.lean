import Gohan.Db.JoinView

/-!
# Lists, as an extension sees them

A transaction of an extension wraps a transaction of the database.  Its `List` and `LockList` hand
over the filter and the page and return the data of the resources; of the answer they keep the
resources and drop the total, which they count again, and `LockList` drops the options.

`extension_lists_iff` says what this comes to.  The total is the number of rows that match only
where the page has them all, and a list with locks is the one that was asked for only where its
options leave nothing out.
-/

set_option autoImplicit false

namespace Gohan

/-! ## What an extension asks for -/

namespace Goext

/-- `LockPolicy`, as extensions have it. -/
inductive LockPolicy where
  | lockRelatedResources
  | skipRelatedResources
  | noLock
  deriving DecidableEq

/-- `ListOptions`. -/
structure ListOptions where
  Details : Bool
  Fields : Option (List String)

/-- `Paginator`, as extensions have it. -/
structure Paginator where
  Key : String
  Order : String
  Limit : ℕ
  Offset : ℕ

end Goext

namespace Goplugin

open Join

/-- `convertLockPolicy`. -/
def convertLockPolicy : Goext.LockPolicy → LockPolicy
  | .skipRelatedResources => .skipRelatedResources
  | .lockRelatedResources => .lockRelatedResources
  | .noLock => .noLocking

/-- `transaction.ViewOptions`, from the options of an extension. -/
def viewOptions (listOptions : Goext.ListOptions) : ViewOptions :=
  ⟨listOptions.Details, listOptions.Fields⟩

/-- `(*pagination.Paginator)(paginator)`. -/
def rawPaginator (paginator : Goext.Paginator) : Paginator :=
  ⟨paginator.Key, paginator.Order, paginator.Limit, paginator.Offset⟩

/-- `resourcesToMap`: the data of the resources, and how many there are. -/
def resourcesToMap (data : List Dict) : Go (List Dict × ℕ) := .ok (data, data.length)

section

variable (D : DB) (d : Dialect) (db : Database) (depth : ℕ)

/-- `findRawSchema`.  Without a schema it is a nil pointer that the database gets. -/
def findRawSchema (id : String) : Go Schema :=
  match schemaByID D.schemas id with
  | some s => .ok s
  | none => .error nilPointer

/-- `List`, in a context with the error `ctxErr`, if it has one. -/
def list (ctxErr : Option Fault) (schemaID : String) (filter : GoMap FilterVal)
    (listOptions : Option Goext.ListOptions) (paginator : Option Goext.Paginator) :
    Go (List Dict × ℕ) :=
  match ctxErr with
  | some err => .error err
  | none => do
    let s ← findRawSchema D schemaID
    let (data, _) ← Join.list D d db depth s filter (listOptions.map viewOptions)
      (paginator.map rawPaginator)
    resourcesToMap data

/-- `LockList`.  The options are not handed over. -/
def lockList (ctxErr : Option Fault) (schemaID : String) (filter : GoMap FilterVal)
    (_listOptions : Option Goext.ListOptions) (paginator : Option Goext.Paginator)
    (lockingPolicy : Goext.LockPolicy) : Go (List Dict × ℕ) :=
  match ctxErr with
  | some err => .error err
  | none => do
    let s ← findRawSchema D schemaID
    let (data, _) ← Join.lockList D d db depth s filter none (paginator.map rawPaginator)
      (convertLockPolicy lockingPolicy)
    resourcesToMap data

end

/-! ## When two lists agree -/

/-- **Two lists agree**: they have the same resources in the same order and the same total, if they
have an answer. -/
def Agree (wrapper wrapped : Go (List Dict × ℕ)) : Prop :=
  ∀ answer, wrapper = .ok answer ↔ wrapped = .ok answer

/-- All of `n` rows are in the window of a paginator. -/
def WholeWindow (pg : Option Paginator) (n : ℕ) : Prop :=
  n = 0 ∨ ∀ p ∈ pg, p.Offset = 0 ∧ (p.Limit = maxUint64 ∨ n ≤ p.Limit)

theorem windowSize_eq_self_iff {pg : Option Paginator} {n : ℕ} :
    windowSize pg n = n ↔ WholeWindow pg n := by
  cases pg with
  | none => simp [windowSize, WholeWindow]
  | some pg =>
    simp only [windowSize, WholeWindow, Option.mem_some_iff, forall_eq']
    split
    · next hmax =>
      simp only [hmax, true_or, and_true]
      omega
    · next hmax =>
      simp only [hmax, false_or]
      omega

/-- What is left of an answer when the total is dropped. -/
def recounted (answer : Go (List Dict × ℕ)) : Go (List Dict × ℕ) := do
  let (data, _) ← answer
  resourcesToMap data

theorem recounted_eq_ok {answer : Go (List Dict × ℕ)} {resources : List Dict} {n : ℕ} :
    recounted answer = .ok (resources, n) ↔
      ∃ total, answer = .ok (resources, total) ∧ resources.length = n := by
  rw [recounted, Go.bind_eq_ok]
  constructor
  · rintro ⟨⟨data, total⟩, hanswer, hresult⟩
    obtain ⟨rfl, rfl⟩ := Prod.mk.inj (Except.ok.inj hresult)
    exact ⟨total, hanswer, rfl⟩
  · rintro ⟨total, hanswer, rfl⟩
    exact ⟨_, hanswer, rfl⟩

section Answers

variable {D : DB} {d : Dialect} {db : Database} {depth : ℕ} {s : Schema} {sc sc' : SelectContext}
  {clause : List Sqlizer}

/-- Without an answer on either side there is nothing to agree on. -/
theorem agree_recounted_of_error {fault : Fault} (hfilter : sc'.filter = sc.filter)
    (h : addFilterToQuery s sc.filter = .error fault) :
    Agree (recounted (listIn D d db depth s sc)) (listIn D d db depth s sc') := by
  rintro ⟨resources, n⟩
  constructor
  · intro hanswer
    obtain ⟨total, hanswer, -⟩ := recounted_eq_ok.mp hanswer
    obtain ⟨-, clause, -, hclause, -⟩ := accepted_of_listIn hanswer
    cases h.symm.trans hclause
  · intro hanswer
    obtain ⟨-, clause, -, hclause, -⟩ := accepted_of_listIn hanswer
    cases h.symm.trans (hfilter ▸ hclause)

/-- What is in an answer. -/
theorem answer_spec (hdepth : D.schemas.length + 1 ≤ depth) (hkeyed : Keyed D db)
    (hclause : addFilterToQuery s sc.filter = .ok clause) {result : List Dict × ℕ}
    (h : listIn D d db depth s sc = .ok result) :
    Answerable D d s sc.fields sc.join sc.paginator ∧
      result.2 = (D.selected (db (tableOf D s)).rows clause).length ∧
      result.1.length =
        windowSize sc.paginator (D.selected (db (tableOf D s)).rows clause).length := by
  obtain ⟨tree, clause', htree, hclause', hcolumns, haccepted⟩ := accepted_of_listIn h
  obtain rfl := Except.ok.inj (hclause'.symm.trans hclause)
  have hanswerable := (answerable_iff hdepth clause').mp ⟨tree, htree, hcolumns, haccepted⟩
  obtain ⟨resources, hresources, hlength⟩ :=
    (counts_listIn_iff d s sc hdepth hkeyed hclause).mpr hanswerable
  obtain rfl := Except.ok.inj (h.symm.trans hresources)
  exact ⟨hanswerable, rfl, hlength⟩

/-- **A recounted list agrees with another one** if both have an answer or none has, and if then the
page has all rows that match and the resources are the same. -/
theorem agree_recounted_iff (d : Dialect) (sc sc' : SelectContext)
    (hdepth : D.schemas.length + 1 ≤ depth) (hkeyed : Keyed D db)
    (hfilter : sc'.filter = sc.filter) (hpaginator : sc'.paginator = sc.paginator)
    (hclause : addFilterToQuery s sc.filter = .ok clause) :
    Agree (recounted (listIn D d db depth s sc)) (listIn D d db depth s sc') ↔
      (Answerable D d s sc.fields sc.join sc.paginator ↔
        Answerable D d s sc'.fields sc'.join sc.paginator) ∧
      (Answerable D d s sc.fields sc.join sc.paginator →
        WholeWindow sc.paginator (D.selected (db (tableOf D s)).rows clause).length ∧
          ∀ answer answer', listIn D d db depth s sc = .ok answer →
            listIn D d db depth s sc' = .ok answer' → answer.1 = answer'.1) := by
  have hclause' : addFilterToQuery s sc'.filter = .ok clause := hfilter ▸ hclause
  have hspec {result : List Dict × ℕ} (h : listIn D d db depth s sc = .ok result) :=
    answer_spec hdepth hkeyed hclause h
  have hspec' {result : List Dict × ℕ} (h : listIn D d db depth s sc' = .ok result) :=
    answer_spec hdepth hkeyed hclause' h
  rw [hpaginator] at hspec'
  have hcounts := (counts_listIn_iff d s sc hdepth hkeyed hclause).mpr
  have hcounts' := (counts_listIn_iff d s sc' hdepth hkeyed hclause').mpr
  rw [hpaginator] at hcounts'
  constructor
  · intro hagree
    have hforth (h : Answerable D d s sc.fields sc.join sc.paginator) : ∃ resources,
        listIn D d db depth s sc = .ok (resources,
          (D.selected (db (tableOf D s)).rows clause).length) ∧
        listIn D d db depth s sc' = .ok (resources, resources.length) := by
      obtain ⟨resources, hresources, -⟩ := hcounts h
      exact ⟨resources, hresources,
        (hagree (resources, _)).mp (recounted_eq_ok.mpr ⟨_, hresources, rfl⟩)⟩
    refine ⟨⟨fun h ↦ ?_, fun h ↦ ?_⟩, fun h ↦ ⟨?_, fun answer answer' hanswer hanswer' ↦ ?_⟩⟩
    · obtain ⟨resources, -, hresources'⟩ := hforth h
      exact (hspec' hresources').1
    · obtain ⟨resources, hresources, -⟩ := hcounts' h
      obtain ⟨total, hanswer, -⟩ := recounted_eq_ok.mp ((hagree _).mpr hresources)
      exact (hspec hanswer).1
    · obtain ⟨resources, hresources, hresources'⟩ := hforth h
      refine windowSize_eq_self_iff.mp ?_
      exact (hspec hresources).2.2.symm.trans (hspec' hresources').2.1
    · obtain ⟨resources, hresources, hresources'⟩ := hforth h
      obtain rfl := Except.ok.inj (hanswer.symm.trans hresources)
      obtain rfl := Except.ok.inj (hanswer'.symm.trans hresources')
      rfl
  · rintro ⟨hiff, hsame⟩ ⟨resources, n⟩
    constructor
    · intro h
      obtain ⟨total, hanswer, rfl⟩ := recounted_eq_ok.mp h
      obtain ⟨hanswerable, -, hlength⟩ := hspec hanswer
      obtain ⟨hwhole, hsame⟩ := hsame hanswerable
      obtain ⟨resources', hresources', -⟩ := hcounts' (hiff.mp hanswerable)
      obtain rfl := hsame _ _ hanswer hresources'
      rw [hresources', hlength, windowSize_eq_self_iff.mpr hwhole]
    · intro h
      obtain ⟨hanswerable, rfl, hlength⟩ := hspec' h
      obtain ⟨hwhole, hsame⟩ := hsame (hiff.mpr hanswerable)
      obtain ⟨resources', hresources', -⟩ := hcounts (hiff.mpr hanswerable)
      obtain rfl : resources' = resources := hsame _ _ hresources' h
      exact recounted_eq_ok.mpr
        ⟨_, hresources', hlength.trans (windowSize_eq_self_iff.mpr hwhole)⟩

end Answers

/-! ## What the wrapper keeps -/

/-- Are the related resources joined under a lock policy? -/
def joins (policy : Goext.LockPolicy) : Bool := policy = .lockRelatedResources

/-- **A list is kept**: if it has an answer, all rows that match are on the page. -/
def ListKept (D : DB) (d : Dialect) (db : Database) (s : Schema) (filter : GoMap FilterVal)
    (options : Option ViewOptions) (pg : Option Paginator) : Prop :=
  ∀ clause, addFilterToQuery s filter = .ok clause →
    Answerable D d s (fieldsOf s options) (options.any (·.Details)) pg →
      WholeWindow pg (D.selected (db (tableOf D s)).rows clause).length

/-- The names in a tree are distinct, and no relation is called like the identifier of the
parent. -/
structure Legible (s : Schema) (tree : Columns) : Prop where
  distinct : tree.Distinct
  words : (words columnNaming tree).Nodup
  parent : s.parent ≠ "" → s.parentPropertyID ∉ tree.relations

/-- The options of a list with locks say nothing that the policy does not say. -/
def SayNothing (s : Schema) (options : Option ViewOptions) (join : Bool) : Prop :=
  fieldsOf s options = none ∧ (join && options.all (·.Details)) = join

/-- The options leave nothing out of the rows. -/
structure LeaveNothingOut (D : DB) (db : Database) (depth : ℕ) (s : Schema)
    (options : Option ViewOptions) (join : Bool) (rows : List Dict) : Prop where
  legible : ∀ tree, Gohan.makeColumns D.schemas none join depth s = .ok tree → Legible s tree
  keeps : ∀ tree tree', Gohan.makeColumns D.schemas none join depth s = .ok tree →
    Gohan.makeColumns D.schemas (fieldsOf s options) (join && options.all (·.Details)) depth s =
      .ok tree' → ∀ row ∈ rows, Keeps D db (fieldsOf s options).isSome tree tree' row

/-- **A list with locks is kept**: with and without its options it has an answer or none, and if it
has one, all rows that match are on the page, and the options leave nothing out of them, if any. -/
def LockListKept (D : DB) (d : Dialect) (db : Database) (depth : ℕ) (s : Schema)
    (filter : GoMap FilterVal) (options : Option ViewOptions) (pg : Option Paginator)
    (policy : Goext.LockPolicy) : Prop :=
  policy = .noLock ∨ ∀ clause, addFilterToQuery s filter = .ok clause →
    (Answerable D d s none (joins policy) pg ↔
      Answerable D d s (fieldsOf s options) (joins policy && options.all (·.Details)) pg) ∧
    (Answerable D d s none (joins policy) pg →
      WholeWindow pg (D.selected (db (tableOf D s)).rows clause).length ∧
        (D.selected (db (tableOf D s)).rows clause = [] ∨ SayNothing s options (joins policy) ∨
          LeaveNothingOut D db depth s options (joins policy)
            (D.selected (db (tableOf D s)).rows clause)))

section Kept

variable {D : DB} {d : Dialect} {db : Database} {depth : ℕ} {s : Schema}
  {filter : GoMap FilterVal} {options : Option ViewOptions} {pg : Option Paginator} {join : Bool}
  {clause : List Sqlizer}

theorem listContextHelper_eq : listContextHelper s filter options pg =
    ⟨filter, fieldsOf s options, options.any (·.Details), pg⟩ := by
  cases options <;> rfl

theorem lockListContextHelper_eq {policy : Goext.LockPolicy} (h : policy ≠ .noLock) :
    lockListContextHelper s filter options pg (convertLockPolicy policy) =
      .ok ⟨filter, fieldsOf s options, joins policy && options.all (·.Details), pg⟩ := by
  cases policy with
  | noLock => exact absurd rfl h
  | lockRelatedResources => cases options <;> rfl
  | skipRelatedResources => cases options <;> rfl

/-- All rows that match are on a page that has them all. -/
theorem mem_pageRows (h : WholeWindow pg (D.selected (db (tableOf D s)).rows clause).length)
    {row : Dict} : row ∈ pageRows D db s pg clause ↔
      row ∈ D.selected (db (tableOf D s)).rows clause := by
  have hsublist : (pageRows D db s pg clause).Sublist
      (D.ordered (pg.bind (·.order? s)) (D.selected (db (tableOf D s)).rows clause)) := by
    rw [pageRows, Selection.cut.eq_def]
    split
    · exact List.drop_sublist _ _
    · exact (List.take_sublist _ _).trans (List.drop_sublist _ _)
  have hlength := length_pageRows D db s pg clause
  rw [windowSize_eq_self_iff.mpr h] at hlength
  have hall := hlength.trans (DB.length_ordered (D := D) (pg.bind (·.order? s)) _).symm
  rw [hsublist.eq_of_length hall, DB.mem_ordered]

theorem recounted_list (hs : schemaByID D.schemas s.id = some s)
    (listOptions : Option Goext.ListOptions) (paginator : Option Goext.Paginator) :
    list D d db depth none s.id filter listOptions paginator =
      recounted (listIn D d db depth s (listContextHelper s filter
        (listOptions.map viewOptions) (paginator.map rawPaginator))) := by
  rw [list, findRawSchema, hs]
  rfl

theorem recounted_lockList (hs : schemaByID D.schemas s.id = some s)
    (listOptions : Option Goext.ListOptions) (paginator : Option Goext.Paginator)
    {policy : Goext.LockPolicy} (hpolicy : policy ≠ .noLock) :
    lockList D d db depth none s.id filter listOptions paginator policy =
      recounted (listIn D d db depth s
        ⟨filter, none, joins policy, paginator.map rawPaginator⟩) := by
  rw [lockList, findRawSchema, hs, Go.ok_bind, Join.lockList, lockListContextHelper_eq hpolicy,
    Go.ok_bind, Option.all_none, Bool.and_true]
  rfl

/-- Two answers, with and without options, have the same resources when nothing is left out. -/
theorem resources_eq_iff (hkeyed : Keyed D db) (hclause : addFilterToQuery s filter = .ok clause)
    (hlegible : ∀ tree, Gohan.makeColumns D.schemas none join depth s = .ok tree → Legible s tree)
    (hwhole : WholeWindow pg (D.selected (db (tableOf D s)).rows clause).length)
    {answer answer' : List Dict × ℕ}
    (h : listIn D d db depth s ⟨filter, none, join, pg⟩ = .ok answer)
    (h' : listIn D d db depth s
      ⟨filter, fieldsOf s options, join && options.all (·.Details), pg⟩ = .ok answer') :
    answer.1 = answer'.1 ↔ LeaveNothingOut D db depth s options join
      (D.selected (db (tableOf D s)).rows clause) := by
  obtain ⟨tree, clause₁, htree, hclause₁, hcolumns, haccepted⟩ := accepted_of_listIn h
  obtain ⟨tree', clause₂, htree', hclause₂, hcolumns', haccepted'⟩ := accepted_of_listIn h'
  obtain rfl := Except.ok.inj (hclause₁.symm.trans hclause)
  obtain rfl := Except.ok.inj (hclause₂.symm.trans hclause₁)
  have hnames := hlegible tree htree
  have hthins := thins_makeColumns (fun hjoin ↦ (Bool.and_eq_true _ _ ▸ hjoin).1) htree htree'
  have hall := Columns.all_makeColumns htree
  have hall' (hfields : (fieldsOf s options).isSome = false) : tree'.all = true := by
    rw [Option.isSome_eq_false_iff, Option.isNone_iff_eq_none] at hfields
    simp only [hfields] at htree'
    exact Columns.all_makeColumns htree'
  have hsame (row : Dict) : D.resourceOf db s (fieldsOf s options).isSome tree' row =
      D.resourceOf db s false tree row ↔ Keeps D db (fieldsOf s options).isSome tree tree' row :=
    keeps_iff hthins hnames.distinct hall hall' hnames.parent
  rw [listIn_eq hkeyed htree hclause₁ hcolumns haccepted hnames.words] at h
  rw [listIn_eq hkeyed htree' hclause₁ hcolumns' haccepted'
    (hnames.words.sublist (words_sublist_of_thins hthins))] at h'
  obtain rfl := Except.ok.inj h
  obtain rfl := Except.ok.inj h'
  rw [List.map_inj_left]
  constructor
  · intro heq
    refine ⟨hlegible, fun tree₁ tree₁' h₁ h₁' row hrow ↦ ?_⟩
    obtain rfl := Except.ok.inj (htree.symm.trans h₁)
    obtain rfl := Except.ok.inj (htree'.symm.trans h₁')
    exact (hsame row).mp (heq row ((mem_pageRows hwhole).mpr hrow)).symm
  · intro hleave row hrow
    exact ((hsame row).mpr
      (hleave.keeps tree tree' htree htree' row ((mem_pageRows hwhole).mp hrow))).symm

end Kept

/-! ## The wrapper and the wrapped -/

section Lists

variable {D : DB} {d : Dialect} {db : Database} {depth : ℕ} {s : Schema}
  {filter : GoMap FilterVal} {policy : Goext.LockPolicy}

theorem list_agree_iff (hdepth : D.schemas.length + 1 ≤ depth) (hkeyed : Keyed D db)
    (hs : schemaByID D.schemas s.id = some s) (listOptions : Option Goext.ListOptions)
    (paginator : Option Goext.Paginator) :
    Agree (list D d db depth none s.id filter listOptions paginator)
        (Join.list D d db depth s filter (listOptions.map viewOptions)
          (paginator.map rawPaginator)) ↔
      ListKept D d db s filter (listOptions.map viewOptions) (paginator.map rawPaginator) := by
  rw [recounted_list hs, Join.list, listContextHelper_eq]
  have hagree {clause : List Sqlizer} (hclause : addFilterToQuery s filter = .ok clause) :=
    agree_recounted_iff d ⟨filter, fieldsOf s (listOptions.map viewOptions),
      (listOptions.map viewOptions).any (·.Details), paginator.map rawPaginator⟩ _
      hdepth hkeyed rfl rfl hclause
  constructor
  · intro h clause hclause hanswerable
    exact (((hagree hclause).mp h).2 hanswerable).1
  · intro h
    cases hclause : addFilterToQuery s filter with
    | error fault => exact agree_recounted_of_error rfl hclause
    | ok clause =>
      refine (hagree hclause).mpr ⟨Iff.rfl, fun hanswerable ↦ ⟨h clause hclause hanswerable, ?_⟩⟩
      intro answer answer' hanswer hanswer'
      rw [Except.ok.inj (hanswer.symm.trans hanswer')]

/-- Nothing is locked without a lock. -/
theorem lockList_agree_noLock (hs : schemaByID D.schemas s.id = some s)
    (listOptions : Option Goext.ListOptions) (paginator : Option Goext.Paginator) :
    Agree (lockList D d db depth none s.id filter listOptions paginator .noLock)
      (Join.lockList D d db depth s filter (listOptions.map viewOptions)
        (paginator.map rawPaginator) (convertLockPolicy .noLock)) := by
  rw [lockList, findRawSchema, hs]
  intro answer
  constructor <;> intro h <;> cases h

/-- With a lock, the wrapper is asked with the options and asks without them. -/
theorem lockList_agree_iff (hdepth : D.schemas.length + 1 ≤ depth) (hkeyed : Keyed D db)
    (hs : schemaByID D.schemas s.id = some s) (listOptions : Option Goext.ListOptions)
    (paginator : Option Goext.Paginator) (hpolicy : policy ≠ .noLock) {clause : List Sqlizer}
    (hclause : addFilterToQuery s filter = .ok clause) :
    Agree (lockList D d db depth none s.id filter listOptions paginator policy)
        (Join.lockList D d db depth s filter (listOptions.map viewOptions)
          (paginator.map rawPaginator) (convertLockPolicy policy)) ↔
      (Answerable D d s none (joins policy) (paginator.map rawPaginator) ↔
        Answerable D d s (fieldsOf s (listOptions.map viewOptions))
          (joins policy && (listOptions.map viewOptions).all (·.Details))
          (paginator.map rawPaginator)) ∧
      (Answerable D d s none (joins policy) (paginator.map rawPaginator) →
        WholeWindow (paginator.map rawPaginator)
          (D.selected (db (tableOf D s)).rows clause).length ∧
        ∀ answer answer', listIn D d db depth s
            ⟨filter, none, joins policy, paginator.map rawPaginator⟩ = .ok answer →
          listIn D d db depth s ⟨filter, fieldsOf s (listOptions.map viewOptions),
            joins policy && (listOptions.map viewOptions).all (·.Details),
            paginator.map rawPaginator⟩ = .ok answer' → answer.1 = answer'.1) := by
  rw [recounted_lockList hs _ _ hpolicy, Join.lockList, lockListContextHelper_eq hpolicy,
    Go.ok_bind]
  exact agree_recounted_iff d ⟨filter, none, joins policy, paginator.map rawPaginator⟩
    ⟨filter, fieldsOf s (listOptions.map viewOptions),
      joins policy && (listOptions.map viewOptions).all (·.Details), paginator.map rawPaginator⟩
    hdepth hkeyed rfl rfl hclause

theorem lockList_agree_of_kept (hdepth : D.schemas.length + 1 ≤ depth) (hkeyed : Keyed D db)
    (hs : schemaByID D.schemas s.id = some s) {listOptions : Option Goext.ListOptions}
    {paginator : Option Goext.Paginator}
    (h : LockListKept D d db depth s filter (listOptions.map viewOptions)
      (paginator.map rawPaginator) policy) :
    Agree (lockList D d db depth none s.id filter listOptions paginator policy)
      (Join.lockList D d db depth s filter (listOptions.map viewOptions)
        (paginator.map rawPaginator) (convertLockPolicy policy)) := by
  by_cases hpolicy : policy = .noLock
  · rw [hpolicy]
    exact lockList_agree_noLock hs listOptions paginator
  have hkept := h.resolve_left hpolicy
  cases hclause : addFilterToQuery s filter with
  | error fault =>
    rw [recounted_lockList hs _ _ hpolicy, Join.lockList, lockListContextHelper_eq hpolicy,
      Go.ok_bind]
    exact agree_recounted_of_error rfl hclause
  | ok clause =>
    obtain ⟨hanswerable, hsame⟩ := hkept clause hclause
    refine (lockList_agree_iff hdepth hkeyed hs _ _ hpolicy hclause).mpr
      ⟨hanswerable, fun hanswer ↦ ?_⟩
    obtain ⟨hwhole, hcases⟩ := hsame hanswer
    refine ⟨hwhole, fun answer answer' hok hok' ↦ ?_⟩
    rcases hcases with hempty | ⟨hfields, hjoin⟩ | hleave
    · have hlength := (answer_spec hdepth hkeyed hclause hok).2.2
      have hlength' := (answer_spec hdepth hkeyed hclause hok').2.2
      rw [windowSize_eq_self_iff.mpr hwhole, hempty, List.length_nil,
        List.length_eq_zero_iff] at hlength hlength'
      rw [hlength, hlength']
    · rw [hfields, hjoin] at hok'
      rw [Except.ok.inj (hok.symm.trans hok')]
    · exact (resources_eq_iff hkeyed hclause hleave.legible hwhole hok hok').mpr hleave

theorem kept_of_lockList_agree (hdepth : D.schemas.length + 1 ≤ depth) (hkeyed : Keyed D db)
    (hs : schemaByID D.schemas s.id = some s) {listOptions : Option Goext.ListOptions}
    {paginator : Option Goext.Paginator}
    (hlegible : ∀ tree, Gohan.makeColumns D.schemas none (joins policy) depth s = .ok tree →
      Legible s tree)
    (h : Agree (lockList D d db depth none s.id filter listOptions paginator policy)
      (Join.lockList D d db depth s filter (listOptions.map viewOptions)
        (paginator.map rawPaginator) (convertLockPolicy policy))) :
    LockListKept D d db depth s filter (listOptions.map viewOptions)
      (paginator.map rawPaginator) policy := by
  by_cases hpolicy : policy = .noLock
  · exact .inl hpolicy
  refine .inr fun clause hclause ↦ ?_
  obtain ⟨hanswerable, hsame⟩ :=
    (lockList_agree_iff hdepth hkeyed hs _ _ hpolicy hclause).mp h
  refine ⟨hanswerable, fun hanswer ↦ ⟨(hsame hanswer).1, .inr (.inr ?_)⟩⟩
  obtain ⟨resources, hok, -⟩ := (counts_listIn_iff d s
    ⟨filter, none, joins policy, paginator.map rawPaginator⟩ hdepth hkeyed hclause).mpr hanswer
  obtain ⟨resources', hok', -⟩ := (counts_listIn_iff d s
    ⟨filter, fieldsOf s (listOptions.map viewOptions),
      joins policy && (listOptions.map viewOptions).all (·.Details), paginator.map rawPaginator⟩
    hdepth hkeyed hclause).mpr (hanswerable.mp hanswer)
  exact (resources_eq_iff hkeyed hclause hlegible (hsame hanswer).1 hok hok').mp
    ((hsame hanswer).2 _ _ hok hok')

end Lists

/-- **What an extension lists is what the database lists**, resources and total, exactly when it is
kept: for lists with locks this is enough for all schemas, and for the other direction the names
must be distinct. -/
theorem extension_lists_iff (D : DB) (d : Dialect) (db : Database) (s : Schema)
    (filter : GoMap FilterVal) (listOptions : Option Goext.ListOptions)
    (paginator : Option Goext.Paginator) {depth : ℕ} (hdepth : D.schemas.length + 1 ≤ depth)
    (hkeyed : Keyed D db) (hs : schemaByID D.schemas s.id = some s) :
    (Agree (list D d db depth none s.id filter listOptions paginator)
        (Join.list D d db depth s filter (listOptions.map viewOptions)
          (paginator.map rawPaginator)) ↔
      ListKept D d db s filter (listOptions.map viewOptions) (paginator.map rawPaginator)) ∧
    ∀ policy : Goext.LockPolicy,
      (LockListKept D d db depth s filter (listOptions.map viewOptions)
          (paginator.map rawPaginator) policy →
        Agree (lockList D d db depth none s.id filter listOptions paginator policy)
          (Join.lockList D d db depth s filter (listOptions.map viewOptions)
            (paginator.map rawPaginator) (convertLockPolicy policy))) ∧
      ((∀ tree, Gohan.makeColumns D.schemas none (joins policy) depth s = .ok tree →
          Legible s tree) →
        Agree (lockList D d db depth none s.id filter listOptions paginator policy)
          (Join.lockList D d db depth s filter (listOptions.map viewOptions)
            (paginator.map rawPaginator) (convertLockPolicy policy)) →
        LockListKept D d db depth s filter (listOptions.map viewOptions)
          (paginator.map rawPaginator) policy) :=
  ⟨list_agree_iff hdepth hkeyed hs listOptions paginator, fun _ ↦
    ⟨lockList_agree_of_kept hdepth hkeyed hs, kept_of_lockList_agree hdepth hkeyed hs⟩⟩

/-- All hosts, of which there is one. -/
theorem extension_lists_hosts : letI D := joinedHosts
    (Agree (list D .mysql oneHost 3 none "host" ∅ none none)
        (Join.list D .mysql oneHost 3 joinedHost ∅ none none) ↔
      ListKept D .mysql oneHost joinedHost ∅ none none) ∧
    ∀ policy : Goext.LockPolicy,
      (LockListKept D .mysql oneHost 3 joinedHost ∅ none none policy →
        Agree (lockList D .mysql oneHost 3 none "host" ∅ none none policy)
          (Join.lockList D .mysql oneHost 3 joinedHost ∅ none none (convertLockPolicy policy))) ∧
      ((∀ tree, Gohan.makeColumns D.schemas none (joins policy) 3 joinedHost = .ok tree →
          Legible joinedHost tree) →
        Agree (lockList D .mysql oneHost 3 none "host" ∅ none none policy)
          (Join.lockList D .mysql oneHost 3 joinedHost ∅ none none (convertLockPolicy policy)) →
        LockListKept D .mysql oneHost 3 joinedHost ∅ none none policy) :=
  extension_lists_iff joinedHosts .mysql oneHost joinedHost ∅ none none le_rfl keyed_oneHost rfl

/-- The page after the last host, of which the total is not the length, and the identifiers of the
hosts alone, locked. -/
theorem not_agree_hosts :
    ¬Agree (list joinedHosts .mysql oneHost 3 none "host" ∅ none (some ⟨"id", "asc", 10, 1⟩))
      (Join.list joinedHosts .mysql oneHost 3 joinedHost ∅ none (some ⟨"id", "asc", 10, 1⟩)) ∧
    ¬Agree (lockList joinedHosts .mysql oneHost 3 none "host" ∅ (some ⟨false, some ["id"]⟩) none
        .skipRelatedResources)
      (Join.lockList joinedHosts .mysql oneHost 3 joinedHost ∅ (some ⟨false, some ["id"]⟩) none
        .skipRelatedResources) := by
  constructor
  · intro h
    have hwrapped : Join.list joinedHosts .mysql oneHost 3 joinedHost ∅ none
        (some ⟨"id", "asc", 10, 1⟩) = .ok ([], 1) := by decide +kernel
    have hwrapper := (h _).mpr hwrapped
    revert hwrapper
    decide +kernel
  · intro h
    have hwrapped : Join.lockList joinedHosts .mysql oneHost 3 joinedHost ∅
        (some ⟨false, some ["id"]⟩) none .skipRelatedResources =
          .ok ([GoMap.ofList [("id", .str "h1")]], 1) := by decide +kernel
    have hwrapper := (h _).mpr hwrapped
    revert hwrapper
    decide +kernel

end Goplugin

end Gohan
