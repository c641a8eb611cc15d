import Gohan.Logic.Truncate
import Gohan.Db.Select

/-!
# Keys of the query cache

A cached transaction keeps what a query has returned under a string: the schema, whether related
resources are joined, the hash of the filter, the fields and the paginator, as `fmt.Sprintf` prints
them.  What is printed does not always say what it was printed from.

* No fields, which asks for all of them, and an empty list of fields are both `[]`.
* A field with a space in it is like two fields.

`createKey_inj` says that there is nothing else to be careful about, but for spaces and brackets in
the names.
-/

set_option autoImplicit false

namespace Gohan.Cache

/-! ## The source -/

/-- `%v` of a bool. -/
def printBool : Bool → List Char
  | true => ['t', 'r', 'u', 'e']
  | false => ['f', 'a', 'l', 's', 'e']

/-- `%v` of an unsigned integer. -/
def printUint (n : ℕ) : List Char := Nat.toDigits 10 n

/-- `%v` of a slice of strings: a nil slice is like an empty one. -/
def printFields (fields : Option (List String)) : List Char :=
  '[' :: List.intercalate [' '] ((fields.getD []).map String.toList) ++ [']']

/-- `%v` of a paginator. -/
def printPaginator (pg : Paginator) : List Char :=
  '\x7b' :: pg.Key.toList ++ ' ' :: (pg.Order.toList ++ ' ' :: (printUint pg.Limit ++
    ' ' :: (printUint pg.Offset ++ ['\x7d'])))

/-- `createKey`. -/
def createKey (hash : GoMap FilterVal → ℕ) (schemaID : String) (sc : SelectContext) : List Char :=
  let res := schemaID.toList ++ ' ' :: (printBool sc.join ++ ' ' :: (printUint (hash sc.filter) ++
    ' ' :: printFields sc.fields))
  match sc.paginator with
  | none => res
  | some pg => res ++ ' ' :: printPaginator pg

/-! ## What a key says -/

theorem printUint_inj {n m : ℕ} (h : printUint n = printUint m) : n = m := by
  rw [← Nat.ofDigitChars_ten_toDigits (n := n), ← Nat.ofDigitChars_ten_toDigits (n := m)]
  exact congrArg (Nat.ofDigitChars 10 · 0) h

theorem notMem_printUint {c : Char} (h : c.isDigit = false) (n : ℕ) : c ∉ printUint n :=
  fun hmem ↦ Bool.false_ne_true (h.symm.trans
    (Nat.isDigit_of_mem_toDigits (by decide) (by decide) hmem))

theorem space_notMem_printBool (b : Bool) : ' ' ∉ printBool b := by
  cases b <;> decide

theorem printBool_inj {a b : Bool} (h : printBool a = printBool b) : a = b := by
  cases a <;> cases b <;> first | rfl | cases h

/-- Names that are printed so that they can be told apart. -/
def PlainNames (names : List String) : Prop :=
  names ≠ [] ∧ ∀ name ∈ names, name ≠ "" ∧ ' ' ∉ name.toList ∧ ']' ∉ name.toList

/-- What a key is made of has no spaces or brackets, and there are fields if there is a list. -/
structure Plain (schemaID : String) (sc : SelectContext) : Prop where
  schemaID : ' ' ∉ schemaID.toList
  fields : ∀ names, sc.fields = some names → PlainNames names
  paginator : ∀ pg, sc.paginator = some pg → ' ' ∉ pg.Key.toList ∧ ' ' ∉ pg.Order.toList

/-- A word is printed as it is, so from words one can tell the list. -/
theorem intercalate_inj {xs ys : List (List Char)} (hxs : ∀ x ∈ xs, x ≠ [] ∧ ' ' ∉ x)
    (hys : ∀ y ∈ ys, y ≠ [] ∧ ' ' ∉ y)
    (h : List.intercalate [' '] xs = List.intercalate [' '] ys) : xs = ys := by
  have hnil {xs : List (List Char)} (hxs : ∀ x ∈ xs, x ≠ [] ∧ ' ' ∉ x) (hne : xs ≠ []) :
      List.intercalate [' '] xs ≠ [] := by
    match xs with
    | [] => exact absurd rfl hne
    | [x] => simpa using (hxs x (by simp)).1
    | x :: y :: rest => simp [List.intercalate_cons_cons]
  by_cases hx : xs = []
  · subst hx
    by_contra hy
    exact hnil hys (Ne.symm hy) (by simpa using h.symm)
  · by_cases hy : ys = []
    · subst hy
      exact absurd (by simpa using h) (hnil hxs hx)
    · rw [← List.splitOn_intercalate ' ' (fun x hmem ↦ (hxs x hmem).2) hx, h,
        List.splitOn_intercalate ' ' (fun y hmem ↦ (hys y hmem).2) hy]

theorem mem_intercalate {c : Char} {xs : List (List Char)}
    (h : c ∈ List.intercalate [' '] xs) : c = ' ' ∨ ∃ x ∈ xs, c ∈ x := by
  induction xs with
  | nil => simp at h
  | cons x xs ih =>
    match xs with
    | [] => exact Or.inr ⟨x, by simp, by simpa using h⟩
    | y :: rest =>
      rw [List.intercalate_cons_cons, List.append_assoc, List.mem_append,
        List.mem_append] at h
      rcases h with h | h | h
      · exact Or.inr ⟨x, by simp, h⟩
      · exact Or.inl (by simpa using h)
      · exact (ih h).imp_right fun ⟨z, hz, hmem⟩ ↦ ⟨z, List.mem_cons_of_mem _ hz, hmem⟩

theorem bracket_notMem {fields : Option (List String)}
    (h : ∀ names, fields = some names → PlainNames names) :
    ']' ∉ List.intercalate [' '] ((fields.getD []).map String.toList) := by
  intro hmem
  rcases mem_intercalate hmem with heq | ⟨x, hx, hmem⟩
  · exact absurd heq (by decide)
  · cases fields with
    | none => simp at hx
    | some names =>
      obtain ⟨name, hname, rfl⟩ := List.mem_map.mp hx
      exact ((h names rfl).2 name hname).2.2 hmem

theorem printFields_inj {fields fields' : Option (List String)}
    (h : ∀ names, fields = some names → PlainNames names)
    (h' : ∀ names, fields' = some names → PlainNames names) {l l' : List Char}
    (heq : printFields fields ++ l = printFields fields' ++ l') : fields = fields' ∧ l = l' := by
  rw [printFields, printFields, List.cons_append, List.cons_append, List.cons_append,
    List.cons_append, List.append_assoc, List.append_assoc, List.cons.injEq] at heq
  obtain ⟨hbody, htail⟩ := (List.append_sep_inj (bracket_notMem h) (bracket_notMem h')).mp heq.2
  refine ⟨?_, htail⟩
  have hwords {fields : Option (List String)}
      (h : ∀ names, fields = some names → PlainNames names) :
      ∀ x ∈ (fields.getD []).map String.toList, x ≠ [] ∧ ' ' ∉ x := by
    intro x hx
    cases fields with
    | none => simp at hx
    | some names =>
      obtain ⟨name, hname, rfl⟩ := List.mem_map.mp hx
      obtain ⟨hne, hspace, -⟩ := (h names rfl).2 name hname
      exact ⟨by simpa using hne, hspace⟩
  have hnames : fields.getD [] = fields'.getD [] :=
    List.map_injective_iff.mpr (fun _ _ ↦ String.toList_inj.mp)
      (intercalate_inj (hwords h) (hwords h') hbody)
  match fields, fields' with
  | none, none => rfl
  | none, some names => exact absurd hnames.symm (h' names rfl).1
  | some names, none => exact absurd hnames (h names rfl).1
  | some names, some names' => exact congrArg some hnames

theorem printPaginator_inj {pg pg' : Paginator}
    (h : ' ' ∉ pg.Key.toList ∧ ' ' ∉ pg.Order.toList)
    (h' : ' ' ∉ pg'.Key.toList ∧ ' ' ∉ pg'.Order.toList)
    (heq : printPaginator pg = printPaginator pg') : pg = pg' := by
  rw [printPaginator, printPaginator, List.cons_append, List.cons_append, List.cons.injEq] at heq
  have hspace := notMem_printUint (c := ' ') rfl
  have hbrace := notMem_printUint (c := '}') rfl
  obtain ⟨hkey, hrest⟩ := (List.append_sep_inj h.1 h'.1).mp heq.2
  obtain ⟨horder, hrest⟩ := (List.append_sep_inj h.2 h'.2).mp hrest
  obtain ⟨hlimit, hrest⟩ := (List.append_sep_inj (hspace _) (hspace _)).mp hrest
  obtain ⟨hoffset, -⟩ := (List.append_sep_inj (hbrace _) (hbrace _)).mp hrest
  cases pg
  cases pg'
  exact Paginator.mk.injEq .. ▸ ⟨String.toList_inj.mp hkey, String.toList_inj.mp horder,
    printUint_inj hlimit, printUint_inj hoffset⟩

/-- **Plain queries of one key are of the same schema and ask for the same, if the filters with the
hash are the same.** -/
theorem createKey_inj {hash : GoMap FilterVal → ℕ} {schemaID schemaID' : String}
    {sc sc' : SelectContext} (h : Plain schemaID sc) (h' : Plain schemaID' sc')
    (heq : createKey hash schemaID sc = createKey hash schemaID' sc') :
    schemaID = schemaID' ∧ hash sc.filter = hash sc'.filter ∧
      sc = { sc' with filter := sc.filter } := by
  have hkey (schemaID : String) (sc : SelectContext) : createKey hash schemaID sc =
      schemaID.toList ++ ' ' :: (printBool sc.join ++ ' ' :: (printUint (hash sc.filter) ++
        ' ' :: (printFields sc.fields ++
          (sc.paginator.map fun pg ↦ ' ' :: printPaginator pg).getD []))) := by
    unfold createKey
    cases sc.paginator <;> simp
  rw [hkey, hkey] at heq
  have hspace := notMem_printUint (c := ' ') rfl
  obtain ⟨hid, hrest⟩ := (List.append_sep_inj h.schemaID h'.schemaID).mp heq
  obtain ⟨hjoin, hrest⟩ := (List.append_sep_inj (space_notMem_printBool _)
    (space_notMem_printBool _)).mp hrest
  obtain ⟨hhash, hrest⟩ := (List.append_sep_inj (hspace _) (hspace _)).mp hrest
  obtain ⟨hfields, hpg⟩ := printFields_inj h.fields h'.fields hrest
  refine ⟨String.toList_inj.mp hid, printUint_inj hhash, ?_⟩
  have hpaginator : sc.paginator = sc'.paginator := by
    match hp : sc.paginator, hp' : sc'.paginator with
    | none, none => rfl
    | none, some pg => simp [hp, hp'] at hpg
    | some pg, none => simp [hp, hp'] at hpg
    | some pg, some pg' =>
      rw [hp, hp'] at hpg
      exact congrArg some (printPaginator_inj (h.paginator pg hp) (h'.paginator pg' hp')
        (List.cons.inj hpg).2)
  cases sc
  cases sc'
  exact SelectContext.mk.injEq .. ▸ ⟨rfl, hfields, printBool_inj hjoin, hpaginator⟩

end Gohan.Cache
