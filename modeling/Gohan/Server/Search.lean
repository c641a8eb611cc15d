import Gohan.Logic.Like
import Gohan.Server.List

/-!
# Searching for a substring

A `search_field` of the query makes `NewSearchField` of the value it is searched for: the value
between two per cent signs, with every character escaped that means something to `LIKE`.  The
statement names the backslash as the escape character (`Like.ToSql`).

`escapeSpecialChars` replaces three times over, the backslash first.  The two later replacements
add backslashes that the first one must not see, and none of them adds a character that a later one
replaces, so together they are one pass over the value (`escapeSpecialChars_eq_replace`).  What
comes out is the escaped text of `Logic.Like`, and the pattern finds the values that contain what
was searched for.
-/

set_option autoImplicit false

namespace Gohan

/-- What `LIKE … ESCAPE '\'` gives a meaning to. -/
def likeWildcards : Like.Wildcards Char := ⟨'%', '_', '\\', by decide, by decide, by decide⟩

/-- `x LIKE text ESCAPE '\'`, where the characters are compared as they are. -/
def SqlLike (x text : String) : Prop := Like.Likes likeWildcards text.toList x.toList

/-- `strings.Replace(value, old, new, -1)`, where `old` is one character. -/
def stringsReplace (value : String) (old : Char) (new : String) : String :=
  String.ofList (Like.replace old new.toList value.toList)

theorem escapeSpecialChars_eq_escape (value : String) :
    escapeSpecialChars value = String.ofList (Like.escape likeWildcards value.toList) := by
  refine congrArg String.ofList (List.flatMap_congr fun c _ ↦ ?_)
  have hspecial : c ∈ ['\\', '_', '%'] ↔ Like.IsSpecial likeWildcards c := by
    show _ ↔ c = '%' ∨ c = '_' ∨ c = '\\'
    simp only [List.mem_cons, List.not_mem_nil, or_false]
    tauto
  by_cases hc : c ∈ ['\\', '_', '%']
  · rw [if_pos hc, if_pos (hspecial.mp hc)]
    rfl
  · rw [if_neg hc, if_neg fun h ↦ hc (hspecial.mpr h)]

/-- **The three replacements of the source**, one after another. -/
theorem escapeSpecialChars_eq_replace (value : String) :
    escapeSpecialChars value =
      stringsReplace (stringsReplace (stringsReplace value '\\' "\\\\") '_' "\\_") '%' "\\%" := by
  have hnodup : ['\\', '_', '%'].Nodup := by decide
  have h := Like.escapeAll_cons hnodup value.toList
  simp only [stringsReplace, String.toList_ofList]
  exact congrArg String.ofList h.symm

/-- The pattern matches the texts the value occurs in. -/
theorem sqlLike_pattern (v x : String) :
    SqlLike x ("%" ++ escapeSpecialChars v ++ "%") ↔ v.toList <:+: x.toList := by
  have htext : ("%" ++ escapeSpecialChars v ++ "%").toList =
      likeWildcards.any :: (Like.escape likeWildcards v.toList ++ [likeWildcards.any]) := by
    rw [escapeSpecialChars_eq_escape]
    simp [likeWildcards]
  show Like.Likes likeWildcards _ x.toList ↔ _
  rw [htext]
  exact Like.likes_surrounded_escape v.toList x.toList

/-- What `NewSearchField` searches for is the substring it is given, whatever per cent signs,
underscores and backslashes there are in it. -/
theorem newSearchField_substring (v : String) :
    ∃ text, newSearchField v = .search text ∧ ∀ x, SqlLike x text ↔ v.toList <:+: x.toList :=
  ⟨_, rfl, sqlLike_pattern v⟩

/-- **A search among the values of a column**, on a database that compares texts by `LIKE`: the rows
whose value contains what is searched for. -/
theorem selects_search {s : Schema} {E : SqlEngine} {column : String}
    (hlike : ∀ x text, E.like (.str x) text = .tt ↔ SqlLike x text)
    (hcolumn : s.hasPropertyID column = true) (hreserved : column ≠ orCondition ∧
      column ≠ andCondition ∧ column ≠ boolCondition) (v : String) :
    ∃ clause, addFilterToQuery s ((∅ : GoMap FilterVal).insert column (newSearchField v)) =
        .ok clause ∧
      ∀ (row : Dict) (x : String), row.get column = .str x →
        (Selects E clause row ↔ v.toList <:+: x.toList) := by
  obtain ⟨hor, hand, hbool⟩ := hreserved
  obtain ⟨property, hproperty, -⟩ := Schema.getPropertyByID_of_has hcolumn
  have hlookup : ((∅ : GoMap FilterVal).insert column (newSearchField v)).lookup boolCondition =
      none := by
    rw [AList.lookup_insert_ne hbool.symm, AList.lookup_empty]
  refine ⟨[.like column ("%" ++ escapeSpecialChars v ++ "%")], ?_, fun row x hx ↦ ?_⟩
  · show addKeys s _ [(column, newSearchField v)] = _
    have hkey : addKey s ((∅ : GoMap FilterVal).insert column (newSearchField v)) column
        (newSearchField v) = .ok (.like column ("%" ++ escapeSpecialChars v ++ "%")) := by
      rw [addKey, if_neg hor, if_neg hand, hlookup]
      simp only [hproperty]
      rfl
    rw [addKeys, hkey]
    rfl
  · rw [Selects, List.forall_mem_singleton, Sqlizer.eval, hx, hlike, sqlLike_pattern]

end Gohan
