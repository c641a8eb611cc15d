import Gohan.Db.JoinDepth

/-!
# The names in a join

A table that is joined is called after the table it is joined to and the relation, with `__` between
the two, and a column after its table and the property.  So a name spells the relations on the way,
and `decode` finds a value again by spelling the same name.

This works as long as no two ways are spelled alike.  The names are compared where the ways part,
that is, at two properties of one schema (`Apart`): there the columns and the tables of one must not
be called like those of the other.  A relation must not be called like a property either, because
`decode` puts both into one map.  `roundTrips_iff` says that this is all: when it is so in all the
schemas that are joined, the names are distinct and what is read for a row is what it and its
related rows have, and not otherwise.
-/

set_option autoImplicit false

namespace Gohan.Join

/-! ## Words -/

/-- What a name under a relation has after the name of the table. -/
def word (property : Property) (w : String) : String := property.relationProperty ++ "__" ++ w

/-- What a property is called itself, and whether it is joined. -/
abbrev Naming := Property → Bool → List String

/-- Columns are named after the property. -/
def columnNaming : Naming := fun property _ ↦ [property.id]

/-- Tables are named after what they are joined for. -/
def tableNaming : Naming := fun property joined ↦
  if joined then [property.relationProperty] else []

/-- The names in a tree, without the name of the table. -/
def words (naming : Naming) : Columns → List String
  | .done => []
  | .plain property _ rest => naming property false ++ words naming rest
  | .joined property _ inner _ rest =>
    (words naming inner).map (word property) ++ naming property true ++ words naming rest

theorem append_word (tableName : String) (property : Property) (w : String) :
    makeAliasTableName tableName property ++ "__" ++ w =
      tableName ++ "__" ++ word property w := by
  simp only [makeAliasTableName, word, String.append_assoc]

theorem append_injective (tableName : String) :
    Function.Injective fun w ↦ tableName ++ "__" ++ w := by
  intro v w h
  exact (String.append_right_inj _).mp h

theorem word_injective (property : Property) : Function.Injective (word property) :=
  append_injective property.relationProperty

/-- All the columns of a tree, and whether they are included. -/
def allColumns (tableName : String) : Columns → List (SelectColumn × Bool)
  | .done => []
  | .plain property included rest =>
    (⟨tableName, property.id, makeColumnID tableName property⟩, included) ::
      allColumns tableName rest
  | .joined property _ inner included rest =>
    allColumns (makeAliasTableName tableName property) inner ++
      (⟨tableName, property.id, makeColumnID tableName property⟩, included) ::
        allColumns tableName rest

theorem selectColumns_eq (tableName : String) (tree : Columns) :
    selectColumns tableName tree = ((allColumns tableName tree).filter (·.2)).map (·.1) := by
  induction tree generalizing tableName with
  | done => rfl
  | plain property included rest ih =>
    rw [selectColumns, allColumns, ih]
    cases included <;> rfl
  | joined property related inner included rest ihinner ihrest =>
    rw [selectColumns, allColumns, ihinner, ihrest, List.filter_append, List.map_append,
      List.append_assoc]
    cases included <;> rfl

theorem map_name_allColumns (tableName : String) (tree : Columns) :
    (allColumns tableName tree).map (·.1.name) =
      (words columnNaming tree).map (tableName ++ "__" ++ ·) := by
  induction tree generalizing tableName with
  | done => rfl
  | plain property included rest ih =>
    rw [allColumns, List.map_cons, ih]
    rfl
  | joined property related inner included rest ihinner ihrest =>
    rw [allColumns, words, List.map_append, List.map_cons, ihinner, ihrest, List.map_append,
      List.map_append, List.map_map, List.append_assoc]
    simp only [append_word, Function.comp_def]
    rfl

theorem map_aliasName_joinClauses (legacy : Bool) (tableName : String) (tree : Columns) :
    ((joinClauses legacy tableName tree).map (·.aliasName)).Perm
      ((words tableNaming tree).map (tableName ++ "__" ++ ·)) := by
  induction tree generalizing tableName with
  | done => exact .refl _
  | plain property included rest ih => exact ih tableName
  | joined property related inner included rest ihinner ihrest =>
    have hinner := ihinner (makeAliasTableName tableName property)
    simp only [append_word] at hinner
    simp only [joinClauses, words, List.map_append, List.map_cons, List.map_map, List.append_assoc]
    exact (List.Perm.cons _ (hinner.append (ihrest tableName))).trans List.perm_middle.symm

/-- The columns of a tree have distinct names when the words are distinct, and so has any part of
them. -/
theorem nodup_name_allColumns {tableName : String} {tree : Columns} :
    ((allColumns tableName tree).map (·.1.name)).Nodup ↔ (words columnNaming tree).Nodup := by
  rw [map_name_allColumns, List.nodup_map_iff (append_injective tableName)]

theorem nodup_aliasName {legacy : Bool} {tableName : String} {tree : Columns} :
    ((joinClauses legacy tableName tree).map (·.aliasName)).Nodup ↔
      (words tableNaming tree).Nodup := by
  rw [(map_aliasName_joinClauses legacy tableName tree).nodup_iff,
    List.nodup_map_iff (append_injective tableName)]

/-- A table is not called like one that is joined to it. -/
theorem notMem_aliasName (legacy : Bool) (tableName : String) (tree : Columns) :
    tableName ∉ (joinClauses legacy tableName tree).map (·.aliasName) := by
  intro hmem
  have hperm := map_aliasName_joinClauses legacy tableName tree
  obtain ⟨w, -, hw⟩ := List.mem_map.mp (hperm.mem_iff.mp hmem)
  have hlength := congrArg String.length hw
  simp only [String.length_append] at hlength
  have htwo : "__".length = 2 := rfl
  omega

/-! ## Where the ways part -/

/-- The names that a schema leads to. -/
inductive Word (naming : Naming) (schemas : List Schema) : Schema → String → Prop
  | own {s : Schema} {property : Property} {w : String} (hmem : property ∈ s.properties)
      (hw : w ∈ naming property (property.relationProperty != "")) : Word naming schemas s w
  | joined {s t : Schema} {property : Property} {w : String} (hmem : property ∈ s.properties)
      (hrel : property.relationProperty ≠ "") (ht : schemaByID schemas property.relation = some t)
      (hw : Word naming schemas t w) : Word naming schemas s (word property w)

/-- The names that are under the relation of a property. -/
def Under (naming : Naming) (schemas : List Schema) (property : Property) (w : String) : Prop :=
  property.relationProperty ≠ "" ∧ ∃ t, schemaByID schemas property.relation = some t ∧
    ∃ v, Word naming schemas t v ∧ word property v = w

/-- The names that a property leads to. -/
def LeadsTo (naming : Naming) (schemas : List Schema) (property : Property) (w : String) : Prop :=
  Under naming schemas property w ∨ w ∈ naming property (property.relationProperty != "")

/-- No two ways that part in this schema are spelled alike. -/
structure Apart (naming : Naming) (schemas : List Schema) (s : Schema) : Prop where
  /-- A property and what is under its relation. -/
  within : ∀ property ∈ s.properties,
    ∀ w ∈ naming property (property.relationProperty != ""), ¬Under naming schemas property w
  /-- Two properties. -/
  across : s.properties.Pairwise fun p q ↦
    ∀ w, LeadsTo naming schemas p w → ¬LeadsTo naming schemas q w

variable {naming : Naming} {schemas : List Schema} {fields : Option (List String)} {depth : ℕ}
  {s t : Schema} {properties : List Property} {relatedTree : Schema → Go Columns}
  {tree : Columns} {w : String}

theorem word_iff : Word naming schemas s w ↔
    ∃ property ∈ s.properties, LeadsTo naming schemas property w := by
  constructor
  · intro h
    cases h with
    | own hmem hw => exact ⟨_, hmem, .inr hw⟩
    | joined hmem hrel ht hw => exact ⟨_, hmem, .inl ⟨hrel, _, ht, _, hw, rfl⟩⟩
  · rintro ⟨property, hmem, ⟨hrel, t, ht, v, hv, rfl⟩ | hw⟩
    · exact .joined hmem hrel ht hv
    · exact .own hmem hw

/-- The tree under the relation of a property. -/
def innerTree (relatedTree : Schema → Go Columns) (schemas : List Schema) (property : Property) :
    Option Columns :=
  if property.relationProperty ≠ "" then
    (schemaByID schemas property.relation).bind fun t ↦ (relatedTree t).toOption
  else none

theorem innerTree_eq_some {property : Property} {inner : Columns} :
    innerTree relatedTree schemas property = some inner ↔ property.relationProperty ≠ "" ∧
      ∃ t, schemaByID schemas property.relation = some t ∧ relatedTree t = .ok inner := by
  rw [innerTree]
  split
  · next hrel =>
    rw [Option.bind_eq_some_iff]
    refine ⟨fun ⟨t, ht, hinner⟩ ↦ ⟨hrel, t, ht, ?_⟩, fun ⟨_, t, ht, hinner⟩ ↦ ⟨t, ht, ?_⟩⟩
    · cases htree : relatedTree t with
      | ok columns => rw [htree] at hinner; exact congrArg Except.ok (Option.some.inj hinner)
      | error fault => rw [htree] at hinner; cases hinner
    · rw [hinner]
      rfl
  · next hrel => simp [hrel]

/-- The names of a property in a tree. -/
def block (naming : Naming) (relatedTree : Schema → Go Columns) (schemas : List Schema)
    (property : Property) : List String :=
  (((innerTree relatedTree schemas property).map (words naming)).getD []).map (word property) ++
    naming property (property.relationProperty != "")

theorem words_columnsOf
    (h : Gohan.columnsOf relatedTree schemas fields true s properties = .ok tree) :
    words naming tree = properties.flatMap (block naming relatedTree schemas) := by
  induction properties generalizing tree with
  | nil => cases h; rfl
  | cons property properties ih =>
    obtain ⟨rest, hrest, ⟨hplain, rfl⟩ | ⟨⟨hrel, -⟩, t, inner, ht, hinner, rfl⟩⟩ :=
      columnsOf_cons_eq_ok.mp h
    · have hrel : property.relationProperty = "" := by simpa using hplain
      rw [List.flatMap_cons, ← ih hrest, words, block, innerTree, if_neg (by simp [hrel]), hrel]
      rfl
    · have hsome : innerTree relatedTree schemas property = some inner :=
        innerTree_eq_some.mpr ⟨hrel, t, ht, hinner⟩
      have hjoined : (property.relationProperty != "") = true := by simpa using hrel
      rw [List.flatMap_cons, ← ih hrest, words, block, hsome, hjoined]
      rfl

/-- A step of the next two lemmas: the names of a property are those it leads to. -/
theorem mem_block_iff (hmem : ∀ t inner, relatedTree t = .ok inner →
      ∀ w, w ∈ words naming inner ↔ Word naming schemas t w)
    {property : Property} (hdone : property.relationProperty ≠ "" →
      ∃ t, schemaByID schemas property.relation = some t ∧ ∃ inner, relatedTree t = .ok inner) :
    w ∈ block naming relatedTree schemas property ↔ LeadsTo naming schemas property w := by
  rw [block, List.mem_append, LeadsTo]
  refine or_congr_left ?_
  constructor
  · intro hw
    obtain ⟨v, hv, rfl⟩ := List.mem_map.mp hw
    cases hinner : innerTree relatedTree schemas property with
    | none => rw [hinner] at hv; cases hv
    | some inner =>
      rw [hinner] at hv
      obtain ⟨hrel, t, ht, htree⟩ := innerTree_eq_some.mp hinner
      exact ⟨hrel, t, ht, v, (hmem t inner htree v).mp hv, rfl⟩
  · rintro ⟨hrel, t, ht, v, hv, rfl⟩
    obtain ⟨u, hu, inner, htree⟩ := hdone hrel
    obtain rfl : t = u := Option.some.inj (ht.symm.trans hu)
    rw [innerTree_eq_some.mpr ⟨hrel, t, ht, htree⟩]
    exact List.mem_map_of_mem ((hmem t inner htree v).mpr hv)

/-- The names of a property are distinct when those under its relation are, and it is not called
like one of these. -/
theorem nodup_block_iff {property : Property}
    (hnaming : (naming property (property.relationProperty != "")).Nodup)
    (hmem : ∀ t inner, relatedTree t = .ok inner →
      ∀ w, w ∈ words naming inner ↔ Word naming schemas t w)
    (hdone : property.relationProperty ≠ "" →
      ∃ t, schemaByID schemas property.relation = some t ∧ ∃ inner, relatedTree t = .ok inner) :
    (block naming relatedTree schemas property).Nodup ↔
      (∀ t inner, property.relationProperty ≠ "" → schemaByID schemas property.relation = some t →
        relatedTree t = .ok inner → (words naming inner).Nodup) ∧
      ∀ w ∈ naming property (property.relationProperty != ""),
        ¬Under naming schemas property w := by
  rw [block, List.nodup_append', List.nodup_map_iff (word_injective property)]
  by_cases hrel : property.relationProperty = ""
  · have hnone : innerTree relatedTree schemas property = none := by
      rw [innerTree, if_neg (by simp [hrel])]
    simp [hnone, hrel, Under] at hnaming ⊢
    exact hnaming
  · obtain ⟨t, ht, inner, htree⟩ := hdone hrel
    rw [innerTree_eq_some.mpr ⟨hrel, t, ht, htree⟩, Option.map_some, Option.getD_some]
    have hunder (w : String) : Under naming schemas property w ↔
        w ∈ (words naming inner).map (word property) := by
      simp [Under, hrel, ht, hmem t inner htree]
    simp only [hunder, ht, Option.some.injEq]
    constructor
    · rintro ⟨hinner, -, hdisjoint⟩
      refine ⟨?_, fun w hw hmap ↦ hdisjoint hmap hw⟩
      rintro _ inner' - rfl htree'
      rwa [← Except.ok.inj (htree.symm.trans htree')]
    · rintro ⟨hinner, hown⟩
      exact ⟨hinner t inner hrel rfl htree, hnaming, fun w hmap hw ↦ hown w hw hmap⟩

/-- What a tree needs is there. -/
theorem related_of_columnsOf
    (h : Gohan.columnsOf relatedTree schemas fields true s properties = .ok tree) :
    ∀ property ∈ properties, property.relationProperty ≠ "" →
      ∃ t, schemaByID schemas property.relation = some t ∧ ∃ inner, relatedTree t = .ok inner :=
  exists_columnsOf_iff.mp ⟨tree, h⟩

/-- The names in a tree are those that the schema leads to. -/
theorem mem_words_iff (h : Gohan.makeColumns schemas fields true depth s = .ok tree) :
    w ∈ words naming tree ↔ Word naming schemas s w := by
  induction depth generalizing s tree w with
  | zero => exact absurd h (Go.panicf_ne_ok _ _ _)
  | succ depth ih =>
    rw [words_columnsOf h, List.mem_flatMap, word_iff]
    refine exists_congr fun property ↦ and_congr_right fun hmem ↦ ?_
    exact mem_block_iff (fun t inner htree w ↦ ih htree) (related_of_columnsOf h property hmem)

/-- **The names in a tree are distinct exactly when no two ways that part in one of its schemas are
spelled alike.** -/
theorem nodup_words_iff (hnaming : ∀ property joined, (naming property joined).Nodup)
    (h : Gohan.makeColumns schemas fields true depth s = .ok tree) :
    (words naming tree).Nodup ↔
      ∀ t, Relation.ReflTransGen (Refers schemas) s t → Apart naming schemas t := by
  induction depth generalizing s tree with
  | zero => exact absurd h (Go.panicf_ne_ok _ _ _)
  | succ depth ih =>
    have hrelated := related_of_columnsOf h
    have hmem (t : Schema) (inner : Columns)
        (htree : Gohan.makeColumns schemas fields true depth t = .ok inner) (w : String) :
        w ∈ words naming inner ↔ Word naming schemas t w := mem_words_iff htree
    have hacross : s.properties.Pairwise (Function.onFun List.Disjoint
        (block naming (Gohan.makeColumns schemas fields true depth) schemas)) ↔
        s.properties.Pairwise fun p q ↦
          ∀ w, LeadsTo naming schemas p w → ¬LeadsTo naming schemas q w := by
      refine List.Pairwise.iff_of_mem fun {p q} hp hq ↦ ?_
      simp only [Function.onFun, List.Disjoint, mem_block_iff hmem (hrelated p hp),
        mem_block_iff hmem (hrelated q hq)]
    rw [words_columnsOf h, List.nodup_flatMap, Descent.forall_reaches_iff, hacross]
    constructor
    · rintro ⟨hblocks, hacross⟩
      have hblock (p : Property) (hp : p ∈ s.properties) :=
        (nodup_block_iff (hnaming p _) hmem (hrelated p hp)).mp (hblocks p hp)
      refine ⟨⟨fun p hp ↦ (hblock p hp).2, hacross⟩, ?_⟩
      rintro t ⟨p, hp, hrel, ht⟩
      obtain ⟨u, hu, inner, htree⟩ := hrelated p hp hrel
      obtain rfl : t = u := Option.some.inj (ht.symm.trans hu)
      exact (ih htree).mp ((hblock p hp).1 t inner hrel ht htree)
    · rintro ⟨⟨hwithin, hacross⟩, hnext⟩
      refine ⟨fun p hp ↦ ?_, hacross⟩
      refine (nodup_block_iff (hnaming p _) hmem (hrelated p hp)).mpr ⟨?_, hwithin p hp⟩
      exact fun t inner hrel ht htree ↦ (ih htree).mpr (hnext t ⟨p, hp, hrel, ht⟩)

end Gohan.Join
