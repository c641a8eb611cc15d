import Gohan.Db.Migrate
import Gohan.Logic.Joined

/-!
# The names of foreign keys and indexes

`genTableCols` names the foreign key of a property after the two tables and the two columns, and
the index of a property after the table and the column, with underscores between them.  The name
of a foreign key keeps the last 64 bytes, which is as long as MySQL lets it be.

Underscores occur in names of tables and properties too, so two names may be the same text taken
apart in two ways: a table is called like another one, an underscore and something, and the
something is where the property of the other one begins.  In one table the same may happen between
the property and the table it refers to.  And foreign keys with long names may differ only in what
is cut off.  `foreignKeyNames_nodup_iff` and `indexNames_nodup_iff` say that there is no other way
for two names to be the same.
-/

set_option autoImplicit false

namespace Gohan

namespace Migration

open Joined

/-! ## Texts with underscores -/

/-- `a'` is `a`, an underscore and something, and that is where `b` begins. -/
def Respelled (a b a' b' : String) : Prop := ∃ r, a' = a ++ "_" ++ r ∧ b = r ++ "_" ++ b'

theorem toList_join (a b : String) : (a ++ "_" ++ b).toList = a.toList ++ '_' :: b.toList := by
  simp

theorem respelled_iff {a b a' b' : String} :
    Respelled a b a' b' ↔ Resplit '_' a.toList b.toList a'.toList b'.toList := by
  constructor
  · rintro ⟨r, rfl, rfl⟩
    exact ⟨r.toList, toList_join a r, toList_join r b'⟩
  · rintro ⟨r, ha, hb⟩
    refine ⟨String.ofList r, String.toList_inj.mp ?_, String.toList_inj.mp ?_⟩
    · rw [toList_join, String.toList_ofList, ha]
    · rw [toList_join, String.toList_ofList, hb]

theorem join_eq_join_iff {a b a' b' : String} :
    a ++ "_" ++ b = a' ++ "_" ++ b' ↔
      (a = a' ∧ b = b') ∨ Respelled a b a' b' ∨ Respelled a' b' a b := by
  rw [← String.toList_inj, toList_join, toList_join, append_cons_eq_append_cons_iff,
    String.toList_inj, String.toList_inj, respelled_iff, respelled_iff]

theorem goBytes_inj {a b : String} : goBytes a = goBytes b ↔ a = b := by
  refine ⟨fun h ↦ ?_, congrArg goBytes⟩
  exact String.toByteArray_inj.mp (ByteArray.ext (Array.toList_inj.mp h))

/-! ## Names of foreign keys -/

/-- What the name of a foreign key is made of. -/
@[ext] structure KeyParts where
  fromTable : String
  fromProperty : String
  toTable : String
  toProperty : String

namespace KeyParts

/-- The column that is referred to. -/
def target (k : KeyParts) : String := k.toTable ++ "_" ++ k.toProperty

/-- What follows the table. -/
def rest (k : KeyParts) : String := k.fromProperty ++ "_" ++ k.target

/-- The name before it is cut. -/
def text (k : KeyParts) : String := k.fromTable ++ "_" ++ k.rest

/-- The name that is made of the parts. -/
def name (k : KeyParts) : List UInt8 :=
  foreignKeyName k.fromTable k.fromProperty k.toTable k.toProperty

/-- How the names of two foreign keys come to be the same. -/
inductive Collides (k k' : KeyParts) : Prop where
  | table (h : Respelled k.fromTable k.rest k'.fromTable k'.rest)
  | property (h : k.fromTable = k'.fromTable)
      (hproperty : Respelled k.fromProperty k.target k'.fromProperty k'.target)
  | cut (hne : k ≠ k') (h : EndAlike 64 (goBytes k.text) (goBytes k'.text))

variable {k k' : KeyParts}

theorem name_eq_rtake (k : KeyParts) : k.name = (goBytes k.text).rtake 64 := by
  have htext : k.fromTable ++ "_" ++ k.fromProperty ++ "_" ++ k.toTable ++ "_" ++ k.toProperty =
      k.text := by
    simp only [text, rest, target, String.append_assoc]
  rw [name, foreignKeyName, htext]
  rfl

theorem name_eq_name_iff : k.name = k'.name ↔ k.text = k'.text ∨
    EndAlike 64 (goBytes k.text) (goBytes k'.text) := by
  rw [name_eq_rtake, name_eq_rtake, rtake_eq_rtake_iff, goBytes_inj]

theorem text_eq_text_iff :
    k.text = k'.text ↔ (k.fromTable = k'.fromTable ∧ k.rest = k'.rest) ∨
      Respelled k.fromTable k.rest k'.fromTable k'.rest ∨
        Respelled k'.fromTable k'.rest k.fromTable k.rest := join_eq_join_iff

theorem rest_eq_rest_iff :
    k.rest = k'.rest ↔ (k.fromProperty = k'.fromProperty ∧ k.target = k'.target) ∨
      Respelled k.fromProperty k.target k'.fromProperty k'.target ∨
        Respelled k'.fromProperty k'.target k.fromProperty k.target := join_eq_join_iff

theorem Collides.name_eq (h : k.Collides k') : k.name = k'.name := by
  rw [name_eq_name_iff]
  cases h with
  | table h => exact .inl (text_eq_text_iff.mpr (.inr (.inl h)))
  | property h hproperty =>
    exact .inl (text_eq_text_iff.mpr (.inl ⟨h, rest_eq_rest_iff.mpr (.inr (.inl hproperty))⟩))
  | cut _ h => exact .inr h

/-- Foreign keys of different columns have one name only where they collide. -/
theorem collides_of_name_eq (hne : ¬(k.fromTable = k'.fromTable ∧ k.fromProperty = k'.fromProperty))
    (h : k.name = k'.name) : k.Collides k' ∨ k'.Collides k := by
  rcases name_eq_name_iff.mp h with htext | hend
  · rcases text_eq_text_iff.mp htext with ⟨htable, hrest⟩ | hsplit | hsplit
    · rcases rest_eq_rest_iff.mp hrest with ⟨hproperty, -⟩ | hsplit | hsplit
      · exact absurd ⟨htable, hproperty⟩ hne
      · exact .inl (.property htable hsplit)
      · exact .inr (.property htable.symm hsplit)
    · exact .inl (.table hsplit)
    · exact .inr (.table hsplit)
  · exact .inl (.cut (fun heq ↦ hne (heq ▸ ⟨rfl, rfl⟩)) hend)

/-- No foreign key collides with itself. -/
theorem not_collides_self (k : KeyParts) : ¬k.Collides k := by
  rintro (h | ⟨-, h⟩ | ⟨hne, -⟩)
  · exact absurd (respelled_iff.mp h).length_lt (lt_irrefl _)
  · exact absurd (respelled_iff.mp h).length_lt (lt_irrefl _)
  · exact hne rfl

/-- Among foreign keys of different columns, the names are distinct unless two collide. -/
theorem nodup_map_name_iff {keys : List KeyParts}
    (hkeys : (keys.map fun k ↦ (k.fromTable, k.fromProperty)).Nodup) :
    (keys.map name).Nodup ↔ ∀ k ∈ keys, ∀ k' ∈ keys, ¬k.Collides k' := by
  rw [List.nodup_map_iff_inj_on hkeys.of_map]
  constructor
  · intro h k hk k' hk' hcollides
    obtain rfl := h k hk k' hk' hcollides.name_eq
    exact not_collides_self k hcollides
  · intro h k hk k' hk' hname
    by_contra hne
    have hcolumns : ¬(k.fromTable = k'.fromTable ∧ k.fromProperty = k'.fromProperty) :=
      fun heq ↦ hne (List.inj_on_of_nodup_map hkeys hk hk' (Prod.ext heq.1 heq.2))
    rcases collides_of_name_eq hcolumns hname with hcollides | hcollides
    · exact h k hk k' hk' hcollides
    · exact h k' hk' k hk hcollides

end KeyParts

/-! ## What is generated -/

namespace TableSchema

/-- The foreign keys of a schema. -/
def foreignKeys (s : TableSchema) (db : TableServer) (cascade : Bool) : List ForeignKey :=
  s.properties.filterMap (s.foreignKey db cascade)

/-- The indexes of the indexed properties. -/
def propertyIndexes (s : TableSchema) (db : TableServer) : List Index :=
  s.properties.filterMap (s.propertyIndex db)

/-- What the name of one of its foreign keys is made of. -/
def keyParts (s : TableSchema) (db : TableServer) (key : ForeignKey) : KeyParts :=
  ⟨s.getDbTableName db, key.column, key.table, key.relationColumn⟩

variable {db : TableServer} {cascade : Bool} {s : TableSchema}

theorem genTableCols_eq_ok {cols : List Column} {relations : List ForeignKey}
    {indices : List Index} (h : s.genTableCols db cascade [] = .ok (cols, relations, indices)) :
    relations = s.foreignKeys db cascade ∧
      indices = s.propertyIndexes db ++ s.listedIndexes := by
  rw [genTableCols, included_nil] at h
  split at h
  · obtain ⟨-, rfl, rfl⟩ := Prod.mk.injEq .. ▸ Except.ok.inj h
    exact ⟨rfl, rfl⟩
  · cases h

theorem name_keyParts {key : ForeignKey} (h : key ∈ s.foreignKeys db cascade) :
    (s.keyParts db key).name = key.name := by
  obtain ⟨p, -, hp⟩ := List.mem_filterMap.mp h
  rw [foreignKey] at hp
  split at hp
  · cases hp
  · obtain ⟨foreignSchema, -, rfl⟩ := Option.map_eq_some_iff.mp hp
    rfl

/-- A property has one foreign key at most. -/
theorem columns_sublist (s : TableSchema) (db : TableServer) (cascade : Bool) :
    ((s.foreignKeys db cascade).map ForeignKey.column).Sublist (s.properties.map (·.id)) := by
  rw [foreignKeys]
  generalize s.properties = properties
  induction properties with
  | nil => exact .slnil
  | cons p properties ih =>
    cases hp : s.foreignKey db cascade p with
    | none =>
      rw [List.filterMap_cons_none hp]
      exact ih.cons _
    | some key =>
      rw [List.filterMap_cons_some hp, List.map_cons, List.map_cons, foreignKey_column hp]
      exact ih.cons_cons _

/-- The tables and columns of the indexes. -/
def indexed (s : TableSchema) (db : TableServer) : List (String × String) :=
  (s.properties.filter (·.indexed)).map fun p ↦ (s.getDbTableName db, p.id)

/-- The name of the index of a column. -/
def indexName (column : String × String) : String := column.1 ++ "_" ++ column.2 ++ "_idx"

theorem names_propertyIndexes (s : TableSchema) (db : TableServer) :
    (s.propertyIndexes db).map Index.name = (s.indexed db).map indexName := by
  rw [propertyIndexes, indexed]
  generalize s.properties = properties
  induction properties with
  | nil => rfl
  | cons p properties ih =>
    cases hp : p.indexed with
    | false =>
      have hnone : s.propertyIndex db p = none := by rw [propertyIndex, hp]; rfl
      rw [List.filterMap_cons_none hnone, ih, List.filter_cons_of_neg (by simp [hp])]
    | true =>
      have hsome : ∃ index, s.propertyIndex db p = some index ∧
          index.name = indexName (s.getDbTableName db, p.id) := by
        rw [propertyIndex, hp]
        exact ⟨_, rfl, rfl⟩
      obtain ⟨index, hindex, hname⟩ := hsome
      rw [List.filterMap_cons_some hindex, List.filter_cons, if_pos hp, List.map_cons,
        List.map_cons, List.map_cons, hname, ih]

theorem indexName_eq_indexName_iff {a b : String × String} :
    indexName a = indexName b ↔ a = b ∨ Respelled a.1 a.2 b.1 b.2 ∨ Respelled b.1 b.2 a.1 a.2 := by
  have happend {x y : String} : x ++ "_idx" = y ++ "_idx" ↔ x = y := by
    rw [← String.toList_inj, String.toList_append, String.toList_append,
      List.append_cancel_right_eq, String.toList_inj]
  rw [indexName, indexName, happend, join_eq_join_iff, Prod.ext_iff]

end TableSchema

/-! ## All schemas -/

section Names

variable {db : TableServer} {schemas : List TableSchema}
  (htables : (schemas.map (·.getDbTableName db)).Nodup)
  (hids : ∀ s ∈ schemas, (s.properties.map (·.id)).Nodup)

include htables hids

/-- Columns are told apart by their table and their name. -/
theorem nodup_columns {columns : TableSchema → List String}
    (hcolumns : ∀ s, (columns s).Sublist (s.properties.map (·.id))) :
    (schemas.flatMap fun s ↦ (columns s).map fun column ↦ (s.getDbTableName db, column)).Nodup := by
  rw [List.nodup_flatMap]
  refine ⟨fun s hs ↦ ?_, ?_⟩
  · exact ((hids s hs).sublist (hcolumns s)).map fun _ _ h ↦ (Prod.mk.inj h).2
  · refine (List.pairwise_map.mp htables).imp fun {s s'} hne ↦ ?_
    intro column h h'
    obtain ⟨_, -, rfl⟩ := List.mem_map.mp h
    obtain ⟨_, -, heq⟩ := List.mem_map.mp h'
    exact hne (Prod.mk.inj heq).1.symm

/-- The names of the foreign keys are distinct unless two collide. -/
theorem foreignKeyNames_nodup_iff (cascade : Bool) :
    (schemas.flatMap fun s ↦ (s.foreignKeys db cascade).map ForeignKey.name).Nodup ↔
      ∀ s ∈ schemas, ∀ s' ∈ schemas, ∀ key ∈ s.foreignKeys db cascade,
        ∀ key' ∈ s'.foreignKeys db cascade,
          ¬(s.keyParts db key).Collides (s'.keyParts db key') := by
  have hnames : (schemas.flatMap fun s ↦ (s.foreignKeys db cascade).map ForeignKey.name) =
      (schemas.flatMap fun s ↦ (s.foreignKeys db cascade).map (s.keyParts db)).map
        KeyParts.name := by
    rw [List.map_flatMap]
    refine List.flatMap_congr fun s _ ↦ ?_
    rw [List.map_map]
    exact List.map_congr_left fun key hkey ↦ (TableSchema.name_keyParts hkey).symm
  have hkeys : ((schemas.flatMap fun s ↦ (s.foreignKeys db cascade).map (s.keyParts db)).map
      fun k ↦ (k.fromTable, k.fromProperty)).Nodup := by
    have h := nodup_columns htables hids fun s ↦ s.columns_sublist db cascade
    rw [List.map_flatMap]
    simp only [List.map_map] at h ⊢
    exact h
  rw [hnames, KeyParts.nodup_map_name_iff hkeys]
  simp only [List.forall_mem_flatMap, List.forall_mem_map]
  exact ⟨fun h s hs s' hs' key hkey key' hkey' ↦ h s hs key hkey s' hs' key' hkey',
    fun h s hs key hkey s' hs' key' hkey' ↦ h s hs s' hs' key hkey key' hkey'⟩

/-- The names of the indexes are distinct unless one is the other, taken apart elsewhere. -/
theorem indexNames_nodup_iff :
    (schemas.flatMap fun s ↦ (s.propertyIndexes db).map Index.name).Nodup ↔
      ∀ s ∈ schemas, ∀ s' ∈ schemas, ∀ p ∈ s.properties, ∀ p' ∈ s'.properties,
        p.indexed = true → p'.indexed = true →
          ¬Respelled (s.getDbTableName db) p.id (s'.getDbTableName db) p'.id := by
  have hnames : (schemas.flatMap fun s ↦ (s.propertyIndexes db).map Index.name) =
      (schemas.flatMap fun s ↦ s.indexed db).map TableSchema.indexName := by
    rw [List.map_flatMap]
    exact List.flatMap_congr fun s _ ↦ s.names_propertyIndexes db
  have hcolumns : (schemas.flatMap fun s ↦ s.indexed db).Nodup := by
    have h := @nodup_columns db schemas htables hids
      (fun s ↦ (s.properties.filter (·.indexed)).map (·.id)) fun s ↦ List.filter_sublist.map _
    simp only [List.map_map] at h
    exact h
  have hself (a b : String) : ¬Respelled a b a b :=
    fun h ↦ absurd (respelled_iff.mp h).length_lt (lt_irrefl _)
  rw [hnames, List.nodup_map_iff_inj_on hcolumns]
  simp only [List.mem_flatMap, TableSchema.indexed, List.mem_map, List.mem_filter]
  constructor
  · rintro h s hs s' hs' p hp p' hp' hindexed hindexed' hsplit
    have heq := h _ ⟨s, hs, p, ⟨hp, hindexed⟩, rfl⟩ _ ⟨s', hs', p', ⟨hp', hindexed'⟩, rfl⟩
      (TableSchema.indexName_eq_indexName_iff.mpr (.inr (.inl hsplit)))
    rw [(Prod.mk.inj heq).1, (Prod.mk.inj heq).2] at hsplit
    exact hself _ _ hsplit
  · rintro h _ ⟨s, hs, p, ⟨hp, hindexed⟩, rfl⟩ _ ⟨s', hs', p', ⟨hp', hindexed'⟩, rfl⟩ hname
    rcases TableSchema.indexName_eq_indexName_iff.mp hname with heq | hsplit | hsplit
    · exact heq
    · exact absurd hsplit (h s hs s' hs' p hp p' hp' hindexed hindexed')
    · exact absurd hsplit (h s' hs' s hs p' hp' p hp hindexed' hindexed)

/-- **What `genTableCols` makes of a set of schemas has distinct names of foreign keys unless two of
them collide, and distinct names of indexes unless one is the other, taken apart elsewhere.** -/
theorem generatedNames_nodup_iff {cascade : Bool}
    {defs : TableSchema → List Column × List ForeignKey × List Index}
    (hgen : ∀ s ∈ schemas, s.genTableCols db cascade [] = .ok (defs s)) :
    ((schemas.flatMap fun s ↦ (defs s).2.1.map ForeignKey.name).Nodup ↔
      ∀ s ∈ schemas, ∀ s' ∈ schemas, ∀ key ∈ (defs s).2.1, ∀ key' ∈ (defs s').2.1,
        ¬(s.keyParts db key).Collides (s'.keyParts db key')) ∧
    (∀ s ∈ schemas, (defs s).2.2 = s.propertyIndexes db ++ s.listedIndexes) ∧
    ((schemas.flatMap fun s ↦ (s.propertyIndexes db).map Index.name).Nodup ↔
      ∀ s ∈ schemas, ∀ s' ∈ schemas, ∀ p ∈ s.properties, ∀ p' ∈ s'.properties,
        p.indexed = true → p'.indexed = true →
          ¬Respelled (s.getDbTableName db) p.id (s'.getDbTableName db) p'.id) := by
  have hkeys (s : TableSchema) (hs : s ∈ schemas) : (defs s).2.1 = s.foreignKeys db cascade :=
    (TableSchema.genTableCols_eq_ok (hgen s hs)).1
  refine ⟨?_, fun s hs ↦ (TableSchema.genTableCols_eq_ok (hgen s hs)).2,
    indexNames_nodup_iff htables hids⟩
  have hnames : (schemas.flatMap fun s ↦ (defs s).2.1.map ForeignKey.name) =
      schemas.flatMap fun s ↦ (s.foreignKeys db cascade).map ForeignKey.name :=
    List.flatMap_congr fun s hs ↦ by rw [hkeys s hs]
  rw [hnames, foreignKeyNames_nodup_iff htables hids cascade]
  refine forall₂_congr fun s hs ↦ forall₂_congr fun s' hs' ↦ ?_
  rw [hkeys s hs, hkeys s' hs']

end Names

/-! ## Rules of two tables -/

/-- A server that knows the schema of the rules. -/
def ruleServer (rules : String) : TableServer :=
  { TableSchema.emptyServer with
    schemas :=
      [{ id := "rule", singular := "rule", plural := rules, url := "/rules", properties := [] }] }

/-- A schema with an indexed property for a rule. -/
def withRule (table property : String) : TableSchema where
  schema :=
    { id := table, singular := table, plural := table, url := "/"
      properties := [{ id := "id" }, { id := property, relation := "rule", indexed := true }] }
  properties :=
    [{ id := "id" }, { id := property, relation := "rule", indexed := true }]
  own_eq := rfl

/-- What is generated for it. -/
def withRuleDef (db : TableServer) (s : TableSchema) :
    List Column × List ForeignKey × List Index :=
  (s.properties.map ColumnProperty.column, s.foreignKeys db false,
    s.propertyIndexes db ++ s.listedIndexes)

/-- Security rules and the rules of security groups: one text, taken apart in two ways. -/
def securityRules : List TableSchema :=
  [withRule "security" "group_rule_id", withRule "security_group" "rule_id"]

/-- Two tables that refer to a third one by a long name. -/
def environmentRules : List TableSchema :=
  [withRule "server" "production_environment_rule_id",
    withRule "router" "production_environment_rule_id"]

theorem genTableCols_withRule (rules table property : String) :
    (withRule table property).genTableCols (ruleServer rules) false [] =
      .ok (withRuleDef (ruleServer rules) (withRule table property)) := by
  rw [TableSchema.genTableCols_eq]
  · rw [TableSchema.included_nil]
    rfl
  · intro p hp
    simp only [withRule, List.mem_cons, List.not_mem_nil, or_false] at hp
    rcases hp with rfl | rfl <;> rfl

/-- The security rules have foreign keys and indexes of one name, the rules of an environment have
foreign keys of one name. -/
theorem not_generatedNames_nodup :
    (¬∀ (db : TableServer) (schemas : List TableSchema) (cascade : Bool)
      (defs : TableSchema → List Column × List ForeignKey × List Index),
      (schemas.map (·.getDbTableName db)).Nodup →
        (∀ s ∈ schemas, (s.properties.map (·.id)).Nodup) →
          (∀ s ∈ schemas, s.genTableCols db cascade [] = .ok (defs s)) →
            (schemas.flatMap fun s ↦ (defs s).2.1.map ForeignKey.name).Nodup) ∧
    (¬∀ (db : TableServer) (schemas : List TableSchema),
      (schemas.map (·.getDbTableName db)).Nodup →
        (∀ s ∈ schemas, (s.properties.map (·.id)).Nodup) →
          (schemas.flatMap fun s ↦ (s.propertyIndexes db).map Index.name).Nodup) ∧
    ¬(securityRules.flatMap fun s ↦
      (s.foreignKeys (ruleServer "rules") false).map ForeignKey.name).Nodup := by
  refine ⟨fun h ↦ ?_, fun h ↦ ?_, by decide +kernel⟩
  · have hgen : ∀ s ∈ environmentRules,
        s.genTableCols (ruleServer "production_environment_policy_rules") false [] =
          .ok (withRuleDef (ruleServer "production_environment_policy_rules") s) := by
      intro s hs
      simp only [environmentRules, List.mem_cons, List.not_mem_nil, or_false] at hs
      rcases hs with rfl | rfl
      · exact genTableCols_withRule _ _ _
      · exact genTableCols_withRule _ _ _
    have hnodup := h _ environmentRules false _ (by decide) (by decide) hgen
    revert hnodup
    decide +kernel
  · have hnodup := h (ruleServer "rules") securityRules (by decide) (by decide)
    revert hnodup
    decide +kernel

/-- Servers and routers, each with a rule. -/
def plainRules : List TableSchema := [withRule "server" "rule_id", withRule "router" "rule_id"]

/-- Tables whose names have nothing to do with each other: the names are distinct, so no two
foreign keys collide. -/
theorem not_collides_plainRules :
    (plainRules.flatMap fun s ↦
      (withRuleDef (ruleServer "rules") s).2.1.map ForeignKey.name).Nodup ∧
    ∀ s ∈ plainRules, ∀ s' ∈ plainRules, ∀ key ∈ (withRuleDef (ruleServer "rules") s).2.1,
      ∀ key' ∈ (withRuleDef (ruleServer "rules") s').2.1,
        ¬(s.keyParts (ruleServer "rules") key).Collides
          (s'.keyParts (ruleServer "rules") key') := by
  have hgen : ∀ s ∈ plainRules,
      s.genTableCols (ruleServer "rules") false [] = .ok (withRuleDef (ruleServer "rules") s) := by
    intro s hs
    simp only [plainRules, List.mem_cons, List.not_mem_nil, or_false] at hs
    rcases hs with rfl | rfl
    · exact genTableCols_withRule _ _ _
    · exact genTableCols_withRule _ _ _
  have hnodup : (plainRules.flatMap fun s ↦
      (withRuleDef (ruleServer "rules") s).2.1.map ForeignKey.name).Nodup := by decide +kernel
  exact ⟨hnodup, (generatedNames_nodup_iff (by decide) (by decide) hgen).1.mp hnodup⟩

end Migration

end Gohan
