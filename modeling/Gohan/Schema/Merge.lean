import Gohan.Logic.DeepMerge
import Gohan.Schema.Update

/-!
# The merge of an update is a deep merge

`CloneWithUpdate` copies the resource's own map and enters the update into the copy.  The maps
inside are not copied: the recursion writes into those of the resource, and takes those of the
update over as they are.  What comes out does not depend on that, so a value stands for a map here,
and two values are the same when they differ in the order of entries only, which is when they have
the same tree.

The recursion asserts that the source has a map wherever the update has one.  It need not have, if
there is nothing or null in the source; with any other value there the assertion is a panic.
Otherwise what comes out is the deep merge of the two trees (`tree_cloneWithUpdate`).
-/

set_option autoImplicit false

namespace Gohan

open DeepMerge

/-! ## Trees of values -/

mutual
/-- What a value is, save for the order of the entries of maps. -/
def Value.tree : Value → Tree String Value
  | .map m => .node (treeEntries m)
  | v => .leaf v

/-- The trees under the keys of a map. -/
def treeEntries : List (String × Value) → String → Tree String Value
  | [], _ => .absent
  | (k, v) :: m, key => if key == k then v.tree else treeEntries m key
end

mutual
/-- The keys of a map are distinct, and so on inside it. -/
def Value.DistinctKeys : Value → Prop
  | .map m => (m.map Prod.fst).Nodup ∧ DistinctEntries m
  | _ => True

/-- The keys of the maps in some entries are distinct. -/
def DistinctEntries : List (String × Value) → Prop
  | [] => True
  | (_, v) :: m => v.DistinctKeys ∧ DistinctEntries m
end

/-- The tree of a resource's data. -/
def Dict.tree (data : Dict) : Tree String Value := .node (treeEntries data.toList)

/-- The keys inside are distinct; those of the map itself are. -/
def Dict.DistinctKeys (data : Dict) : Prop := DistinctEntries data.toList

theorem treeEntries_eq (m : List (String × Value)) (key : String) :
    treeEntries m key = ((m.lookup key).map Value.tree).getD .absent := by
  induction m with
  | nil => rfl
  | cons e m ih =>
    obtain ⟨k, v⟩ := e
    rw [treeEntries, List.lookup_cons, ih]
    cases key == k <;> rfl

theorem tree_eq_leaf {v : Value} (h : v.map? = none) : v.tree = .leaf v := by
  cases v <;> first | rfl | cases h

/-- A value is not entered into null. -/
theorem merge_tree_leaf (v a : Value) : merge v.tree (.leaf a) = v.tree := by
  cases v <;> rfl

theorem treeEntries_setKey (key : String) (value : Value) (m : List (String × Value))
    (k : String) :
    treeEntries (setKey key value m) k = if k = key then value.tree else treeEntries m k := by
  rw [treeEntries_eq, lookup_setKey, treeEntries_eq]
  split <;> rfl

theorem treeEntries_insert (key : String) (value : Value) (data : Dict) (k : String) :
    treeEntries (GoMap.toList (data.insert key value)) k =
      if k = key then value.tree else treeEntries data.toList k := by
  rw [treeEntries_eq, treeEntries_eq, GoMap.lookup_toList, GoMap.lookup_toList]
  split
  · next h => rw [h, AList.lookup_insert]; rfl
  · next h => rw [AList.lookup_insert_ne h]

theorem treeEntries_of_notMem {m : List (String × Value)} {key : String}
    (h : key ∉ m.map Prod.fst) : treeEntries m key = .absent := by
  have hnone : m.lookup key = none := by
    rw [List.lookup_eq_none_iff]
    rintro ⟨k, v⟩ he
    exact bne_iff_ne.mpr fun heq ↦ h (heq ▸ List.mem_map_of_mem he)
  rw [treeEntries_eq, hnone]
  rfl

/-! ## The recursion -/

/-- What is merged for one key: nothing in the source is null. -/
theorem merge_getD_nil (v : Value) (s : Option Value) :
    merge v.tree (s.getD .nil).tree = merge v.tree ((s.map Value.tree).getD .absent) := by
  cases s with
  | none => exact (merge_tree_leaf v .nil).trans (merge_absent_right v.tree).symm
  | some s => rfl

theorem fits_getD_nil {v : Value} {s : Option Value}
    (h : Fits .nil v.tree ((s.map Value.tree).getD .absent)) :
    Fits .nil v.tree (s.getD .nil).tree := by
  cases s with
  | none =>
    show Fits Value.nil v.tree (.leaf .nil)
    cases v.tree with
    | node f => rfl
    | _ => trivial
  | some s => exact h

/-- What is no map is taken as it is. -/
theorem tree_updateResourceRecursion_of_leaf {u : Value} (h : u.map? = none) (s : Value) :
    ∃ w, updateResourceRecursion u s = .ok w ∧ w.tree = merge u.tree s.tree := by
  refine ⟨u, ?_, ?_⟩
  · cases u <;> first | (cases s <;> rfl) | cases h
  · rw [tree_eq_leaf h, merge_leaf]

mutual
/-- **The recursion is a deep merge.** -/
theorem tree_updateResourceRecursion : ∀ {u s : Value}, u.DistinctKeys →
    Fits .nil u.tree s.tree →
      ∃ w, updateResourceRecursion u s = .ok w ∧ w.tree = merge u.tree s.tree
  | .map m, s, hkeys, hfits => by
    rw [Value.DistinctKeys] at hkeys
    rw [Value.tree] at hfits
    cases s with
    | map n =>
      rw [Value.tree] at hfits
      obtain ⟨merged, hmerged, htree⟩ := tree_updateEntries hkeys.1 hkeys.2 hfits
      refine ⟨.map merged, ?_, ?_⟩
      · rw [updateResourceRecursion, hmerged]
        rfl
      · rw [Value.tree, Value.tree, Value.tree, merge_node_node, funext htree]
    | nil => exact ⟨.map m, by rw [updateResourceRecursion], rfl⟩
    | _ => cases (show _ = Value.nil from hfits)
  | .nil, s, _, _ => tree_updateResourceRecursion_of_leaf rfl s
  | .bool _, s, _, _ => tree_updateResourceRecursion_of_leaf rfl s
  | .int _, s, _, _ => tree_updateResourceRecursion_of_leaf rfl s
  | .float _, s, _, _ => tree_updateResourceRecursion_of_leaf rfl s
  | .str _, s, _, _ => tree_updateResourceRecursion_of_leaf rfl s
  | .strs _, s, _, _ => tree_updateResourceRecursion_of_leaf rfl s
  | .list _, s, _, _ => tree_updateResourceRecursion_of_leaf rfl s

/-- The loop over an object is a deep merge under each key. -/
theorem tree_updateEntries : ∀ {m n : List (String × Value)}, (m.map Prod.fst).Nodup →
    DistinctEntries m → (∀ key, Fits .nil (treeEntries m key) (treeEntries n key)) →
      ∃ merged, updateEntries m n = .ok merged ∧
        ∀ key, treeEntries merged key = merge (treeEntries m key) (treeEntries n key)
  | [], n, _, _, _ => ⟨n, rfl, fun _ ↦ (merge_absent_left _).symm⟩
  | (k, v) :: m, n, hnodup, hkeys, hfits => by
    rw [DistinctEntries] at hkeys
    obtain ⟨hk, hnodup⟩ := List.nodup_cons.mp hnodup
    have hself : treeEntries ((k, v) :: m) k = v.tree := by simp [treeEntries]
    have hother (key : String) (hne : key ≠ k) :
        treeEntries ((k, v) :: m) key = treeEntries m key := by
      simp [treeEntries, hne]
    have hv := hfits k
    rw [hself, treeEntries_eq] at hv
    obtain ⟨value, hvalue, hvalueTree⟩ := tree_updateResourceRecursion hkeys.1 (fits_getD_nil hv)
    have hrest : ∀ key, Fits .nil (treeEntries m key) (treeEntries (setKey k value n) key) := by
      intro key
      rw [treeEntries_setKey]
      by_cases hkey : key = k
      · rw [hkey, treeEntries_of_notMem hk]
        cases value.tree <;> trivial
      · rw [if_neg hkey, ← hother key hkey]
        exact hfits key
    obtain ⟨merged, hmerged, htree⟩ := tree_updateEntries hnodup hkeys.2 hrest
    refine ⟨merged, ?_, fun key ↦ ?_⟩
    · rw [updateEntries, hvalue]
      exact hmerged
    · rw [htree, treeEntries_setKey]
      by_cases hkey : key = k
      · rw [hkey, if_pos rfl, hself, treeEntries_of_notMem hk, merge_absent_left, hvalueTree,
          merge_getD_nil, treeEntries_eq n k]
      · rw [if_neg hkey, hother key hkey]
end

/-- The loop over the request. -/
theorem tree_updateData {m : List (String × Value)} {data : Dict} (hnodup : (m.map Prod.fst).Nodup)
    (hkeys : DistinctEntries m)
    (hfits : ∀ key, Fits .nil (treeEntries m key) (treeEntries data.toList key)) :
    ∃ merged, updateData m data = .ok merged ∧ ∀ key,
      treeEntries merged.toList key = merge (treeEntries m key) (treeEntries data.toList key) := by
  induction m generalizing data with
  | nil => exact ⟨data, rfl, fun _ ↦ (merge_absent_left _).symm⟩
  | cons e m ih =>
    obtain ⟨k, v⟩ := e
    rw [DistinctEntries] at hkeys
    obtain ⟨hk, hnodup⟩ := List.nodup_cons.mp hnodup
    have hself : treeEntries ((k, v) :: m) k = v.tree := by simp [treeEntries]
    have hother (key : String) (hne : key ≠ k) :
        treeEntries ((k, v) :: m) key = treeEntries m key := by
      simp [treeEntries, hne]
    have hdata : treeEntries data.toList k =
        ((data.lookup k).map Value.tree).getD .absent := by
      rw [treeEntries_eq, GoMap.lookup_toList]
    have hv := hfits k
    rw [hself, hdata] at hv
    obtain ⟨value, hvalue, hvalueTree⟩ :=
      tree_updateResourceRecursion hkeys.1 (fits_getD_nil hv)
    have hrest (key : String) :
        Fits .nil (treeEntries m key) (treeEntries (GoMap.toList (data.insert k value)) key) := by
      rw [treeEntries_insert]
      by_cases hkey : key = k
      · rw [hkey, treeEntries_of_notMem hk]
        cases value.tree <;> trivial
      · rw [if_neg hkey, ← hother key hkey]
        exact hfits key
    obtain ⟨merged, hmerged, htree⟩ := ih hnodup hkeys.2 hrest
    refine ⟨merged, ?_, fun key ↦ ?_⟩
    · rw [updateData, GoMap.get, hvalue]
      exact hmerged
    · rw [htree, treeEntries_insert]
      by_cases hkey : key = k
      · rw [hkey, if_pos rfl, hself, treeEntries_of_notMem hk, merge_absent_left, hvalueTree,
          merge_getD_nil, hdata]
      · rw [if_neg hkey, hother key hkey]

theorem tree_cloneWithUpdate {resource update : Dict} (hkeys : update.DistinctKeys)
    (hfits : Fits .nil update.tree resource.tree) :
    ∃ merged, cloneWithUpdate resource update = .ok merged ∧
      merged.tree = merge update.tree resource.tree := by
  have hnodup : (update.toList.map Prod.fst).Nodup := by
    rw [GoMap.map_fst_toList]
    exact update.keys_nodup
  obtain ⟨merged, hmerged, htree⟩ := tree_updateData hnodup hkeys hfits
  exact ⟨merged, hmerged, congrArg DeepMerge.Tree.node (funext htree)⟩

/-! ## The laws -/

/-- Where the update has a map, the resource has no other value than null. -/
def NoClash (update resource : Dict) : Prop :=
  ∀ path v, (update.tree.lookup path).IsNode → resource.tree.lookup path = .leaf v → v = .nil

/-- At no path both updates have a value, save for the maps they share. -/
def OverDisjointPaths (u₁ u₂ : Dict) : Prop :=
  ∀ path, u₁.tree.lookup path = .absent ∨ u₂.tree.lookup path = .absent ∨
    (u₁.tree.lookup path).IsNode ∧ (u₂.tree.lookup path).IsNode

/-- **`CloneWithUpdate` is a deep merge and idempotent, and updates over disjoint paths
commute.** -/
theorem cloneWithUpdate_laws (resource : Dict) :
    (∀ update : Dict, update.DistinctKeys → NoClash update resource →
      ∃ merged, cloneWithUpdate resource update = .ok merged ∧
        IsMerge update.tree resource.tree merged.tree ∧
        ∃ again, cloneWithUpdate merged update = .ok again ∧ again.tree = merged.tree) ∧
    (∀ u₁ u₂ : Dict, u₁.DistinctKeys → u₂.DistinctKeys → NoClash u₁ resource →
      NoClash u₂ resource → OverDisjointPaths u₁ u₂ →
        ∃ first then₂ second then₁, cloneWithUpdate resource u₁ = .ok first ∧
          cloneWithUpdate first u₂ = .ok then₂ ∧ cloneWithUpdate resource u₂ = .ok second ∧
            cloneWithUpdate second u₁ = .ok then₁ ∧ then₂.tree = then₁.tree) := by
  constructor
  · intro update hkeys hclash
    obtain ⟨merged, hmerged, htree⟩ := tree_cloneWithUpdate hkeys (fits_iff.mpr hclash)
    obtain ⟨again, hagain, hagainTree⟩ :=
      @tree_cloneWithUpdate merged update hkeys (htree ▸ fits_merge_self _ _)
    refine ⟨merged, hmerged, htree ▸ isMerge_merge _ _, again, hagain, ?_⟩
    rw [hagainTree, htree, merge_merge_self]
  · intro u₁ u₂ hkeys₁ hkeys₂ hclash₁ hclash₂ hpaths
    have hapart : Apart u₁.tree u₂.tree := apart_iff.mpr hpaths
    obtain ⟨first, hfirst, htree₁⟩ := tree_cloneWithUpdate hkeys₁ (fits_iff.mpr hclash₁)
    obtain ⟨second, hsecond, htree₂⟩ := tree_cloneWithUpdate hkeys₂ (fits_iff.mpr hclash₂)
    obtain ⟨then₂, hthen₂, htree₁₂⟩ := @tree_cloneWithUpdate first u₂ hkeys₂
      (htree₁ ▸ Fits.merge hapart (fits_iff.mpr hclash₂))
    obtain ⟨then₁, hthen₁, htree₂₁⟩ := @tree_cloneWithUpdate second u₁ hkeys₁
      (htree₂ ▸ Fits.merge hapart.symm (fits_iff.mpr hclash₁))
    refine ⟨first, then₂, second, then₁, hfirst, hthen₂, hsecond, hthen₁, ?_⟩
    rw [htree₁₂, htree₂₁, htree₁, htree₂, merge_left_comm hapart]

/-! ## A server with a network -/

/-- A server with a network. -/
def networkedServer : Dict :=
  GoMap.ofList [("id", .str "s1"), ("net", .map [("mtu", .int 1500), ("dns", .nil)])]

/-- An object where the server has null. -/
def dnsUpdate : Dict := GoMap.ofList [("net", .map [("dns", .map [("ip", .str "10.0.0.1")])])]

/-- An update of one value in the network, and of the name. -/
def mtuUpdate : Dict := GoMap.ofList [("net", .map [("mtu", .int 9000)]), ("name", .str "web")]

theorem noClash_dnsUpdate : NoClash dnsUpdate networkedServer := by
  refine fits_iff.mp fun key ↦ ?_
  show Fits Value.nil (treeEntries [("net", .map [("dns", .map [("ip", .str "10.0.0.1")])])] key)
    (treeEntries [("net", .map [("mtu", .int 1500), ("dns", .nil)]), ("id", .str "s1")] key)
  by_cases hnet : key = "net"
  · subst hnet
    intro key
    by_cases hdns : key = "dns"
    · subst hdns
      rfl
    · simp [treeEntries, hdns, Fits]
  · simp [treeEntries, hnet, Fits]

theorem noClash_mtuUpdate : NoClash mtuUpdate networkedServer := by
  refine fits_iff.mp fun key ↦ ?_
  show Fits Value.nil (treeEntries [("name", .str "web"), ("net", .map [("mtu", .int 9000)])] key)
    (treeEntries [("net", .map [("mtu", .int 1500), ("dns", .nil)]), ("id", .str "s1")] key)
  by_cases hnet : key = "net"
  · subst hnet
    intro key
    by_cases hmtu : key = "mtu"
    · subst hmtu
      trivial
    · simp [treeEntries, hmtu, Fits]
  · by_cases hname : key = "name"
    · subst hname
      trivial
    · simp [treeEntries, hnet, hname, Fits]

theorem overDisjointPaths_dnsUpdate : OverDisjointPaths dnsUpdate mtuUpdate := by
  refine apart_iff.mp fun key ↦ ?_
  show Apart (treeEntries [("net", .map [("dns", .map [("ip", .str "10.0.0.1")])])] key)
    (treeEntries [("name", .str "web"), ("net", .map [("mtu", .int 9000)])] key)
  by_cases hnet : key = "net"
  · subst hnet
    intro key
    by_cases hmtu : key = "mtu"
    · subst hmtu
      trivial
    · simp [treeEntries, hmtu]
  · simp [treeEntries, hnet, Apart]

/-- Both updates are entered, in either order. -/
theorem cloneWithUpdate_networkedServer :
    (∃ merged, cloneWithUpdate networkedServer dnsUpdate = .ok merged ∧
      IsMerge dnsUpdate.tree networkedServer.tree merged.tree ∧
      ∃ again, cloneWithUpdate merged dnsUpdate = .ok again ∧ again.tree = merged.tree) ∧
    ∃ first then₂ second then₁, cloneWithUpdate networkedServer dnsUpdate = .ok first ∧
      cloneWithUpdate first mtuUpdate = .ok then₂ ∧
        cloneWithUpdate networkedServer mtuUpdate = .ok second ∧
          cloneWithUpdate second dnsUpdate = .ok then₁ ∧ then₂.tree = then₁.tree := by
  have hkeys₁ : dnsUpdate.DistinctKeys := by
    show DistinctEntries [("net", .map [("dns", .map [("ip", .str "10.0.0.1")])])]
    simp [DistinctEntries, Value.DistinctKeys]
  have hkeys₂ : mtuUpdate.DistinctKeys := by
    show DistinctEntries [("name", .str "web"), ("net", .map [("mtu", .int 9000)])]
    simp [DistinctEntries, Value.DistinctKeys]
  obtain ⟨honce, hcommute⟩ := cloneWithUpdate_laws networkedServer
  exact ⟨honce dnsUpdate hkeys₁ noClash_dnsUpdate, hcommute dnsUpdate mtuUpdate hkeys₁ hkeys₂
    noClash_dnsUpdate noClash_mtuUpdate overDisjointPaths_dnsUpdate⟩

end Gohan
