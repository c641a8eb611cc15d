import Gohan.Schema.Nested
import Gohan.Server.Attach
import Gohan.Server.Noninterference
import Gohan.Logic.Visit

/-!
# Attaching a resource, all references

`ValidateAttachmentsForResource` holds every reference that a resource makes against the attach
policies of the caller.  A policy for the relation property `*` is about all of them: for the name
of each property of the schema the data is traversed, one identifier of the name after the other,
and each piece of data that is found at the end is checked if the property is a relation.

The traversal keeps all pieces that are stored where it has come to (`traverse_of_reaches`), so
nothing that is stored at a relation escapes the check.
-/

set_option autoImplicit false

namespace Gohan

open NestedProperty

/-! ## Traversing the data -/

/-- Where a path has come to: the property, those below it, and what there is in the data. -/
structure DataTraversal where
  currentProperty : Option NestedProperty
  currentChildren : List NestedProperty
  dataSet : List Value

/-- `newDataTraversal`. -/
def newDataTraversal (properties : List NestedProperty) (data : Dict) : DataTraversal where
  currentProperty := none
  currentChildren := properties
  dataSet := [.map data.toList]

namespace DataTraversal

/-- The pieces under a key. -/
def piecesUnderKey (key : String) : List Value → Go (List Value)
  | [] => .ok []
  | .nil :: dataSet => piecesUnderKey key dataSet
  | .map m :: dataSet => do
    let newDataSet ← piecesUnderKey key dataSet
    match m.lookup key with
    | none | some .nil => .ok newDataSet
    | some dataPieceUnderKey => .ok (dataPieceUnderKey :: newDataSet)
  | dataPiece :: _ => .errorf
      "expected map[string]interface\x7b\x7d or nil while advancing by key \"%s\", got: %#v"
      [.str key, dataPiece]

/-- `advanceByKey`: a step to a property. -/
def advanceByKey (traversal : DataTraversal) (key : String) : Go DataTraversal :=
  match find traversal.currentChildren key with
  | none => .errorf "property of name \"%s\" not found" [.str key]
  | some child => do
    let dataSet ← piecesUnderKey key traversal.dataSet
    .ok { currentProperty := some child, currentChildren := child.properties, dataSet }

/-- The items of the pieces.  Those of an `[]interface{}` are appended twice; a slice of maps, which
`Value` has no constructor of its own for, is appended once. -/
def itemsOfPieces : List Value → Go (List Value)
  | [] => .ok []
  | .nil :: dataSet => itemsOfPieces dataSet
  | .list dataPieceArray :: dataSet => do
    let newDataSet ← itemsOfPieces dataSet
    .ok (dataPieceArray ++ dataPieceArray ++ newDataSet)
  | dataPiece :: _ => .errorf
      ("expected []interface\x7b\x7d, []map[string]interface\x7b\x7d or nil while " ++
        "advancing by item, got: %#v")
      [dataPiece]

/-- `advanceByItem`: a step to the items of an array. -/
def advanceByItem (traversal : DataTraversal) : Go DataTraversal :=
  match traversal.currentProperty.bind items with
  | none => .errorf "cannot access array: currently situated on non-array property"
  | some child => do
    let dataSet ← itemsOfPieces traversal.dataSet
    .ok { currentProperty := some child, currentChildren := child.properties, dataSet }

/-- One step of a path. -/
def advance (traversal : DataTraversal) (key : String) : Go DataTraversal :=
  if key = itemPropertyID then traversal.advanceByItem else traversal.advanceByKey key

/-- The loop over the identifiers of a name. -/
def traverse (traversal : DataTraversal) : List String → Go DataTraversal
  | [] => .ok traversal
  | key :: keys => do (← traversal.advance key).traverse keys

end DataTraversal

/-! ## The traversal misses nothing -/

namespace DataTraversal

theorem mem_piecesUnderKey {key : String} {dataSet newDataSet : List Value}
    (h : piecesUnderKey key dataSet = .ok newDataSet) {m : List (String × Value)} {value : Value}
    (hmem : .map m ∈ dataSet) (hlookup : m.lookup key = some value) (hne : value ≠ .nil) :
    value ∈ newDataSet := by
  induction dataSet generalizing newDataSet with
  | nil => cases hmem
  | cons dataPiece dataSet ih =>
    cases dataPiece with
    | nil =>
      rcases List.mem_cons.mp hmem with hmem | hmem
      · cases hmem
      · exact ih h hmem
    | map m' =>
      rw [piecesUnderKey, Go.bind_eq_ok] at h
      obtain ⟨rest, hrest, h⟩ := h
      rcases List.mem_cons.mp hmem with hmem | hmem
      · obtain rfl := Value.map.inj hmem
        rw [hlookup] at h
        cases value <;> first | exact absurd rfl hne | (cases h; exact List.mem_cons_self)
      · have hrest := ih hrest hmem
        split at h
        all_goals
          cases h
          first | exact hrest | exact List.mem_cons_of_mem _ hrest
    | _ => cases h

theorem mem_itemsOfPieces {dataSet newDataSet : List Value}
    (h : itemsOfPieces dataSet = .ok newDataSet) {vs : List Value} {value : Value}
    (hmem : .list vs ∈ dataSet) (hvalue : value ∈ vs) : value ∈ newDataSet := by
  induction dataSet generalizing newDataSet with
  | nil => cases hmem
  | cons dataPiece dataSet ih =>
    cases dataPiece with
    | nil =>
      rcases List.mem_cons.mp hmem with hmem | hmem
      · cases hmem
      · exact ih h hmem
    | list vs' =>
      rw [itemsOfPieces, Go.bind_eq_ok] at h
      obtain ⟨rest, hrest, h⟩ := h
      cases h
      rcases List.mem_cons.mp hmem with hmem | hmem
      · obtain rfl := Value.list.inj hmem
        exact List.mem_append_left _ (List.mem_append_left _ hvalue)
      · exact List.mem_append_right _ (ih hrest hmem)
    | _ => cases h

theorem traverse_append {traversal final : DataTraversal} {keys : List String} {key : String}
    (h : traversal.traverse (keys ++ [key]) = .ok final) :
    ∃ last, traversal.traverse keys = .ok last ∧ last.advance key = .ok final := by
  induction keys generalizing traversal with
  | nil =>
    obtain ⟨next, hnext, hfinal⟩ := Go.bind_eq_ok.mp h
    cases hfinal
    exact ⟨traversal, rfl, hnext⟩
  | cons first keys ih =>
    obtain ⟨next, hnext, hrest⟩ := Go.bind_eq_ok.mp h
    obtain ⟨last, hlast, hfinal⟩ := ih hrest
    refine ⟨last, ?_, hfinal⟩
    rw [traverse, hnext]
    exact hlast

theorem advanceByKey_eq_ok {traversal next : DataTraversal} {key : String}
    {property : NestedProperty} (hfind : find traversal.currentChildren key = some property)
    (h : traversal.advanceByKey key = .ok next) :
    next.currentProperty = some property ∧ next.currentChildren = property.properties ∧
      piecesUnderKey key traversal.dataSet = .ok next.dataSet := by
  rw [advanceByKey, hfind] at h
  obtain ⟨dataSet, hdataSet, h⟩ := Go.bind_eq_ok.mp h
  cases h
  exact ⟨rfl, rfl, hdataSet⟩

theorem advanceByItem_eq_ok {traversal next : DataTraversal} {outer property : NestedProperty}
    (hcurrent : traversal.currentProperty = some outer) (hitems : outer.items = some property)
    (h : traversal.advanceByItem = .ok next) :
    next.currentProperty = some property ∧ next.currentChildren = property.properties ∧
      itemsOfPieces traversal.dataSet = .ok next.dataSet := by
  rw [advanceByItem, hcurrent, Option.bind_some, hitems] at h
  obtain ⟨dataSet, hdataSet, h⟩ := Go.bind_eq_ok.mp h
  cases h
  exact ⟨rfl, rfl, hdataSet⟩

/-- **A traversal that comes to the end of a name has found the property and everything that is
stored at it.** -/
theorem traverse_of_reaches {properties : List NestedProperty} {data : Dict} {path : List String}
    {property : NestedProperty} {value : Value}
    (h : Reaches properties data path property value)
    (hnames : wellNamedAll properties = true) (hne : value ≠ .nil) {traversal : DataTraversal}
    (hok : (newDataTraversal properties data).traverse path = .ok traversal) :
    traversal.currentProperty = some property ∧
      traversal.currentChildren = property.properties ∧ value ∈ traversal.dataSet := by
  induction h generalizing traversal with
  | @top key property value hfind hlookup =>
    obtain ⟨next, hnext, hok⟩ := Go.bind_eq_ok.mp hok
    cases hok
    rw [advance, if_neg (find_ne_item hnames hfind)] at hnext
    obtain ⟨hcurrent, hchildren, hpieces⟩ := advanceByKey_eq_ok hfind hnext
    refine ⟨hcurrent, hchildren, mem_piecesUnderKey hpieces (List.mem_singleton_self _) ?_ hne⟩
    rw [GoMap.lookup_toList]
    exact hlookup
  | @key path outer m key property value hreaches hfind hlookup ih =>
    obtain ⟨last, hlast, hnext⟩ := traverse_append hok
    obtain ⟨-, hchildren, hmem⟩ := ih (by simp) hlast
    have hinner := wellNamed_properties (hreaches.wellNamed hnames)
    rw [advance, if_neg (find_ne_item hinner hfind)] at hnext
    rw [← hchildren] at hfind
    obtain ⟨hcurrent, hchildren, hpieces⟩ := advanceByKey_eq_ok hfind hnext
    exact ⟨hcurrent, hchildren, mem_piecesUnderKey hpieces hmem hlookup hne⟩
  | @item path outer vs property value hreaches hitems hvalue ih =>
    obtain ⟨last, hlast, hnext⟩ := traverse_append hok
    obtain ⟨hcurrent, -, hmem⟩ := ih (by simp) hlast
    rw [advance, if_pos rfl] at hnext
    obtain ⟨hcurrent, hchildren, hitems⟩ := advanceByItem_eq_ok hcurrent hitems hnext
    exact ⟨hcurrent, hchildren, mem_itemsOfPieces hitems hmem hvalue⟩

end DataTraversal

/-! ## All references -/

variable [RegexpEngine]

/-- The check of one piece of data; what is not a string has no identifier. -/
def validateAttachmentPiece (D : Deployment) (db : Database) (policy : Policy)
    (auth : Authorization) (currProp : Property) (tenancy : Option Tenancy) (data : Dict)
    (dataPiece : Value) : Go Unit :=
  let relatedResourceID := dataPiece.string?.getD ""
  validateAttachmentRelation D db policy auth currProp relatedResourceID tenancy data

/-- What is found under the path of a property is validated. -/
def validateAttachmentRelationUnderPath (D : Deployment) (db : Database) (policy : Policy)
    (auth : Authorization) (tenancy : Option Tenancy) (data : Dict)
    (resourceSchema : NestedSchema) (path : String) : Go Unit := do
  let traversal ← (newDataTraversal resourceSchema.properties data).traverse (splitDots path)
  match traversal.currentProperty with
  | none =>
    .errorf "Property under path %s not found in schema %s"
      [.str path, .str resourceSchema.schema.id]
  | some currProp =>
    if currProp.own.relation = "" then .ok ()
    else
      Go.forEach (validateAttachmentPiece D db policy auth currProp.own tenancy data)
        traversal.dataSet

/-- `validateAttachment`; `paths` are the names of all properties, in the order they are visited. -/
def validateAttachment (D : Deployment) (db : Database) (policy : Policy) (auth : Authorization)
    (resourceSchema : NestedSchema) (tenancy : Option Tenancy) (dataMap : Dict)
    (paths : List String) : Go Unit :=
  if policy.relationPropertyName = "*" then
    Go.forEach (validateAttachmentRelationUnderPath D db policy auth tenancy dataMap resourceSchema)
      paths
  else
    validateAttachmentRelationUnderPath D db policy auth tenancy dataMap resourceSchema
      policy.relationPropertyName

/-- What `ValidateAttachmentsForResource` reads of the context. -/
structure AttachContext where
  attachPolicies : Option (List Policy)
  auth : Option Authorization

/-- Each attach policy comes with the order in which the names are visited for it. -/
def validateAttachmentsForResource (D : Deployment) (db : Database) (context : AttachContext)
    (resourceSchema : NestedSchema) (tenancy : Option Tenancy) (resourceMap : Dict)
    (visits : List (List String)) : Go Unit :=
  match context.attachPolicies, context.auth with
  | some attachPolicies, some auth =>
    Go.forEach (fun e ↦
      validateAttachment D db e.1 auth resourceSchema tenancy resourceMap e.2)
      (attachPolicies.zip visits)
  | _, _ => .ok ()

/-! ## Every reference is checked -/

/-- The reference has been found through the target condition of the policy: the resource was
fetched within its scope and its blocks, is of the same tenant and domain, and is not rejected by
the property conditions for attaching. -/
structure Attached (D : Deployment) (db : Database) (policy : Policy) (auth : Authorization)
    (property : Property) (relatedResourceID : String) (tenancy : Option Tenancy) (data : Dict)
    (otherCond : ResourceCondition) (relatedSchema : Schema) (relatedRes : Dict) : Prop where
  condition : policy.otherResourceCondition = some otherCond
  schema : schemaByID D.schemas property.relation = some relatedSchema
  fetched : fetchRelated D db auth otherCond relatedSchema relatedResourceID tenancy =
    .ok relatedRes
  sameOwner : checkRelatedResource relatedRes data otherCond = true
  accepted : otherCond.applyPropertyConditionFilter actionAttach relatedRes none = .ok ()

theorem attached_of_eq_ok {D : Deployment} {db : Database} {policy : Policy}
    {auth : Authorization} {property : Property} {relatedResourceID : String}
    {tenancy : Option Tenancy} {data : Dict} (hallow : policy.isDeny = false)
    (hid : relatedResourceID ≠ "")
    (h : validateAttachmentRelation D db policy auth property relatedResourceID tenancy data =
      .ok ()) :
    ∃ otherCond relatedSchema relatedRes, Attached D db policy auth property relatedResourceID
      tenancy data otherCond relatedSchema relatedRes := by
  rw [validateAttachmentRelation, if_neg hid] at h
  split at h
  · next otherCond relatedSchema hcondition hschema =>
    rw [checkAttachment, hallow] at h
    split at h
    · cases h
    · cases h
    · next relatedRes hfetched =>
      split at h
      · cases h
      · next hsame =>
        split at h
        · cases h
        · cases h
        · next haccepted =>
          exact ⟨otherCond, relatedSchema, relatedRes, hcondition, hschema, hfetched,
            by simpa using hsame, haccepted⟩
  · cases h

/-- What is at the end of a name has been checked. -/
theorem attached_of_underPath {D : Deployment} {db : Database} {policy : Policy}
    {auth : Authorization} {resourceSchema : NestedSchema} {tenancy : Option Tenancy} {data : Dict}
    (hallow : policy.isDeny = false) (hnames : wellNamedAll resourceSchema.properties = true)
    {path : List String} {property : NestedProperty} {relatedResourceID : String}
    (hreaches : Reaches resourceSchema.properties data path property (.str relatedResourceID))
    (hrelation : property.own.relation ≠ "") (hid : relatedResourceID ≠ "")
    (h : validateAttachmentRelationUnderPath D db policy auth tenancy data resourceSchema
      (fullyQualified path) = .ok ()) :
    ∃ otherCond relatedSchema relatedRes, Attached D db policy auth property.own relatedResourceID
      tenancy data otherCond relatedSchema relatedRes := by
  rw [validateAttachmentRelationUnderPath,
    splitDots_fullyQualified hreaches.path_ne_nil (hreaches.no_dots hnames), Go.bind_eq_ok] at h
  obtain ⟨traversal, htraverse, h⟩ := h
  obtain ⟨hcurrent, -, hmem⟩ :=
    DataTraversal.traverse_of_reaches hreaches hnames (fun h ↦ by cases h) htraverse
  simp only [hcurrent, if_neg hrelation, Go.forEach_eq_ok] at h
  exact attached_of_eq_ok hallow hid (h _ hmem)

/-- **No reference escapes the check**: however deep it is stored, it has been found through the
target condition of every policy that allows and is about all relations. -/
theorem validateAttachmentsForResource_complete (D : Deployment) (db : Database)
    (attachPolicies : List Policy) (auth : Authorization) (resourceSchema : NestedSchema)
    (tenancy : Option Tenancy) (resourceMap : Dict) (visits : List (List String))
    (hnames : wellNamedAll resourceSchema.properties = true)
    (hvisits : Visit.Orders
      (attachPolicies.map fun _ ↦ resourceSchema.getAllPropertiesFullyQualified) visits)
    (hok : validateAttachmentsForResource D db ⟨some attachPolicies, some auth⟩ resourceSchema
      tenancy resourceMap visits = .ok ()) :
    ∀ policy ∈ attachPolicies, policy.relationPropertyName = "*" → policy.isDeny = false →
      ∀ path property relatedResourceID,
        Reaches resourceSchema.properties resourceMap path property (.str relatedResourceID) →
          property.own.relation ≠ "" → relatedResourceID ≠ "" →
            ∃ otherCond relatedSchema relatedRes, Attached D db policy auth property.own
              relatedResourceID tenancy resourceMap otherCond relatedSchema relatedRes := by
  intro policy hpolicy hall hallow path property relatedResourceID hreaches hrelation hid
  obtain ⟨paths, hzip, hperm⟩ := hvisits.exists_mem_zip hpolicy
  rw [validateAttachmentsForResource, Go.forEach_eq_ok] at hok
  have hpolicyOk := hok _ hzip
  rw [validateAttachment, if_pos hall, Go.forEach_eq_ok] at hpolicyOk
  have hname := hperm.mem_iff.mp (fullyQualified_mem hreaches hnames)
  exact attached_of_underPath hallow hnames hreaches hrelation hid (hpolicyOk _ hname)

/-- A volume has rows of hosts, each of which may name a server. -/
def hostedVolumeSchema : NestedSchema where
  schema :=
    { id := "volume", singular := "volume", plural := "volumes", url := "/v2.0/volumes",
      properties := [{ id := "id" }, { id := "hosts", type := "array" }] }
  properties := [.mk { id := "id" } [] none,
    .mk { id := "hosts", type := "array" } [] <| some <|
      .mk { id := itemPropertyID, type := "array" } [] <| some <|
        .mk { id := itemPropertyID, type := "object" }
          [.mk { id := "server_id", relation := "server" } [] none] none]
  own_eq := rfl

/-- A volume with a server in its second row. -/
def hostedVolume : Dict :=
  GoMap.ofList [("id", .str "v1"), ("hosts", .list [.list [], .list [.nil,
    .map [("server_id", .str "s1")]], .nil])]

/-- A policy that lets members attach to the servers that are up. -/
def attachToUp : Value := .map [("id", .str "attach"), ("principal", .str "Member"),
  ("action", .str actionAttach), ("effect", .str "allow"),
  ("resource", .map [("path", .str ".*")]), ("relation_property", .str "*"),
  ("target_condition", .list [.map [("type", .str "property"),
    ("match", .map [("state", .str "UP")])]])]

omit [RegexpEngine] in
theorem attached_hostedVolume : letI := Re2.engine
    ∃ policy, newPolicy attachToUp = .ok policy ∧ ∃ otherCond relatedSchema relatedRes,
      Attached (serverDeployment policy) twoServers policy member
        { id := "server_id", relation := "server" } "s1" none hostedVolume otherCond relatedSchema
        relatedRes := by
  let _ := Re2.engine
  have hpolicy : ∃ policy, newPolicy attachToUp = .ok policy ∧
      (policy.relationPropertyName = "*" ∧ policy.isDeny = false) ∧
        validateAttachmentsForResource (serverDeployment policy) twoServers
          ⟨some [policy], some member⟩ hostedVolumeSchema none hostedVolume
          [hostedVolumeSchema.getAllPropertiesFullyQualified] = .ok () :=
    Go.exists_of_map_decide (by decide +kernel)
  obtain ⟨policy, hnew, ⟨hall, hallow⟩, hok⟩ := hpolicy
  refine ⟨policy, hnew, validateAttachmentsForResource_complete (serverDeployment policy) twoServers
    [policy] member hostedVolumeSchema none hostedVolume _ (by decide +kernel)
    (Visit.Orders.refl _) hok policy (List.mem_singleton_self _) hall hallow
    ["hosts", "[]", "[]", "server_id"]
    (.mk { id := "server_id", relation := "server" } [] none) "s1" ?_ (by decide) (by decide)⟩
  have hrows : Reaches hostedVolumeSchema.properties hostedVolume ["hosts"] _ _ := .top rfl rfl
  have hrow := (hrows.item rfl (List.mem_cons_of_mem _ List.mem_cons_self)).item rfl
    (List.mem_cons_of_mem _ List.mem_cons_self)
  exact hrow.key rfl rfl

end Gohan
