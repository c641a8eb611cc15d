import Gohan.Db.Cache
import Gohan.Db.Update
import Gohan.Schema.Update
import Gohan.Server.Delete
import Gohan.Server.FilterAgreement
import Gohan.Sync.Event

/-!
# Several updates of one resource

`UpdateResource` works in one transaction.  It looks whether the resource exists for the policy,
which is a plain read and may be out of date by the time it matters; it reads the row once more and
locks it, merges the request into what it has read, writes the result back and commits.  The
transaction may keep what it has read and return it again, but a locking read is not answered from
what a plain read has returned.

Any number of clients do this at once with one resource, step by step and in any order; a
transaction may be rolled back at any point and tried again.  `Serial` is what should come of it:
the requests whose transactions have been committed are merged one after another, in the order in
which their locks were granted, each into the row the one before has left.

It does come of it (`noLostUpdate_of_ordinary`), but for one thing.  The row that is written is
found by the identifier of the merged data, and not by that of the row that has been locked.  A
request that sets the identifier writes to another row, or to none.
-/

set_option autoImplicit false

namespace Gohan.UpdateRace

open Sync

variable [RegexpEngine]

/-! ## A call -/

/-- Where the resource is. -/
structure Site where
  D : Deployment
  s : Schema
  resourceID : String
  hash : GoMap FilterVal → ℕ
  /-- The isolation level is one of those that have the transaction keep what it reads. -/
  isCached : Bool

/-- A call of `UpdateResource`: who calls, what is requested, and what else may refuse.  In the
policy, the matches of the property conditions are in the order they are visited in. -/
structure Call where
  auth : Authorization
  policy : Policy
  dataMap : Dict
  validate : Dict → Go Unit
  attachments : Database → Dict → Dict → Go Unit
  preUpdateInTransaction : Dict → Go Unit
  execute : Database → Go Unit
  postUpdateInTransaction : Dict → Go Unit

namespace Site

variable [TextEngine] (x : Site)

/-- The SQL transaction, of which an update is the only write here. -/
def tx : Cache.TxInterface Database :=
  Cache.transaction x.D.toDB fun db w ↦
    match w with
    | .update s data =>
      match x.D.update db s data (Resource.ID ⟨s, data⟩) with
      | .ok db' => (db', .ok [])
      | .error fault => (db, .error fault)
    | _ => (db, .ok [])

/-- `List`, of the transaction itself or the one that keeps what it reads. -/
def list (st : Cache.State Database) (filter : GoMap FilterVal) :
    Go (List Cache.Resource × ℕ) × Cache.State Database :=
  if x.isCached then st.list x.hash x.tx x.s filter none none
  else (x.tx.list st.data x.s filter none none, st)

/-- `LockList`. -/
def lockList (st : Cache.State Database) (filter : GoMap FilterVal) (lockPolicy : LockPolicy) :
    Go (List Cache.Resource × ℕ) × Cache.State Database :=
  if x.isCached then st.lockList x.hash x.tx x.s filter none none lockPolicy
  else (x.tx.lockList st.data x.s filter none none lockPolicy, st)

/-- `Update`. -/
def update (st : Cache.State Database) (data : Dict) : Go (Cache.State Database) := do
  let (db, result) := x.tx.write st.data (.update x.s data)
  let _ ← result
  .ok (if x.isCached then { st.clearCache with data := db } else { st with data := db })

/-- The filter that the row is read with: the identifier, and the tenants and domains that the
policy has for reading. -/
def updateFilter (c : Call) : GoMap FilterVal :=
  extendFilterByTenantAndDomain x.s
    ((∅ : GoMap FilterVal).insert "id" (.value (.str x.resourceID))) actionRead
    c.policy.currentResourceCondition c.auth

/-- `checkIfResourceExistsForPolicy`, in a new transaction. -/
def checkIfResourceExists (c : Call) (db : Database) : Go (Cache.State Database) := do
  let filter ← getFilterFromPolicy c.auth x.resourceID x.s c.policy actionUpdate
  let (result, st) := x.list (.make db) filter
  let _ ← Cache.fetchContextHelper result
  .ok st

/-- Read the row, as the locking policy of the schema has it. -/
def fetchForUpdate (c : Call) (st : Cache.State Database) : Go (Dict × Cache.State Database) := do
  let filter := x.updateFilter c
  let lockPolicy ← x.s.getLockingPolicy "update"
  match lockPolicy with
  | .noLocking =>
    let (result, st) := x.list st filter
    let resource ← Cache.fetchContextHelper result
    .ok (resource.data, st)
  | lockPolicy =>
    let (result, st) := x.lockList st filter lockPolicy
    let resource ← Cache.lockFetchContextHelper result
    .ok (resource.data, st)

/-- Check the request and the resource, and merge them. -/
def merge (c : Call) (db : Database) (resource : Dict) : Go Dict := do
  c.validate c.dataMap
  c.attachments db resource c.dataMap
  c.policy.currentResourceCondition.applyPropertyConditionFilter actionUpdate resource
    (some c.dataMap)
  let data ← cloneWithUpdate resource c.dataMap
  c.preUpdateInTransaction data
  .ok (newResource x.s data)

/-- The end of `UpdateResourceInTransaction`: what has been merged is written. -/
def write (c : Call) (st : Cache.State Database) (data : Dict) : Go (Cache.State Database) := do
  c.execute st.data
  let st ← x.update st data
  c.postUpdateInTransaction data
  .ok st

/-- `UpdateResourceInTransaction`. -/
def updateResourceInTransaction (c : Call) (st : Cache.State Database) :
    Go (Cache.State Database) := do
  let (resource, st) ← x.fetchForUpdate c st
  let data ← x.merge c st.data resource
  x.write c st data

end Site

/-! ## Many calls -/

/-- How far a call has come, with its transaction. -/
inductive Phase where
  | idle
  | existing (st : Cache.State Database)
  | locked (st : Cache.State Database) (resource : Dict)
  | merged (st : Cache.State Database) (data : Dict)
  | written (st : Cache.State Database)
  | committed
  | failed

/-- The call has come to its end. -/
def Phase.isCommitted : Phase → Bool
  | .committed => true
  | _ => false

/-- The committed database, who holds the lock of the row, and how far the calls have come. -/
structure World (ι : Type) where
  db : Database
  holder : Option ι := none
  phase : ι → Phase := fun _ ↦ .idle
  /-- For the record: whose locks were granted, in this order.  Those of transactions that were
  rolled back are left out. -/
  granted : List ι := []

/-- A call takes its next step, or its transaction is rolled back, to be tried again. -/
inductive Act (ι : Type) where
  | turn (i : ι)
  | abort (i : ι)

variable {ι : Type}

namespace World

variable [DecidableEq ι]

/-- A call comes to another phase. -/
def set (w : World ι) (i : ι) (phase : Phase) : World ι :=
  { w with phase := Function.update w.phase i phase }

/-- The end of a transaction. -/
def leave (w : World ι) (i : ι) (phase : Phase) : World ι :=
  { w.set i phase with holder := if w.holder = some i then none else w.holder }

/-- The transaction of a call is rolled back. -/
def rollback (w : World ι) (i : ι) (phase : Phase) : World ι :=
  { w.leave i phase with granted := w.granted.filter fun j ↦ decide (j ≠ i) }

end World

/-- The calls that have been committed, in the order in which their locks were granted. -/
def World.committed (w : World ι) : List ι := w.granted.filter fun i ↦ (w.phase i).isCommitted

namespace Site

variable (x : Site) (calls : ι → Call)

section Step

variable [TextEngine] [DecidableEq ι]

/-- The next step of a call.  Who wants the lock has to wait while another one holds it. -/
def turn (w : World ι) (i : ι) : World ι :=
  match w.phase i with
  | .idle =>
    match x.checkIfResourceExists (calls i) w.db with
    | .ok st => w.set i (.existing st)
    | .error _ => w.rollback i .failed
  | .existing st =>
    if w.holder.isSome then w
    else
      match x.fetchForUpdate (calls i) { st with data := w.db } with
      | .ok (resource, st) =>
        { w.set i (.locked st resource) with
          holder := if DB.locksRow x.s "update" then some i else none
          granted := w.granted ++ [i] }
      | .error _ => w.rollback i .failed
  | .locked st resource =>
    match x.merge (calls i) w.db resource with
    | .ok data => w.set i (.merged st data)
    | .error _ => w.rollback i .failed
  | .merged st data =>
    match x.write (calls i) { st with data := w.db } data with
    | .ok st => w.set i (.written st)
    | .error _ => w.rollback i .failed
  | .written st => { w.leave i .committed with db := st.data }
  | .committed => w
  | .failed => w

/-- One act. -/
def step (w : World ι) : Act ι → World ι
  | .turn i => x.turn calls w i
  | .abort i =>
    match w.phase i with
    | .idle | .committed | .failed => w
    | _ => w.rollback i .idle

end Step

/-! ## What should come of it -/

/-- One request: it was valid, the row was read within the scope of the policy, the property
conditions were held against it, and it was replaced by what the request makes of it. -/
structure ReplacedBy (c : Call) (db : Database) (row resource : Dict) (db' : Database) : Prop where
  valid : c.validate c.dataMap = .ok ()
  under : row ∈ x.D.rowsUnder db x.s x.resourceID
  scope : x.D.Filtered x.s (x.updateFilter c) row
  read : x.D.LockedAs x.s "update" db row resource
  /-- What was read is what stood in the row. -/
  columns : ∀ key, x.s.hasPropertyID key = true → (x.s.parent = "" ∨ key ≠ x.s.parentPropertyID) →
    resource.get key = row.get key
  checked : c.policy.currentResourceCondition.applyPropertyConditionFilter actionUpdate resource
    (some c.dataMap) = .ok ()
  written : ∃ data, cloneWithUpdate resource c.dataMap = .ok data ∧
    x.D.update db x.s (newResource x.s data) x.resourceID = .ok db'

/-- Several requests, one after another. -/
def Serial (db : Database) : List ι → Database → Prop
  | [], db' => db' = db
  | i :: todo, db' => ∃ row resource mid,
    x.ReplacedBy (calls i) db row resource mid ∧ Serial mid todo db'

/-- **No update is lost.** -/
structure NoLostUpdate (db : Database) (w : World ι) : Prop where
  /-- The requests have been merged in the order of their locks. -/
  serial : x.Serial calls db w.committed w.db
  /-- What a request does not set is what the requests before it have made of it. -/
  kept : ∀ done i todo, w.committed = done ++ i :: todo → done ≠ [] → ∀ before after row resource,
    x.Serial calls db done before → x.ReplacedBy (calls i) before row resource after →
      ∀ key path, x.s.hasPropertyID key = true → ¬ SetsIn (calls i).dataMap key path →
        ∀ row' ∈ x.D.rowsUnder after x.s x.resourceID,
          Value.under path (row'.get key) = Value.under path (row.get key)

/-- The request names no other resource than the one it is for. -/
def NamesNoOther (c : Call) : Prop :=
  ∀ value, c.dataMap.lookup "id" = some value → ∃ text, value = .str text ∧
    x.D.server.eq (.str text) (.str x.resourceID) = .tt

/-- A request that names another resource is not valid. -/
def AsksForItself (c : Call) : Prop := c.validate c.dataMap = .ok () → x.NamesNoOther c

/-- No related resource that is read along with the row goes by the name of a property. -/
def NamesApart : Prop :=
  x.s.getLockingPolicy "update" = .ok .lockRelatedResources →
    ∀ property ∈ x.s.properties, property.relationProperty ≠ "" →
      x.s.hasPropertyID property.relationProperty = false

/-- The identifiers are texts, and the resource's is that of one row at most. -/
structure Keys (db : Database) : Prop where
  text : ∀ row ∈ (db (x.s.getDbTableName x.D.legacy)).rows, ∃ text, row.get "id" = .str text
  keyed : x.D.Keyed x.s x.resourceID db

/-- The database's comparison of texts. -/
def SameText : Prop := Equivalence fun a b ↦ x.D.server.eq (.str a) (.str b) = .tt

end Site

/-! ## One request -/

section Request

variable {x : Site} {calls : ι → Call} {c : Call} {db db' : Database} {row resource data : Dict}

/-- The properties of what was read are the columns of the row. -/
theorem get_of_lockedAs (hnames : x.NamesApart)
    (h : x.D.LockedAs x.s "update" db row resource) {key : String}
    (hkey : x.s.hasPropertyID key = true)
    (hparent : x.s.parent = "" ∨ key ≠ x.s.parentPropertyID ∨ ∃ text, row.get key = .str text) :
    resource.get key = row.get key := by
  obtain ⟨lockPolicy, join, hpolicy, hjoin, hresource⟩ := h
  refine DB.get_rowResource hresource hkey (fun hj property hproperty hrelated heq ↦ ?_) hparent
  have hrelatedPolicy : lockPolicy = .lockRelatedResources := by
    cases lockPolicy with
    | lockRelatedResources => rfl
    | skipRelatedResources => cases hjoin; cases hj
    | noLocking => exact absurd hjoin (Go.panicf_ne_ok _ _ _)
  have hfree := hnames (hrelatedPolicy ▸ hpolicy) property hproperty hrelated
  rw [heq, hkey] at hfree
  cases hfree

/-- What a request that names no other resource is merged to has an identifier that the database
takes for that of the row. -/
theorem get_id_of_merged (hid : x.NamesNoOther c) {text : String}
    (hresource : resource.get "id" = .str text)
    (hunder : x.D.server.eq (.str text) (.str x.resourceID) = .tt)
    (h : cloneWithUpdate resource c.dataMap = .ok data) :
    ∃ text, data.get "id" = .str text ∧
      x.D.server.eq (.str text) (.str x.resourceID) = .tt := by
  cases hlookup : c.dataMap.lookup "id" with
  | none =>
    have hsame : Value.under [] (data.get "id") = Value.under [] (resource.get "id") := by
      refine under_cloneWithUpdate h ?_
      rintro ⟨value, hvalue, -⟩
      cases hlookup.symm.trans hvalue
    exact ⟨text, hsame.trans hresource, hunder⟩
  | some value =>
    obtain ⟨text', rfl, hsame⟩ := hid value hlookup
    exact ⟨text', get_cloneWithUpdate h hlookup, hsame⟩

/-- What the database takes for one another, it takes for the same rows. -/
theorem eq_iff_of_same (hsame : x.SameText) {text : String}
    (h : x.D.server.eq (.str text) (.str x.resourceID) = .tt) (value : String) :
    x.D.server.eq (.str value) (.str text) = .tt ↔
      x.D.server.eq (.str value) (.str x.resourceID) = .tt :=
  ⟨fun hv ↦ hsame.trans hv h, fun hv ↦ hsame.trans hv (hsame.symm h)⟩

/-- The row that is written keeps an identifier that the database takes for the resource's. -/
theorem get_id_updateRow {text text' : String} (hdata : data.get "id" = .str text)
    (htext : x.D.server.eq (.str text) (.str x.resourceID) = .tt)
    (hrow : row.get "id" = .str text')
    (hunder : x.D.server.eq (.str text') (.str x.resourceID) = .tt) :
    ∃ text, (updateRow x.s data row).get "id" = .str text ∧
      x.D.server.eq (.str text) (.str x.resourceID) = .tt := by
  rw [get_updateRow_id, get_setColumns_of_some (lookup_of_get_eq_str hdata)]
  split
  · exact ⟨text, rfl, htext⟩
  · exact ⟨text', hrow, hunder⟩

theorem get_newResource_id : (newResource x.s data).get "id" = data.get "id" := by
  refine DB.get_newResource ?_
  by_cases h : x.s.parent = ""
  · exact .inl h
  · exact .inr (.inl (parentPropertyID_ne_id x.s h).symm)

/-- The data of an ordinary request have an identifier that the database takes for the
resource's. -/
theorem get_id_of_read (hnames : x.NamesApart) (hc : x.NamesNoOther c) (hkeys : x.Keys db)
    (hunder : row ∈ x.D.rowsUnder db x.s x.resourceID)
    (hscope : x.D.Filtered x.s (x.updateFilter c) row)
    (hread : x.D.LockedAs x.s "update" db row resource)
    (hmerge : cloneWithUpdate resource c.dataMap = .ok data) :
    ∃ text, (newResource x.s data).get "id" = .str text ∧
      x.D.server.eq (.str text) (.str x.resourceID) = .tt := by
  obtain ⟨hrow, heq⟩ := DB.mem_rowsUnder.mp hunder
  obtain ⟨text, htext⟩ := hkeys.text row hrow
  rw [htext] at heq
  have hparent : x.s.parent = "" ∨ "id" ≠ x.s.parentPropertyID ∨ ∃ t, row.get "id" = .str t :=
    .inr (.inr ⟨text, htext⟩)
  have hid : x.s.hasPropertyID "id" = true := hscope.hasPropertyID asksFor_scope
  rw [get_newResource_id]
  exact get_id_of_merged hc ((get_of_lockedAs hnames hread hid hparent).trans htext) heq hmerge

/-- **After an ordinary request the row is still one, under its identifier.** -/
theorem Site.ReplacedBy.keys (hnames : x.NamesApart) (hc : x.NamesNoOther c) (hkeys : x.Keys db)
    (h : x.ReplacedBy c db row resource db') : x.Keys db' := by
  obtain ⟨data, hmerge, hwrite⟩ := h.written
  obtain ⟨text, hdata, htext⟩ := get_id_of_read hnames hc hkeys h.under h.scope h.read hmerge
  have hrows : ∀ old ∈ x.D.rowsUnder db x.s x.resourceID,
      ∃ text, (updateRow x.s (newResource x.s data) old).get "id" = .str text ∧
        x.D.server.eq (.str text) (.str x.resourceID) = .tt := by
    intro old hold
    obtain ⟨hmem, heq⟩ := DB.mem_rowsUnder.mp hold
    obtain ⟨text', htext'⟩ := hkeys.text old hmem
    rw [htext'] at heq
    exact get_id_updateRow hdata htext htext' heq
  constructor
  · intro new hnew
    rw [DB.rows_update hwrite] at hnew
    obtain ⟨old, hold, rfl⟩ := List.mem_map.mp hnew
    split
    · next heq =>
      obtain ⟨text', htext', -⟩ := hrows old (DB.mem_rowsUnder.mpr ⟨hold, heq⟩)
      exact ⟨text', htext'⟩
    · exact hkeys.text old hold
  · have hunder := DB.rowsUnder_update hwrite fun old hold ↦ by
      obtain ⟨text', htext', heq⟩ := hrows old hold
      rw [htext']
      exact heq
    intro new hnew new' hnew'
    rw [hunder] at hnew hnew'
    obtain ⟨old, hold, rfl⟩ := List.mem_map.mp hnew
    obtain ⟨old', hold', rfl⟩ := List.mem_map.mp hnew'
    rw [hkeys.keyed old hold old' hold']

/-- With a parent, the row that is written has its identifier as a text. -/
def Site.Parented (x : Site) (db : Database) : Prop :=
  x.s.parent = "" ∨
    ∀ row ∈ x.D.rowsUnder db x.s x.resourceID, ∃ text, row.get x.s.parentPropertyID = .str text

/-- The rows under the identifier, after a request. -/
theorem Site.ReplacedBy.exists_updateRow (hnames : x.NamesApart) (hc : x.NamesNoOther c)
    (hkeys : x.Keys db) (h : x.ReplacedBy c db row resource db') : ∃ data,
      cloneWithUpdate resource c.dataMap = .ok data ∧
        ∀ new ∈ x.D.rowsUnder db' x.s x.resourceID,
          new = updateRow x.s (newResource x.s data) row := by
  obtain ⟨data, hmerge, hwrite⟩ := h.written
  obtain ⟨text, hdata, htext⟩ := get_id_of_read hnames hc hkeys h.under h.scope h.read hmerge
  refine ⟨data, hmerge, fun new hnew ↦ ?_⟩
  rw [DB.rowsUnder_update hwrite fun old hold ↦ ?_] at hnew
  · obtain ⟨old, hold, rfl⟩ := List.mem_map.mp hnew
    rw [hkeys.keyed old hold row h.under]
  · obtain ⟨hmem, heq⟩ := DB.mem_rowsUnder.mp hold
    obtain ⟨text', htext'⟩ := hkeys.text old hmem
    rw [htext'] at heq
    obtain ⟨_, hnew', heq'⟩ := get_id_updateRow hdata htext htext' heq
    rw [hnew']
    exact heq'

theorem Site.ReplacedBy.parented (hnames : x.NamesApart) (hc : x.NamesNoOther c)
    (hkeys : x.Keys db) (h : x.ReplacedBy c db row resource db') : x.Parented db' := by
  by_cases hparent : x.s.parent = ""
  · exact .inl hparent
  · right
    obtain ⟨data, -, hnew⟩ := h.exists_updateRow hnames hc hkeys
    intro new hmem
    rw [hnew new hmem, updateRow, if_neg hparent, GoMap.get_insert_self]
    exact ⟨_, rfl⟩

/-- **What a request does not set, the row keeps.** -/
theorem Site.ReplacedBy.kept (hnames : x.NamesApart) (hc : x.NamesNoOther c) (hkeys : x.Keys db)
    (hparented : x.Parented db) (h : x.ReplacedBy c db row resource db') {key : String}
    {path : List String} (hkey : x.s.hasPropertyID key = true)
    (hsets : ¬ SetsIn c.dataMap key path) {new : Dict}
    (hnew : new ∈ x.D.rowsUnder db' x.s x.resourceID) :
    Value.under path (new.get key) = Value.under path (row.get key) := by
  obtain ⟨data, hmerge, hall⟩ := h.exists_updateRow hnames hc hkeys
  rw [hall new hnew]
  have hparent : x.s.parent = "" ∨ key ≠ x.s.parentPropertyID ∨
      ∃ text, row.get key = .str text := by
    by_cases hk : key = x.s.parentPropertyID
    · exact hparented.imp_right fun hrows ↦ .inr (hk ▸ hrows row h.under)
    · exact .inr (.inl hk)
  have hread : resource.get key = row.get key := get_of_lockedAs hnames h.read hkey hparent
  have hmerged : Value.under path (data.get key) = Value.under path (row.get key) := by
    rw [under_cloneWithUpdate hmerge hsets, hread]
  by_cases hk : x.s.parent ≠ "" ∧ key = x.s.parentPropertyID
  · obtain ⟨hne, rfl⟩ := hk
    obtain ⟨text, htext⟩ := (hparent.resolve_left hne).resolve_left (fun h ↦ h rfl)
    rw [updateRow, if_neg hne, GoMap.get_insert_self, htext]
    cases path with
    | cons _ _ => rfl
    | nil =>
      have hdata : data.get x.s.parentPropertyID = .str text := hmerged.trans htext
      rw [DB.get_newResource (.inr (.inr ⟨text, hdata⟩)), hdata]
      rfl
  · have hother : x.s.parent = "" ∨ key ≠ x.s.parentPropertyID := by
      by_cases hne : x.s.parent = ""
      · exact .inl hne
      · exact .inr fun heq ↦ hk ⟨hne, heq⟩
    rw [get_updateRow hother]
    have hsame : (newResource x.s data).get key = data.get key :=
      DB.get_newResource (hother.imp_right .inl)
    cases hlookup : (newResource x.s data).lookup key with
    | none => rw [get_setColumns_of_none hlookup]
    | some value =>
      have hvalue : data.get key = value := by
        rw [← hsame, GoMap.get, hlookup]
        rfl
      have hwritten : (setColumns (newResource x.s data) x.s.properties row).get key = value := by
        rw [get_setColumns_of_some hlookup]
        exact if_pos hkey
      rw [hwritten, ← hvalue, hmerged]

/-- One request after another. -/
theorem Site.Serial.keys (hnames : x.NamesApart) (hcalls : ∀ i, x.AsksForItself (calls i))
    {done : List ι} (hkeys : x.Keys db) (h : x.Serial calls db done db') : x.Keys db' := by
  induction done generalizing db with
  | nil => exact (show db' = db from h) ▸ hkeys
  | cons i done ih =>
    obtain ⟨row, resource, mid, hstep, hrest⟩ := h
    exact ih (hstep.keys hnames (hcalls i hstep.valid) hkeys) hrest

theorem Site.Serial.parented (hnames : x.NamesApart) (hcalls : ∀ i, x.AsksForItself (calls i))
    {done : List ι} (hne : done ≠ []) (hkeys : x.Keys db) (h : x.Serial calls db done db') :
    x.Parented db' := by
  induction done generalizing db with
  | nil => exact absurd rfl hne
  | cons i done ih =>
    obtain ⟨row, resource, mid, hstep, hrest⟩ := h
    cases done with
    | nil =>
      obtain rfl : db' = mid := hrest
      exact hstep.parented hnames (hcalls i hstep.valid) hkeys
    | cons j done => exact ih (by simp) (hstep.keys hnames (hcalls i hstep.valid) hkeys) hrest

theorem Site.Serial.snoc {done : List ι} {i : ι} {mid : Database}
    (h : x.Serial calls db done mid) (hstep : x.ReplacedBy (calls i) mid row resource db') :
    x.Serial calls db (done ++ [i]) db' := by
  induction done generalizing db with
  | nil =>
    obtain rfl : mid = db := h
    exact ⟨row, resource, db', hstep, rfl⟩
  | cons j done ih =>
    obtain ⟨row', resource', mid', hstep', hrest⟩ := h
    exact ⟨row', resource', mid', hstep', ih hrest⟩

end Request

/-! ## The steps -/

section Steps

variable [TextEngine] {x : Site} {c : Call} {st st' : Cache.State Database} {db : Database}
  {resource data : Dict}

/-- Nothing that the transaction has kept is said to be locked. -/
def NothingLocked (st : Cache.State Database) : Prop :=
  ∀ key cached, st.queryCache key = some cached → cached.isLocked = false

/-- A plain read does not say that anything is. -/
theorem nothingLocked_list (filter : GoMap FilterVal) :
    NothingLocked (x.list (.make db) filter).2 := by
  have hnone : NothingLocked (Cache.State.make db) := fun _ _ h ↦ by cases h
  rw [Site.list]
  split
  · have hmiss : (Cache.State.make db).getCached x.hash x.s
        (listContextHelper x.s filter none none) = none := rfl
    simp only [Cache.State.list, hmiss]
    rw [Cache.State.saveCache.eq_def]
    split
    · intro key cached h
      simp only [Function.update_apply] at h
      split at h
      · cases h
        rfl
      · exact hnone key cached h
    · exact hnone
  · exact hnone

theorem nothingLocked_of_exists (h : x.checkIfResourceExists c db = .ok st) : NothingLocked st := by
  obtain ⟨filter, -, h⟩ := Go.bind_eq_ok.mp h
  obtain ⟨_, -, h⟩ := Go.bind_eq_ok.mp h
  cases h
  exact nothingLocked_list filter

/-- **A locking read is not answered from what plain reads have returned.** -/
theorem lockList_fst (hnone : NothingLocked st) (filter : GoMap FilterVal)
    (lockPolicy : LockPolicy) : (x.lockList st filter lockPolicy).1 =
      x.tx.lockList st.data x.s filter none none lockPolicy := by
  rw [Site.lockList]
  split
  · rw [Cache.State.lockList, Cache.TxInterface.lockList]
    cases hsc : Cache.lockListContextHelper x.s filter none none lockPolicy with
    | error fault => rfl
    | ok sc =>
      have hmiss : (st.getCached x.hash x.s sc).filter (·.isLocked) = none := by
        rw [Option.filter_eq_none_iff]
        intro cached hcached
        rw [hnone _ cached hcached]
        simp
      simp only [hmiss]
  · rfl

omit [RegexpEngine] [TextEngine] in
theorem lockFetchContextHelper_eq_ok {result : Go (List Cache.Resource × ℕ)}
    {resource : Cache.Resource} (h : Cache.lockFetchContextHelper result = .ok resource) :
    ∃ rest total, result = .ok (resource :: rest, total) := by
  rw [Cache.lockFetchContextHelper.eq_def] at h
  split at h
  · cases h
    exact ⟨_, _, rfl⟩
  · exact absurd h (Go.errorf_ne_ok _ _ _)
  · exact absurd h (Go.errorf_ne_ok _ _ _)
  · exact absurd h (Go.panicf_ne_ok _ _ _)

/-- What the transaction reads with a lock is what the database has. -/
theorem lockedAs_of_lockList {lockPolicy : LockPolicy} {filter : GoMap FilterVal}
    {rest : List Cache.Resource} {total : ℕ} {first : Cache.Resource}
    (hpolicy : x.s.getLockingPolicy "update" = .ok lockPolicy)
    (hkeyed : x.D.Keyed x.s x.resourceID db) (hfilter : AsksFor filter x.resourceID)
    (h : x.tx.lockList db x.s filter none none lockPolicy = .ok (first :: rest, total)) :
    ∃ row ∈ x.D.rowsUnder db x.s x.resourceID, x.D.Filtered x.s filter row ∧
      x.D.LockedAs x.s "update" db row first.data := by
  obtain ⟨sc, hsc, h⟩ := Go.bind_eq_ok.mp h
  obtain ⟨join, hjoin, hsc⟩ := Go.bind_eq_ok.mp hsc
  obtain rfl : { filter, join, paginator := none } = sc := Except.ok.inj hsc
  obtain ⟨q, hq, h⟩ := Go.bind_eq_ok.mp h
  obtain ⟨⟨list, total'⟩, hlist, h⟩ := Go.bind_eq_ok.mp h
  obtain ⟨data, others, rfl, rfl, -⟩ :=
    List.map_eq_cons_iff.mp (Prod.mk.inj (Except.ok.inj h)).1
  have hselect : x.D.selectAll db x.s filter join = .ok (data :: others, total') := by
    rw [DB.selectAll, hq, Go.ok_bind]
    exact hlist
  have hfirst : DB.firstOf "" (x.D.selectAll db x.s filter join) = .ok data :=
    DB.firstOf_eq_ok.mpr ⟨_, _, hselect⟩
  obtain ⟨row, hunder, hscope, hresource⟩ :=
    (DB.firstOf_selectAll_eq_ok hkeyed hfilter).mp hfirst
  exact ⟨row, hunder, hscope, lockPolicy, join, hpolicy, hjoin, hresource⟩

theorem lockedAs_of_fetchForUpdate (hlocks : DB.locksRow x.s "update" = true)
    (hkeyed : x.D.Keyed x.s x.resourceID st.data) (hnone : NothingLocked st)
    (h : x.fetchForUpdate c st = .ok (resource, st')) :
    ∃ row ∈ x.D.rowsUnder st.data x.s x.resourceID, x.D.Filtered x.s (x.updateFilter c) row ∧
      x.D.LockedAs x.s "update" st.data row resource := by
  obtain ⟨lockPolicy, hpolicy, h⟩ := Go.bind_eq_ok.mp h
  rw [DB.locksRow, hpolicy] at hlocks
  have hlocked : ∀ lockPolicy, x.s.getLockingPolicy "update" = .ok lockPolicy → ∀ first,
      Cache.lockFetchContextHelper (x.lockList st (x.updateFilter c) lockPolicy).1 = .ok first →
        ∃ row ∈ x.D.rowsUnder st.data x.s x.resourceID, x.D.Filtered x.s (x.updateFilter c) row ∧
          x.D.LockedAs x.s "update" st.data row first.data := by
    intro lockPolicy hpolicy first hfirst
    rw [lockList_fst hnone] at hfirst
    obtain ⟨rest, total, hlist⟩ := lockFetchContextHelper_eq_ok hfirst
    exact lockedAs_of_lockList hpolicy hkeyed asksFor_scope hlist
  cases lockPolicy with
  | noLocking => cases hlocks
  | lockRelatedResources =>
    obtain ⟨first, hfirst, h⟩ := Go.bind_eq_ok.mp h
    obtain ⟨rfl, -⟩ := Prod.mk.inj (Except.ok.inj h)
    exact hlocked _ hpolicy first hfirst
  | skipRelatedResources =>
    obtain ⟨first, hfirst, h⟩ := Go.bind_eq_ok.mp h
    obtain ⟨rfl, -⟩ := Prod.mk.inj (Except.ok.inj h)
    exact hlocked _ hpolicy first hfirst

omit [TextEngine] in
/-- What the merge has checked, and what it returns. -/
theorem of_merge (h : x.merge c db resource = .ok data) : c.validate c.dataMap = .ok () ∧
    c.policy.currentResourceCondition.applyPropertyConditionFilter actionUpdate resource
      (some c.dataMap) = .ok () ∧ ∃ merged, cloneWithUpdate resource c.dataMap = .ok merged ∧
        data = newResource x.s merged := by
  rw [Site.merge, Go.andThen_eq_ok, Go.andThen_eq_ok, Go.andThen_eq_ok] at h
  obtain ⟨hvalid, -, hchecked, h⟩ := h
  obtain ⟨merged, hmerged, h⟩ := Go.bind_eq_ok.mp h
  obtain ⟨-, h⟩ := Go.andThen_eq_ok.mp h
  exact ⟨hvalid, hchecked, merged, hmerged, (Except.ok.inj h).symm⟩

/-- What is written. -/
theorem update_of_write (h : x.write c st data = .ok st') :
    x.D.update st.data x.s data (Resource.ID ⟨x.s, data⟩) = .ok st'.data := by
  obtain ⟨-, h⟩ := Go.andThen_eq_ok.mp h
  obtain ⟨st₁, hst, h⟩ := Go.bind_eq_ok.mp h
  obtain ⟨-, h⟩ := Go.andThen_eq_ok.mp h
  cases h
  rw [Site.update] at hst
  cases hupdate : x.D.update st.data x.s data (Resource.ID ⟨x.s, data⟩) with
  | error fault =>
    simp [Site.tx, Cache.transaction, hupdate, Go.bind_eq_ok] at hst
  | ok db' =>
    simp only [Site.tx, Cache.transaction, hupdate, Go.ok_bind, Except.ok.injEq] at hst
    rw [← hst]
    split <;> rfl

end Steps

/-! ## The invariant -/

section Invariant

variable (x : Site) (calls : ι → Call) (db₀ : Database)

/-- What was read is the row. -/
def Locked (c : Call) (db : Database) (row resource : Dict) : Prop :=
  row ∈ x.D.rowsUnder db x.s x.resourceID ∧ x.D.Filtered x.s (x.updateFilter c) row ∧
    x.D.LockedAs x.s "update" db row resource

/-- What the merge has made of the row that is locked. -/
def Merged (c : Call) (db : Database) (data : Dict) : Prop :=
  ∃ row resource merged, Locked x c db row resource ∧ c.validate c.dataMap = .ok () ∧
    c.policy.currentResourceCondition.applyPropertyConditionFilter actionUpdate resource
      (some c.dataMap) = .ok () ∧
    cloneWithUpdate resource c.dataMap = .ok merged ∧ data = newResource x.s merged

/-- A phase with the lock. -/
def Phase.holds : Phase → Bool
  | .locked _ _ | .merged _ _ | .written _ => true
  | .idle | .existing _ | .committed | .failed => false

/-- What a call knows: until it has the lock, nothing that is locked; from then on, what it has made
of the row as it is. -/
def Knows (c : Call) (db : Database) : Phase → Prop
  | .existing st => NothingLocked st
  | .locked _ resource => ∃ row, Locked x c db row resource
  | .merged _ data => Merged x c db data
  | .written st => ∃ row resource, x.ReplacedBy c db row resource st.data
  | .idle | .committed | .failed => True

/-- The locks of committed transactions were granted one after another, and then that of the
transaction that has it now. -/
structure Granted (w : World ι) (done : List ι) : Prop where
  order : w.granted = done ++ w.holder.toList
  committed : ∀ i, i ∈ done ↔ (w.phase i).isCommitted = true
  serial : x.Serial calls db₀ done w.db

/-- What holds in every run: the database is what the granted updates have made of it, and who holds
the lock knows the row. -/
structure Inv (w : World ι) : Prop where
  keys : x.Keys w.db
  granted : ∃ done, Granted x calls db₀ w done
  holder : ∀ i, (w.phase i).holds = true ↔ w.holder = some i
  knows : ∀ i, Knows x (calls i) w.db (w.phase i)

variable {x calls db₀} {w : World ι} {i : ι} {phase : Phase}

/-- Only who holds the lock knows anything about the database. -/
theorem Knows.of_not_holds {c : Call} {db db' : Database} (h : Knows x c db phase)
    (hholds : phase.holds = false) : Knows x c db' phase := by
  cases phase with
  | existing st => exact h
  | locked _ _ => cases hholds
  | merged _ _ => cases hholds
  | written _ => cases hholds
  | _ => trivial

omit [RegexpEngine] in
theorem not_committed_of_holds (h : phase.holds = true) : phase.isCommitted = false := by
  cases phase <;> first | rfl | cases h

/-- Who holds the lock has not been committed yet. -/
theorem Inv.committed_eq (h : Inv x calls db₀ w) :
    ∃ done, w.committed = done ∧ Granted x calls db₀ w done := by
  obtain ⟨done, hgranted⟩ := h.granted
  refine ⟨done, ?_, hgranted⟩
  rw [World.committed, hgranted.order, List.filter_append]
  have hdone : done.filter (fun i ↦ (w.phase i).isCommitted) = done :=
    List.filter_eq_self.mpr fun i hi ↦ (hgranted.committed i).mp hi
  have hholder : w.holder.toList.filter (fun i ↦ (w.phase i).isCommitted) = [] := by
    rw [List.filter_eq_nil_iff]
    intro i hi
    rw [not_committed_of_holds ((h.holder i).mpr (Option.mem_toList.mp hi))]
    simp
  rw [hdone, hholder, List.append_nil]

variable [DecidableEq ι]

/-- A call goes on, and the lock and the database stay as they are. -/
theorem Inv.set (h : Inv x calls db₀ w) (hholds : phase.holds = (w.phase i).holds)
    (hcommitted : phase.isCommitted = (w.phase i).isCommitted)
    (hknows : Knows x (calls i) w.db phase) : Inv x calls db₀ (w.set i phase) := by
  obtain ⟨done, horder, hdone, hserial⟩ := h.granted
  refine ⟨h.keys, ⟨done, horder, ?_, hserial⟩, ?_, ?_⟩
  · refine (Function.forall_update_iff w.phase fun j phase ↦
      j ∈ done ↔ phase.isCommitted = true).mpr ⟨?_, fun j _ ↦ hdone j⟩
    rw [hcommitted]
    exact hdone i
  · refine (Function.forall_update_iff w.phase fun j phase ↦
      phase.holds = true ↔ w.holder = some j).mpr ⟨?_, fun j _ ↦ h.holder j⟩
    rw [hholds]
    exact h.holder i
  · exact (Function.forall_update_iff w.phase fun j phase ↦
      Knows x (calls j) w.db phase).mpr ⟨hknows, fun j _ ↦ h.knows j⟩

omit [RegexpEngine] in
theorem holder_leave (j : ι) :
    (w.leave i phase).holder = some j ↔ j ≠ i ∧ w.holder = some j := by
  simp only [World.leave]
  by_cases hi : w.holder = some i
  · rw [if_pos hi, hi]
    simp [eq_comm]
  · rw [if_neg hi]
    exact ⟨fun hj ↦ ⟨fun heq ↦ hi (heq ▸ hj), hj⟩, And.right⟩

omit [RegexpEngine] in
/-- Without the call that is rolled back, the locks are those of the others. -/
theorem granted_rollback {done : List ι} (horder : w.granted = done ++ w.holder.toList)
    (hmem : i ∉ done) :
    (w.rollback i phase).granted = done ++ (w.rollback i phase).holder.toList := by
  have hkept : done.filter (fun j ↦ decide (j ≠ i)) = done := by
    rw [List.filter_eq_self]
    intro j hj
    exact decide_eq_true fun heq ↦ hmem (heq ▸ hj)
  simp only [World.rollback, World.leave, World.set, horder, List.filter_append, hkept]
  by_cases hi : w.holder = some i
  · simp [hi]
  · rw [if_neg hi]
    cases hw : w.holder with
    | none => rfl
    | some j =>
      have hne : j ≠ i := fun heq ↦ hi (heq ▸ hw)
      simp [hne]

/-- A transaction is rolled back. -/
theorem Inv.rollback (h : Inv x calls db₀ w) (hcommitted : (w.phase i).isCommitted = false)
    (hphase : phase = .idle ∨ phase = .failed) : Inv x calls db₀ (w.rollback i phase) := by
  have hnew : phase.holds = false ∧ phase.isCommitted = false ∧ Knows x (calls i) w.db phase := by
    rcases hphase with rfl | rfl <;> exact ⟨rfl, rfl, trivial⟩
  obtain ⟨done, horder, hdone, hserial⟩ := h.granted
  have hmem : i ∉ done := by
    rw [hdone, hcommitted]
    simp
  refine ⟨h.keys, ⟨done, granted_rollback horder hmem, ?_, hserial⟩, ?_, ?_⟩
  · refine (Function.forall_update_iff w.phase fun j phase ↦
      j ∈ done ↔ phase.isCommitted = true).mpr ⟨?_, fun j _ ↦ hdone j⟩
    simp [hmem, hnew.2.1]
  · refine (Function.forall_update_iff w.phase fun j phase' ↦
      phase'.holds = true ↔ (w.leave i phase).holder = some j).mpr ⟨?_, fun j hj ↦ ?_⟩
    · simp [holder_leave, hnew.1]
    · simp [holder_leave, hj, h.holder j]
  · exact (Function.forall_update_iff w.phase fun j phase ↦
      Knows x (calls j) w.db phase).mpr ⟨hnew.2.2, fun j _ ↦ h.knows j⟩

/-- The lock is granted. -/
theorem Inv.grant (h : Inv x calls db₀ w) (hfree : w.holder = none)
    (hcommitted : (w.phase i).isCommitted = false) (hholds : phase.holds = true)
    (hknows : Knows x (calls i) w.db phase) :
    Inv x calls db₀ { w.set i phase with holder := some i, granted := w.granted ++ [i] } := by
  obtain ⟨done, horder, hdone, hserial⟩ := h.granted
  refine ⟨h.keys, ⟨done, ?_, ?_, hserial⟩, ?_, ?_⟩
  · rw [horder, hfree]
    simp
  · refine (Function.forall_update_iff w.phase fun j phase ↦
      j ∈ done ↔ phase.isCommitted = true).mpr ⟨?_, fun j _ ↦ hdone j⟩
    rw [hdone, hcommitted, not_committed_of_holds hholds]
  · refine (Function.forall_update_iff w.phase fun j phase ↦
      phase.holds = true ↔ some i = some j).mpr ⟨?_, fun j hj ↦ ?_⟩
    · simp [hholds]
    · simp [h.holder j, hfree, Ne.symm hj]
  · exact (Function.forall_update_iff w.phase fun j phase ↦
      Knows x (calls j) w.db phase).mpr ⟨hknows, fun j _ ↦ h.knows j⟩

/-- What was written is committed, and the lock given back. -/
theorem Inv.commit (hnames : x.NamesApart) (hcall : x.AsksForItself (calls i))
    (h : Inv x calls db₀ w) {st : Cache.State Database} (hphase : w.phase i = .written st) :
    Inv x calls db₀ { w.leave i .committed with db := st.data } := by
  have hheld : w.holder = some i := (h.holder i).mp (by rw [hphase]; rfl)
  have hother (j : ι) (hj : j ≠ i) : (w.phase j).holds = false := by
    rw [Bool.eq_false_iff, ne_eq, h.holder j, hheld]
    exact fun heq ↦ hj (Option.some.inj heq).symm
  obtain ⟨row, resource, hstep⟩ : ∃ row resource,
      x.ReplacedBy (calls i) w.db row resource st.data := by
    have hknows := h.knows i
    rwa [hphase] at hknows
  obtain ⟨done, horder, hdone, hserial⟩ := h.granted
  refine ⟨hstep.keys hnames (hcall hstep.valid) h.keys,
    ⟨done ++ [i], ?_, ?_, hserial.snoc hstep⟩, ?_, ?_⟩
  · simp [World.leave, World.set, horder, hheld]
  · refine (Function.forall_update_iff w.phase fun j phase ↦
      j ∈ done ++ [i] ↔ phase.isCommitted = true).mpr ⟨?_, fun j hj ↦ ?_⟩
    · simp [Phase.isCommitted]
    · simp [hj, hdone]
  · refine (Function.forall_update_iff w.phase fun j phase ↦
      phase.holds = true ↔ (w.leave i .committed).holder = some j).mpr ⟨?_, fun j hj ↦ ?_⟩
    · simp [holder_leave, Phase.holds]
    · simp [holder_leave, hj, h.holder j]
  · exact (Function.forall_update_iff w.phase fun j phase ↦
      Knows x (calls j) st.data phase).mpr
        ⟨trivial, fun j hj ↦ (h.knows j).of_not_holds (hother j hj)⟩

variable [TextEngine]

/-- The merged row goes to the row that is locked. -/
theorem replacedBy_of_write {c : Call} {st : Cache.State Database} {data : Dict} {db : Database}
    (hnames : x.NamesApart) (hsame : x.SameText) (hc : x.AsksForItself c) (hkeys : x.Keys db)
    (hmerged : Merged x c db data)
    (h : x.D.update db x.s data (Resource.ID ⟨x.s, data⟩) = .ok st.data) :
    ∃ row resource, x.ReplacedBy c db row resource st.data := by
  obtain ⟨row, resource, merged, ⟨hunder, hscope, hread⟩, hvalid, hchecked, hmerge, rfl⟩ := hmerged
  obtain ⟨text, htext, heq⟩ :=
    get_id_of_read hnames (hc hvalid) hkeys hunder hscope hread hmerge
  have hID : Resource.ID ⟨x.s, newResource x.s merged⟩ = text := by
    rw [Resource.ID]
    simp only [htext]
  have hrows : x.D.update db x.s (newResource x.s merged) text =
      x.D.update db x.s (newResource x.s merged) x.resourceID := by
    refine DB.update_congr fun old hold ↦ ?_
    obtain ⟨value, hvalue⟩ := hkeys.text old hold
    rw [hvalue]
    exact eq_iff_of_same hsame heq value
  rw [hID, hrows] at h
  exact ⟨row, resource, hvalid, hunder, hscope, hread, fun key hkey hparent ↦
    get_of_lockedAs hnames hread hkey (hparent.imp_right .inl), hchecked, merged, hmerge, h⟩

/-- **A step keeps the invariant.** -/
theorem inv_turn (hlocks : DB.locksRow x.s "update" = true) (hsame : x.SameText)
    (hnames : x.NamesApart) (hcalls : ∀ i, x.AsksForItself (calls i))
    (h : Inv x calls db₀ w) : Inv x calls db₀ (x.turn calls w i) := by
  have hknows := h.knows i
  rw [Site.turn]
  split
  · next hphase =>
    split
    · next st hst =>
      refine h.set (by rw [hphase]; rfl) (by rw [hphase]; rfl) ?_
      exact nothingLocked_of_exists hst
    · exact h.rollback (by rw [hphase]; rfl) (.inr rfl)
  · next st hphase =>
    rw [hphase] at hknows
    split
    · exact h
    · next hfree =>
      have hfree : w.holder = none := by simpa using hfree
      split
      · next resource st' hfetch =>
        refine h.grant hfree (by rw [hphase]; rfl) rfl ?_
        refine lockedAs_of_fetchForUpdate hlocks ?_ ?_ hfetch
        · exact h.keys.keyed
        · exact hknows
      · exact h.rollback (by rw [hphase]; rfl) (.inr rfl)
  · next st resource hphase =>
    rw [hphase] at hknows
    split
    · next data hmerge =>
      refine h.set (by rw [hphase]; rfl) (by rw [hphase]; rfl) ?_
      obtain ⟨row, hlocked⟩ := hknows
      obtain ⟨hvalid, hchecked, merged, hmerged, hdata⟩ := of_merge hmerge
      exact ⟨row, resource, merged, hlocked, hvalid, hchecked, hmerged, hdata⟩
    · exact h.rollback (by rw [hphase]; rfl) (.inr rfl)
  · next st data hphase =>
    rw [hphase] at hknows
    split
    · next st' hwrite =>
      refine h.set (by rw [hphase]; rfl) (by rw [hphase]; rfl) ?_
      exact replacedBy_of_write hnames hsame (hcalls i) h.keys hknows (update_of_write hwrite)
    · exact h.rollback (by rw [hphase]; rfl) (.inr rfl)
  · next st hphase => exact h.commit hnames (hcalls i) hphase
  · exact h
  · exact h

theorem inv_step (hlocks : DB.locksRow x.s "update" = true) (hsame : x.SameText)
    (hnames : x.NamesApart) (hcalls : ∀ i, x.AsksForItself (calls i))
    (h : Inv x calls db₀ w) (a : Act ι) : Inv x calls db₀ (x.step calls w a) := by
  cases a with
  | turn i => exact inv_turn hlocks hsame hnames hcalls h
  | abort i =>
    rw [Site.step]
    split
    · exact h
    · exact h
    · exact h
    · next hidle hcommitted hfailed =>
      refine h.rollback ?_ (.inl rfl)
      cases hphase : w.phase i with
      | committed => exact absurd hphase hcommitted
      | _ => rfl

omit [DecidableEq ι] [TextEngine] in
theorem inv_start (hkeys : x.Keys db₀) : Inv x calls db₀ { db := db₀ } where
  keys := hkeys
  granted := ⟨[], rfl, fun i ↦ by simp [Phase.isCommitted], rfl⟩
  holder i := by simp [Phase.holds]
  knows _ := trivial

omit [DecidableEq ι] [TextEngine] in
/-- What the invariant says about lost updates. -/
theorem Inv.noLostUpdate (hnames : x.NamesApart) (hcalls : ∀ i, x.AsksForItself (calls i))
    (hkeys : x.Keys db₀) (h : Inv x calls db₀ w) :
    x.NoLostUpdate calls db₀ w := by
  obtain ⟨done, hdone, hgranted⟩ := h.committed_eq
  constructor
  · rw [hdone]
    exact hgranted.serial
  · intro done i todo _ hne before after row resource hbefore hstep key path hkey hsets new hnew
    exact hstep.kept hnames (hcalls i hstep.valid) (hbefore.keys hnames hcalls hkeys)
      (hbefore.parented hnames hcalls hne hkeys) hkey hsets hnew

/-- **No update is lost.**  Let updates lock the row, let the identifiers be texts, which the
database compares by an equivalence, and the resource's be that of one row at most.  If no valid
request names another resource than its own, and no related resource goes by the name of a property,
then in every state of every run, of any number of calls: the row is the result of merging the
committed requests one after another, in the order in which their locks were granted, each checked
against the row that it has replaced; and what a request does not set is what the ones before have
made of it. -/
theorem noLostUpdate_of_ordinary (hlocks : DB.locksRow x.s "update" = true) (hsame : x.SameText)
    (hkeys : x.Keys db₀) (hnames : x.NamesApart) (hcalls : ∀ i, x.AsksForItself (calls i))
    (acts : List (Act ι)) :
    ∀ w ∈ Machine.states (x.step calls) { db := db₀ } acts, x.NoLostUpdate calls db₀ w := by
  have hinv : ∀ w ∈ Machine.states (x.step calls) { db := db₀ } acts, Inv x calls db₀ w := by
    refine Machine.invariant_of_along (fun w a h (_ : True) ↦ ?_) (inv_start hkeys)
      (Machine.along_of_forall fun _ _ _ ↦ trivial)
    exact inv_step hlocks hsame hnames hcalls h a
  exact fun w hw ↦ (hinv w hw).noLostUpdate hnames hcalls hkeys

end Invariant

/-! ## Two servers -/

/-- Servers, with the row locked when one is updated. -/
def lockedServers : Schema :=
  { serverSchema with
    metadata := GoMap.ofList [("locking_policy", .map [("update", .str "skip_related")])] }

/-- The first of two servers. -/
def firstServer (policy : Policy) : Site where
  D := { schemas := [lockedServers], server := exactServer, policies := [policy] }
  s := lockedServers
  resourceID := "s1"
  hash _ := 0
  isCached := true

/-- A call that nothing else refuses. -/
def smoothCall (policy : Policy) (dataMap : Dict) : Call where
  auth := member
  policy
  dataMap
  validate _ := .ok ()
  attachments _ _ _ := .ok ()
  preUpdateInTransaction _ := .ok ()
  execute _ := .ok ()
  postUpdateInTransaction _ := .ok ()

/-- One call takes the server down, the other one gives it away. -/
def downAndAway (policy : Policy) : Bool → Call
  | false => smoothCall policy (GoMap.ofList [("state", .str "DOWN")])
  | true => smoothCall policy (GoMap.ofList [(tenantIDKey, .str "acme-2")])

omit [RegexpEngine] in
theorem noLostUpdate_downAndAway : letI := Re2.engine; letI := placeholders
    ∃ policy, newPolicy (upForPolicy actionDelete) = .ok policy ∧
      ∀ w ∈ Machine.states ((firstServer policy).step (downAndAway policy)) { db := twoServers }
          [.turn false, .turn true, .turn false, .turn true, .turn false, .turn false, .turn false,
            .turn true, .turn true, .turn true, .turn true],
        (firstServer policy).NoLostUpdate (downAndAway policy) twoServers w := by
  let _ := Re2.engine
  let _ := placeholders
  obtain ⟨policy, hpolicy, hkeyed⟩ : ∃ policy, newPolicy (upForPolicy actionDelete) = .ok policy ∧
      (firstServer policy).D.Keyed lockedServers "s1" twoServers :=
    Go.exists_of_map_decide (by decide +kernel)
  refine ⟨policy, hpolicy, noLostUpdate_of_ordinary (by rfl) ?_ ⟨?_, hkeyed⟩ ?_ ?_ _⟩
  · have hsame (a b : String) : (firstServer policy).D.server.eq (.str a) (.str b) = .tt ↔ a = b :=
      exactStrings_exactEngine.eq_str a b
    exact ⟨fun a ↦ (hsame a a).mpr rfl, fun h ↦ (hsame _ _).mpr ((hsame _ _).mp h).symm,
      fun h h' ↦ (hsame _ _).mpr (((hsame _ _).mp h).trans ((hsame _ _).mp h'))⟩
  · intro row hrow
    rcases List.mem_cons.mp hrow with rfl | hrow
    · exact ⟨"s1", rfl⟩
    · obtain rfl := List.mem_singleton.mp hrow
      exact ⟨"s2", rfl⟩
  · intro hrelated
    cases hrelated
  · intro i _ value hvalue
    cases i <;> cases hvalue

/-- One call gives the server the identifier of the other one, the other call does nothing. -/
def renamed (policy : Policy) : Bool → Call
  | false => smoothCall policy (GoMap.ofList [("id", .str "s2")])
  | true => smoothCall policy ∅

omit [RegexpEngine] in
/-- A request for the first server with the identifier of the second.  The first server is locked,
and stays as it is; the second one, which is not locked, is overwritten with the data of the
first. -/
theorem not_noLostUpdate : letI := Re2.engine; letI := placeholders
    ∃ policy, newPolicy (upForPolicy actionDelete) = .ok policy ∧
      DB.locksRow lockedServers "update" = true ∧
      ∃ w ∈ Machine.states ((firstServer policy).step (renamed policy)) { db := twoServers }
          [.turn false, .turn false, .turn false, .turn false, .turn false],
        ¬ (firstServer policy).NoLostUpdate (renamed policy) twoServers w := by
  let _ := Re2.engine
  let _ := placeholders
  obtain ⟨policy, hpolicy, hcommitted, hfirst⟩ : ∃ policy,
      newPolicy (upForPolicy actionDelete) = .ok policy ∧
      (Machine.final ((firstServer policy).step (renamed policy)) { db := twoServers }
        [.turn false, .turn false, .turn false, .turn false, .turn false]).committed = [false] ∧
      upServer ∈ ((Machine.final ((firstServer policy).step (renamed policy)) { db := twoServers }
        [.turn false, .turn false, .turn false, .turn false, .turn false]).db "servers").rows :=
    Go.exists_of_map_decide (by decide +kernel)
  refine ⟨policy, hpolicy, by rfl, _, Machine.final_mem_states _ _, fun h ↦ ?_⟩
  have hserial := h.serial
  rw [hcommitted] at hserial
  obtain ⟨row, resource, mid, hstep, hmid⟩ := hserial
  rw [show _ = mid from hmid] at hfirst
  -- Merged one by one, no row would have the first identifier any more.
  obtain ⟨data, hmerge, hwrite⟩ := hstep.written
  have hdata : data.get "id" = .str "s2" := get_cloneWithUpdate hmerge rfl
  have hrows : (mid "servers").rows = (twoServers "servers").rows.map fun row ↦
      if exactEngine.eq (row.get "id") (.str "s1") = .tt then updateRow lockedServers data row
      else row := DB.rows_update hwrite
  rw [hrows] at hfirst
  obtain ⟨old, hold, hnew⟩ := List.mem_map.mp hfirst
  split at hnew
  · have hid := congrArg (GoMap.get · "id") hnew
    simp only [get_updateRow_id] at hid
    rw [get_setColumns_of_some (lookup_of_get_eq_str hdata), if_pos (by decide)] at hid
    exact absurd hid (by decide)
  · next hother =>
    subst hnew
    exact hother (by rfl)

end Gohan.UpdateRace
