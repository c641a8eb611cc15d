import Gohan.Logic.Machine
import Gohan.Server.Delete
import Gohan.Server.FilterAgreement

/-!
# A deletion and another client

`DeleteResource` asks the policy twice.  In a transaction of its own it fetches the resource within
the whole filter of the policy, which decides what the caller is told; then the deleting transaction
locks the row, within the tenants and domains of the policy, holds the property conditions against
it and deletes it.  The `and` and `or` blocks of the policy are in the first filter only.

Here another client commits a change of the row at some point.  Once the row is locked the change
has to wait for the end of the deletion, so it comes before the check, between the check and the
lock, or too late to matter.  In two of these cases the row that is removed is the row that was
checked, and meets the blocks; between check and lock nothing of the kind is looked at again.
`removesAsFiltered_iff` says when the row that is removed meets the policy all the same.
-/

set_option autoImplicit false

namespace Gohan.DeleteRace

variable [RegexpEngine]

/-! ## The check -/

/-- The path of one resource, under which its policy is looked up. -/
def singlePath (s : Schema) (resourceID : String) : String :=
  String.ofList (replaceFirst ":id".toList resourceID.toList s.getSingleURL.toList)

/-- `fetchResourceForAction`, with the policy it leaves in the context. -/
def fetchResourceForAction (D : Deployment) (db : Database) (auth : Authorization)
    (resourceID : String) (s : Schema) (action : String) : Go (Policy × Dict) := do
  let policy ← loadPolicy D action (singlePath s resourceID) auth
  let filter ← getFilterFromPolicy auth resourceID s policy action
  let resource ← D.fetch db s filter
  .ok (policy, resource)

/-- `fetchResource`.  What the caller may not delete is looked for once more, to tell by the status
of the answer whether it can be read. -/
def fetchResource (D : Deployment) (db : Database) (auth : Authorization) (resourceID : String)
    (s : Schema) : Go (Policy × Dict) :=
  match fetchResourceForAction D db auth resourceID s actionDelete with
  | .ok found => .ok found
  | .error fault =>
    if fault = errResourceNotFound then do
      let _ ← fetchResourceForAction D db auth resourceID s actionRead
      .error fault
    else .error fault

/-! ## The deletion and the other client -/

/-- The handlers of the schema's extensions and the database.  Up to the removal they may refuse;
what they do afterwards is up to them.  The handlers of `post_delete` come after the transaction,
and are left out. -/
structure DeleteHandlers where
  preDelete : Go Unit
  preDeleteInTransaction : Dict → Go Unit
  execute : Database → Go Unit
  postDeleteInTransaction : Dict → Database → Go Database

/-- Handlers that leave the database alone before the row is deleted. -/
def DeleteHandlers.environment (handlers : DeleteHandlers) : DeleteEnvironment where
  preDelete resource db := do
    handlers.preDeleteInTransaction resource
    .ok db
  execute := handlers.execute
  postDelete := handlers.postDeleteInTransaction

/-- What is left to do when the row has been locked and passed the check. -/
def removeLocked (D : Deployment) (environment : DeleteEnvironment) (s : Schema)
    (resourceID : String) (resource : Dict) (db : Database) : Go Database := do
  let db ← environment.preDelete resource db
  environment.execute db
  environment.postDelete resource (D.delete db s resourceID)

/-- **The deleting transaction** locks and checks, and removes. -/
theorem deleteResourceInTransaction_eq (D : Deployment) (environment : DeleteEnvironment)
    (auth : Authorization) (policy : Policy) (s : Schema) (resourceID : String) (db : Database) :
    deleteResourceInTransaction D (some environment) auth policy s resourceID db =
      checkDeletion D auth policy s resourceID db >>= fun resource ↦
        removeLocked D environment s resourceID resource db := rfl

/-- A call of `DeleteResource`. -/
structure Call where
  D : Deployment
  handlers : DeleteHandlers
  auth : Authorization
  s : Schema
  resourceID : String
  /-- The orders in which the matches of the property conditions are visited. -/
  visits : GoMap (List (List (String × Value)))
  /-- What the other client makes of the database. -/
  change : Database → Database

/-- How far the call has come.  `locked` is after the `LockFetch`, or the `Fetch` in its place. -/
inductive Progress where
  | started
  | checked (policy : Policy)
  | locked (policy : Policy) (resource : Dict)
  | ended

/-- What was removed: the rows under the identifier, as they were in this database. -/
structure Removal where
  policy : Policy
  db : Database

/-- The database, and how far the two clients have come. -/
structure State where
  db : Database
  progress : Progress := .started
  /-- The other client waits for the lock. -/
  waiting : Bool := false
  /-- For the record. -/
  removal : Option Removal := none

/-- A step of one of the two clients. -/
inductive Step where
  | check
  | lock
  | remove
  /-- The other client commits, or tries to. -/
  | commit
  deriving DecidableEq

namespace Call

variable (c : Call)

/-- The row is locked. -/
def holds : Progress → Bool
  | .locked _ _ => DB.locksRow c.s "delete"
  | _ => false

/-- What comes before the deleting transaction. -/
def check (db : Database) : Go Policy := do
  c.handlers.preDelete
  let (policy, _) ← fetchResource c.D db c.auth c.resourceID c.s
  .ok policy

/-- Lock the row and hold the property conditions against it. -/
def lock (policy : Policy) (db : Database) : Go Dict :=
  checkDeletion c.D c.auth (policy.visiting c.visits) c.s c.resourceID db

/-- The call removes the resource that it has locked. -/
def remove (resource : Dict) (db : Database) : Go Database :=
  removeLocked c.D c.handlers.environment c.s c.resourceID resource db

/-- The end of the transaction, and the change that has waited for it. -/
def release (σ : State) : State :=
  if σ.waiting then { σ with progress := .ended, db := c.change σ.db, waiting := false }
  else { σ with progress := .ended }

/-- One step. -/
def step (σ : State) : Step → State
  | .check =>
    match σ.progress with
    | .started =>
      match c.check σ.db with
      | .ok policy => { σ with progress := .checked policy }
      | .error _ => { σ with progress := .ended }
    | _ => σ
  | .lock =>
    match σ.progress with
    | .checked policy =>
      match c.lock policy σ.db with
      | .ok resource => { σ with progress := .locked policy resource }
      | .error _ => { σ with progress := .ended }
    | _ => σ
  | .remove =>
    match σ.progress with
    | .locked policy resource =>
      match c.remove resource σ.db with
      | .ok db => c.release { σ with db, removal := some ⟨policy, σ.db⟩ }
      | .error _ => c.release σ
    | _ => σ
  | .commit =>
    if c.holds σ.progress then { σ with waiting := true } else { σ with db := c.change σ.db }

/-- The end of the steps of a call, with the commit of the other client somewhere among them. -/
def run (before after : List Step) (db : Database) : State :=
  Machine.final c.step { db } (before ++ .commit :: after)

end Call

/-- The steps of a call. -/
def deletion : List Step := [.check, .lock, .remove]

/-! ## What a deletion may remove -/

/-- The row passes the clause of the policy for deleting: its tenants, its domains and its
blocks. -/
def PassesFilter (D : Deployment) (auth : Authorization) (policy : Policy) (s : Schema)
    (resourceID : String) (row : Dict) : Prop :=
  ∃ filter, getFilterFromPolicy auth resourceID s policy actionDelete = .ok filter ∧
    D.Filtered s filter row

/-- The row meets the complete filter of the policy for deleting, the property conditions
included. -/
structure MeetsPolicy (D : Deployment) (auth : Authorization) (policy : Policy) (s : Schema)
    (resourceID : String) (db : Database) (row : Dict) : Prop where
  filter : PassesFilter D auth policy s resourceID row
  conditions : ∃ resource, D.LockedAs s "delete" db row resource ∧
    policy.currentResourceCondition.EveryKeyHolds Admits actionDelete resource none

/-- Whatever the handlers do and in whatever order the matches are visited, each row the deletion
removes meets, when it is removed, the policy. -/
def RemovesAsFiltered (D : Deployment) (auth : Authorization) (s : Schema) (resourceID : String)
    (change : Database → Database) (before after : List Step) (db : Database) : Prop :=
  ∀ handlers visits, (∀ policy, loadPolicy D actionDelete (singlePath s resourceID) auth =
      .ok policy → policy.MayVisit visits) → ∀ removal,
    (Call.run ⟨D, handlers, auth, s, resourceID, visits, change⟩ before after db).removal =
        some removal → ∀ row ∈ D.rowsUnder removal.db s resourceID,
      MeetsPolicy D auth removal.policy s resourceID removal.db row

/-! ## The runs -/

/-- The database that the check sees. -/
def atCheck (change : Database → Database) (before : List Step) (db : Database) : Database :=
  if .check ∈ before then db else change db

/-- The database in which the row is locked. -/
def atLock (change : Database → Database) (before : List Step) (db : Database) : Database :=
  if .lock ∈ before then db else change db

namespace Call

variable {c : Call} {σ : State} {before after : List Step} {db : Database}

/-- When the call has ended nothing is removed any more. -/
theorem removal_of_ended {steps : List Step} (h : σ.progress = .ended) :
    (Machine.final c.step σ steps).removal = σ.removal := by
  induction steps generalizing σ with
  | nil => rfl
  | cons s steps ih =>
    have hstep : (c.step σ s).progress = .ended ∧ (c.step σ s).removal = σ.removal := by
      cases s <;> simp [step, h, holds]
    exact (ih hstep.1).trans hstep.2

/-- Removing the row that is locked, whether or not the other client waits. -/
theorem removal_of_locked {steps : List Step} (hlocks : DB.locksRow c.s "delete" = true)
    (hsteps : steps ∈ [[.remove], [.commit, .remove], [.remove, .commit]]) {policy : Policy}
    {resource : Dict} {removal : Removal} :
    (Machine.final c.step ⟨db, .locked policy resource, false, none⟩ steps).removal =
        some removal ↔ ∃ db', c.remove resource db = .ok db' ∧ removal = ⟨policy, db⟩ := by
  simp only [List.mem_cons, List.not_mem_nil, or_false] at hsteps
  rcases hsteps with rfl | rfl | rfl <;> cases hremove : c.remove resource db <;>
    simp [Machine.final, step, holds, hlocks, hremove, release, eq_comm]

/-- From the end of the check on: the other client is before the lock, or behind it. -/
theorem removal_of_checked {steps : List Step} (hlocks : DB.locksRow c.s "delete" = true)
    (hsteps : steps ∈ [[.lock, .remove], [.commit, .lock, .remove], [.lock, .commit, .remove],
      [.lock, .remove, .commit]]) {policy : Policy} {removal : Removal} :
    (Machine.final c.step ⟨db, .checked policy, false, none⟩ steps).removal = some removal ↔
      ∃ dbLock resource db', dbLock = (if steps.head? = some .commit then c.change db else db) ∧
        c.lock policy dbLock = .ok resource ∧ c.remove resource dbLock = .ok db' ∧
          removal = ⟨policy, dbLock⟩ := by
  have hlock : ∀ db rest, rest ∈ [[.remove], [.commit, .remove], [.remove, .commit]] →
      ((Machine.final c.step ⟨db, .checked policy, false, none⟩ (.lock :: rest)).removal =
        some removal ↔ ∃ resource db', c.lock policy db = .ok resource ∧
          c.remove resource db = .ok db' ∧ removal = ⟨policy, db⟩) := by
    intro db rest hrest
    have hcons : Machine.final c.step ⟨db, .checked policy, false, none⟩ (.lock :: rest) =
      Machine.final c.step (c.step ⟨db, .checked policy, false, none⟩ .lock) rest := rfl
    rw [hcons]
    cases hlock : c.lock policy db with
    | error e =>
      have hstep : c.step ⟨db, .checked policy, false, none⟩ .lock = ⟨db, .ended, false, none⟩ := by
        simp [step, hlock]
      rw [hstep, removal_of_ended rfl]
      simp
    | ok resource =>
      have hstep : c.step ⟨db, .checked policy, false, none⟩ .lock =
          ⟨db, .locked policy resource, false, none⟩ := by simp [step, hlock]
      rw [hstep, removal_of_locked hlocks hrest]
      simp
  simp only [List.mem_cons, List.not_mem_nil, or_false] at hsteps
  rcases hsteps with rfl | rfl | rfl | rfl
  · rw [hlock db _ (by simp)]
    simp
  · have hcons : Machine.final c.step ⟨db, .checked policy, false, none⟩
        [.commit, .lock, .remove] =
          Machine.final c.step ⟨c.change db, .checked policy, false, none⟩ [.lock, .remove] := rfl
    rw [hcons, hlock _ _ (by simp)]
    simp
  · rw [hlock db _ (by simp)]
    simp
  · rw [hlock db _ (by simp)]
    simp

/-- **What a call removes.**  The check is made in one database and the lock taken in one, which
may be another, and the removal is from that. -/
theorem removal_run (hlocks : DB.locksRow c.s "delete" = true) (hsteps : before ++ after = deletion)
    {removal : Removal} : (c.run before after db).removal = some removal ↔
      ∃ policy resource db', c.check (atCheck c.change before db) = .ok policy ∧
        c.lock policy (atLock c.change before db) = .ok resource ∧
          c.remove resource (atLock c.change before db) = .ok db' ∧
            removal = ⟨policy, atLock c.change before db⟩ := by
  -- From the check on, whatever comes before it.
  have hcheck : ∀ db rest, rest ∈ [[.lock, .remove], [.commit, .lock, .remove],
      [.lock, .commit, .remove], [.lock, .remove, .commit]] →
        ((Machine.final c.step { db } (.check :: rest)).removal = some removal ↔
          ∃ policy dbLock resource db', c.check db = .ok policy ∧
            dbLock = (if rest.head? = some .commit then c.change db else db) ∧
              c.lock policy dbLock = .ok resource ∧ c.remove resource dbLock = .ok db' ∧
                removal = ⟨policy, dbLock⟩) := by
    intro db rest hrest
    have hcons : Machine.final c.step { db } (.check :: rest) =
      Machine.final c.step (c.step { db } .check) rest := rfl
    rw [hcons]
    cases hcheck : c.check db with
    | error e =>
      have hstep : c.step { db } .check = ⟨db, .ended, false, none⟩ := by simp [step, hcheck]
      rw [hstep, removal_of_ended rfl]
      simp
    | ok policy =>
      have hstep : c.step { db } .check = ⟨db, .checked policy, false, none⟩ := by
        simp [step, hcheck]
      rw [hstep, removal_of_checked hlocks hrest]
      simp
  rw [deletion] at hsteps
  rw [run]
  rcases List.append_eq_cons_iff.mp hsteps with ⟨rfl, rfl⟩ | ⟨before, rfl, hlater⟩
  · have hcons : Machine.final c.step { db } ([] ++ [.commit, .check, .lock, .remove]) =
      Machine.final c.step { db := c.change db } [.check, .lock, .remove] := rfl
    rw [hcons, hcheck _ _ (by simp)]
    simp [atCheck, atLock]
  rw [List.cons_append]
  rcases List.append_eq_cons_iff.mp hlater.symm with ⟨rfl, rfl⟩ | ⟨before, rfl, hlast⟩
  · rw [List.nil_append, hcheck _ _ (by simp)]
    simp [atCheck, atLock]
  rcases List.append_eq_cons_iff.mp hlast.symm with ⟨rfl, rfl⟩ | ⟨before, rfl, hend⟩
  · rw [List.singleton_append, hcheck _ _ (by simp)]
    simp [atCheck, atLock]
  obtain ⟨rfl, rfl⟩ := List.append_eq_nil_iff.mp hend.symm
  rw [List.cons_append, List.singleton_append, hcheck _ _ (by simp)]
  simp [atCheck, atLock]

end Call

/-! ## Check and lock, row by row -/

/-- The tenants and domains that a deletion is held to under the lock. -/
def deletionScope (auth : Authorization) (policy : Policy) (s : Schema) (resourceID : String) :
    GoMap FilterVal :=
  extendFilterByTenantAndDomain s ((∅ : GoMap FilterVal).insert "id" (.value (.str resourceID)))
    actionDelete policy.currentResourceCondition auth

variable {D : Deployment} {auth : Authorization} {policy : Policy} {s : Schema}
  {resourceID : String} {db : Database} {resource : Dict}

theorem fetchResource_eq_ok {found : Policy × Dict} :
    fetchResource D db auth resourceID s = .ok found ↔
      fetchResourceForAction D db auth resourceID s actionDelete = .ok found := by
  rw [fetchResource]
  split
  · next h => rw [h]
  · next fault h =>
    rw [h]
    refine iff_of_false (fun hok ↦ ?_) (fun hok ↦ by cases hok)
    split at hok
    · obtain ⟨_, -, herr⟩ := Go.bind_eq_ok.mp hok
      cases herr
    · cases hok

/-- The check passes when there is a row that meets the clause of the policy. -/
theorem exists_fetchResource_iff (hkeyed : D.Keyed s resourceID db) :
    (∃ resource, fetchResource D db auth resourceID s = .ok (policy, resource)) ↔
      loadPolicy D actionDelete (singlePath s resourceID) auth = .ok policy ∧
        ∃ row ∈ D.rowsUnder db s resourceID, PassesFilter D auth policy s resourceID row := by
  simp only [fetchResource_eq_ok, fetchResourceForAction, Go.bind_eq_ok, Except.ok.injEq,
    Prod.mk.injEq]
  constructor
  · rintro ⟨resource, policy, hpolicy, filter, hfilter, resource, hfetch, rfl, rfl⟩
    obtain ⟨row, hunder, hpass, -⟩ :=
      (DB.fetch_eq_ok hkeyed (asksFor_of_getFilterFromPolicy hfilter)).mp hfetch
    exact ⟨hpolicy, row, hunder, filter, hfilter, hpass⟩
  · rintro ⟨hpolicy, row, hunder, filter, hfilter, hpass⟩
    obtain ⟨resource, hresource⟩ := DB.exists_rowResource D.toDB db s row
    exact ⟨resource, policy, hpolicy, filter, hfilter, resource,
      (DB.fetch_eq_ok hkeyed (asksFor_of_getFilterFromPolicy hfilter)).mpr
        ⟨row, hunder, hpass, hresource⟩, rfl, rfl⟩

/-- What a deletion reads under the lock. -/
theorem fetchForDeletion_eq_ok (hlocks : DB.locksRow s "delete" = true)
    (hkeyed : D.Keyed s resourceID db) :
    fetchForDeletion D auth policy s resourceID db = .ok resource ↔
      ∃ row ∈ D.rowsUnder db s resourceID,
        D.Filtered s (deletionScope auth policy s resourceID) row ∧
          D.LockedAs s "delete" db row resource := by
  have hscope : AsksFor (deletionScope auth policy s resourceID) resourceID := asksFor_scope
  rw [fetchForDeletion]
  rw [DB.locksRow] at hlocks
  split at hlocks
  · next hpolicy =>
    rw [hpolicy, Go.ok_bind]
    simp only [DB.lockedAs_iff hpolicy rfl]
    exact DB.lockFetch_eq_ok (by rfl) hkeyed hscope
  · next hpolicy =>
    rw [hpolicy, Go.ok_bind]
    simp only [DB.lockedAs_iff hpolicy rfl]
    exact DB.lockFetch_eq_ok (by rfl) hkeyed hscope
  · cases hlocks

/-! ## When the removed row meets the policy -/

/-- A row that gets as far as to be removed: the check finds a row in its database; in that of the
lock this one is within the tenants and domains, and there is an order of the matches in which the
property conditions for updating accept it. -/
structure Reaches (D : Deployment) (auth : Authorization) (policy : Policy) (s : Schema)
    (resourceID : String) (dbCheck dbLock : Database) (row resource : Dict) : Prop where
  loaded : loadPolicy D actionDelete (singlePath s resourceID) auth = .ok policy
  checked : ∃ row ∈ D.rowsUnder dbCheck s resourceID, PassesFilter D auth policy s resourceID row
  under : row ∈ D.rowsUnder dbLock s resourceID
  scope : D.Filtered s (deletionScope auth policy s resourceID) row
  locked : D.LockedAs s "delete" dbLock row resource
  accepted : ¬ policy.currentResourceCondition.HasDecisiveRejection actionUpdate resource none

/-- What the other client makes of such a row between the check and the lock still passes the clause
of the policy, and what the property conditions for updating accept those for deleting admit. -/
def StaysWithin (D : Deployment) (auth : Authorization) (s : Schema) (resourceID : String)
    (change : Database → Database) (before : List Step) (db : Database) : Prop :=
  ∀ policy row resource, Reaches D auth policy s resourceID (atCheck change before db)
      (atLock change before db) row resource →
    (before = [.check] → PassesFilter D auth policy s resourceID row) ∧
      policy.currentResourceCondition.EveryKeyHolds Admits actionDelete resource none

/-- Handlers that refuse nothing. -/
def DeleteHandlers.smooth : DeleteHandlers where
  preDelete := .ok ()
  preDeleteInTransaction _ := .ok ()
  execute _ := .ok ()
  postDeleteInTransaction _ db := .ok db

variable {change : Database → Database} {before after : List Step}

omit [RegexpEngine] in
/-- Only a commit between the two is seen by the lock and not by the check. -/
theorem atLock_eq_atCheck (hsteps : before ++ after = deletion) (hbetween : before ≠ [.check]) :
    atLock change before db = atCheck change before db := by
  rcases List.append_eq_cons_iff.mp hsteps with ⟨rfl, -⟩ | ⟨before, rfl, hlater⟩
  · rfl
  rcases List.append_eq_cons_iff.mp hlater.symm with ⟨rfl, -⟩ | ⟨before, rfl, -⟩
  · exact absurd rfl hbetween
  · simp [atLock, atCheck]

theorem keyed_atCheck (hdb : D.Keyed s resourceID db) (hchange : D.Keyed s resourceID (change db)) :
    D.Keyed s resourceID (atCheck change before db) := by
  rw [atCheck]
  split <;> assumption

theorem keyed_atLock (hdb : D.Keyed s resourceID db) (hchange : D.Keyed s resourceID (change db)) :
    D.Keyed s resourceID (atLock change before db) := by
  rw [atLock]
  split <;> assumption

/-- A deletion that passes check and lock removes the row, if no handler refuses. -/
theorem RemovesAsFiltered.meets (h : RemovesAsFiltered D auth s resourceID change before after db)
    (hlocks : DB.locksRow s "delete" = true) (hsteps : before ++ after = deletion)
    {found : Dict} (hfound : fetchResource D (atCheck change before db) auth resourceID s =
      .ok (policy, found))
    (hfetch : fetchForDeletion D auth policy s resourceID (atLock change before db) = .ok resource)
    {visits : GoMap (List (List (String × Value)))} (hvisits : policy.MayVisit visits)
    (haccepted : applyFilters resource none (visits.getSlice actionUpdate) = .ok ()) {row : Dict}
    (hunder : row ∈ D.rowsUnder (atLock change before db) s resourceID) :
    MeetsPolicy D auth policy s resourceID (atLock change before db) row := by
  have hloaded : loadPolicy D actionDelete (singlePath s resourceID) auth = .ok policy := by
    obtain ⟨_, hpolicy, hrest⟩ := Go.bind_eq_ok.mp (fetchResource_eq_ok.mp hfound)
    obtain ⟨_, -, hrest⟩ := Go.bind_eq_ok.mp hrest
    obtain ⟨_, -, ⟨⟩⟩ := Go.bind_eq_ok.mp hrest
    exact hpolicy
  have hrun := (Call.removal_run (c := ⟨D, .smooth, auth, s, resourceID, visits, change⟩) hlocks
    hsteps).mpr ⟨policy, resource, D.delete (atLock change before db) s resourceID,
      Go.bind_eq_ok.mpr ⟨(), rfl, Go.bind_eq_ok.mpr ⟨_, hfound, rfl⟩⟩,
      checkDeletion_eq_ok.mpr ⟨hfetch, haccepted⟩, rfl, rfl⟩
  refine h .smooth visits (fun policy' hpolicy' ↦ ?_) _ hrun row hunder
  cases hloaded.symm.trans hpolicy'
  exact hvisits

/-- **When the row that is removed meets the policy.**  Let deletions lock the row, and let the
identifier be a key, before and after the other client's change.  Wherever its commit comes among
the steps of the deletion: each row that is removed meets the complete filter of the policy for
deleting if and only if a change between check and lock does not take it out of the filter unseen,
and the conditions for updating accept nothing that those for deleting do not admit. -/
theorem removesAsFiltered_iff (hlocks : DB.locksRow s "delete" = true)
    (hdb : D.Keyed s resourceID db) (hchange : D.Keyed s resourceID (change db))
    (hsteps : before ++ after = deletion) :
    RemovesAsFiltered D auth s resourceID change before after db ↔
      StaysWithin D auth s resourceID change before db := by
  have hcheckKeyed : D.Keyed s resourceID (atCheck change before db) := keyed_atCheck hdb hchange
  have hlockKeyed : D.Keyed s resourceID (atLock change before db) := keyed_atLock hdb hchange
  constructor
  · intro h policy row resource hreach
    obtain ⟨visits, hvisits, haccepted⟩ : ∃ visits, policy.MayVisit visits ∧
        applyFilters resource none (visits.getSlice actionUpdate) = .ok () := by
      by_contra hnone
      exact hreach.accepted (forall_mayVisit_rejects.mp fun visits hvisits hok ↦
        hnone ⟨visits, hvisits, hok⟩)
    obtain ⟨found, hfound⟩ :=
      (exists_fetchResource_iff hcheckKeyed).mpr ⟨hreach.loaded, hreach.checked⟩
    have hmeets := h.meets hlocks hsteps hfound
      ((fetchForDeletion_eq_ok hlocks hlockKeyed).mpr
        ⟨row, hreach.under, hreach.scope, hreach.locked⟩) hvisits haccepted hreach.under
    refine ⟨fun _ ↦ hmeets.filter, ?_⟩
    obtain ⟨resource', hlocked, hevery⟩ := hmeets.conditions
    rwa [hreach.locked.eq hlocked]
  · intro h handlers visits hvisits removal hrun row hunder
    obtain ⟨policy, resource, db', hcheck, hlock, -, rfl⟩ :=
      (Call.removal_run hlocks hsteps).mp hrun
    obtain ⟨_, -, hcheck⟩ := Go.bind_eq_ok.mp hcheck
    obtain ⟨⟨policy', found⟩, hfound, ⟨⟩⟩ := Go.bind_eq_ok.mp hcheck
    obtain ⟨hloaded, rowCheck, hrowCheck, hpass⟩ :=
      (exists_fetchResource_iff hcheckKeyed).mp ⟨found, hfound⟩
    obtain ⟨hfetch, haccepted⟩ := checkDeletion_eq_ok.mp hlock
    obtain ⟨rowLock, hrowLock, hscope, hlocked⟩ :=
      (fetchForDeletion_eq_ok hlocks hlockKeyed).mp hfetch
    obtain rfl : row = rowLock := hlockKeyed row hunder rowLock hrowLock
    have hreach : Reaches D auth policy s resourceID (atCheck change before db)
        (atLock change before db) row resource :=
      ⟨hloaded, ⟨rowCheck, hrowCheck, hpass⟩, hunder, hscope, hlocked, fun hrejects ↦
        forall_mayVisit_rejects.mpr hrejects visits (hvisits policy hloaded) haccepted⟩
    obtain ⟨hfilter, hevery⟩ := h policy row resource hreach
    refine ⟨?_, resource, hlocked, hevery⟩
    by_cases hbetween : before = [.check]
    · exact hfilter hbetween
    · -- what is locked is what was checked
      rw [atLock_eq_atCheck hsteps hbetween] at hunder
      rwa [hcheckKeyed row hunder rowCheck hrowCheck]

/-! ## A server that is taken down -/

/-- Servers, with the row locked when one is deleted. -/
def lockedServers : Schema :=
  { serverSchema with
    metadata := GoMap.ofList [("locking_policy", .map [("delete", .str "skip_related")])] }

/-- A policy for all actions on the servers that are up. -/
def whileUpPolicy : Value := .map [("id", .str "up"), ("principal", .str "Member"),
  ("action", .str "*"), ("effect", .str "allow"),
  ("resource", .map [("path", .str "/v2.0/servers")]),
  ("condition", .list [.map [("and", .list [.map [("match", .map
    [("property", .str "state"), ("type", .str "eq"), ("value", .str "UP")])]])]])]

/-- A server with one schema, whose rows are locked when they are to be deleted. -/
def lockedDeployment (policy : Policy) : Deployment where
  schemas := [lockedServers]
  server := exactServer
  policies := [policy]

/-- The server that was up. -/
def takenDown : Dict :=
  GoMap.ofList [("id", .str "s1"), (tenantIDKey, .str "acme-1"), ("state", .str "DOWN")]

/-- The other client takes the server down. -/
def takeDown (_ : Database) : Database := fun _ ↦ ⟨[takenDown], by decide⟩

/-- A deployment with one policy finds this one or none. -/
theorem eq_of_loadPolicy {policy' : Policy} {action path : String} (h : D.policies = [policy])
    (hload : loadPolicy D action path auth = .ok policy') : policy' = policy := by
  rw [loadPolicy, h, policyValidate, policyValidateLoop] at hload
  split at hload
  · next hsome =>
    cases hload
    split at hsome
    · split_ifs at hsome
      cases hsome
      rfl
    · cases hsome
  · exact absurd hload (Go.errorf_ne_ok _ _ _)

omit [RegexpEngine] in
theorem deletion_takeDown : letI := Re2.engine
    ∃ policy, newPolicy whileUpPolicy = .ok policy ∧
      (RemovesAsFiltered (lockedDeployment policy) member lockedServers "s1" takeDown [.check]
          [.lock, .remove] oneServer ↔
        StaysWithin (lockedDeployment policy) member lockedServers "s1" takeDown [.check]
          oneServer) := by
  let _ := Re2.engine
  obtain ⟨policy, hpolicy, hdb, hchange⟩ : ∃ policy, newPolicy whileUpPolicy = .ok policy ∧
      (lockedDeployment policy).Keyed lockedServers "s1" oneServer ∧
      (lockedDeployment policy).Keyed lockedServers "s1" (takeDown oneServer) :=
    Go.exists_of_map_decide (by decide +kernel)
  exact ⟨policy, hpolicy, removesAsFiltered_iff (by decide) hdb hchange rfl⟩

omit [RegexpEngine] in
/-- A caller who may delete the servers that are up asks for a deletion.  The server is up when this
is checked, and is taken down before it is locked.  It is removed. -/
theorem not_removesAsFiltered : letI := Re2.engine
    ∃ policy, newPolicy whileUpPolicy = .ok policy ∧ DB.locksRow lockedServers "delete" = true ∧
      ¬ RemovesAsFiltered (lockedDeployment policy) member lockedServers "s1" takeDown [.check]
        [.lock, .remove] oneServer := by
  let _ := Re2.engine
  obtain ⟨policy, hpolicy, hcheck, hlock, hunder, hupdate, hfilter⟩ :
      ∃ policy, newPolicy whileUpPolicy = .ok policy ∧
        (fetchResourceForAction (lockedDeployment policy) oneServer member "s1" lockedServers
          actionDelete).map (·.2) = .ok upServer ∧
        fetchForDeletion (lockedDeployment policy) member policy lockedServers "s1"
          (takeDown oneServer) = .ok takenDown ∧
        takenDown ∈ (lockedDeployment policy).rowsUnder (takeDown oneServer) lockedServers "s1" ∧
        policy.currentResourceCondition.actionPropertyConditionFilter.getSlice actionUpdate = [] ∧
        (getFilterFromPolicy member "s1" lockedServers policy actionDelete >>=
          addFilterToQuery lockedServers).map
            (fun clause ↦ decide (Selects exactEngine clause takenDown)) = .ok false :=
    Go.exists_of_map_decide (by decide +kernel)
  refine ⟨policy, hpolicy, by decide, fun h ↦ ?_⟩
  obtain ⟨⟨policy', found⟩, hfound, -⟩ := Go.map_eq_ok.mp hcheck
  obtain ⟨policy'', hloaded, hrest⟩ := Go.bind_eq_ok.mp hfound
  obtain rfl : policy'' = policy := eq_of_loadPolicy rfl hloaded
  obtain ⟨_, -, hrest⟩ := Go.bind_eq_ok.mp hrest
  obtain ⟨_, -, ⟨⟩⟩ := Go.bind_eq_ok.mp hrest
  have hmeets := h.meets (by decide) rfl (fetchResource_eq_ok.mpr hfound) hlock
    (fun _ ↦ Visit.Orders.refl _) (by rw [hupdate]; rfl) hunder
  obtain ⟨filter, hpolicyFilter, clause, hclause, hsel⟩ := hmeets.filter
  rw [hpolicyFilter, Go.ok_bind, hclause] at hfilter
  exact absurd hsel (of_decide_eq_false (Except.ok.inj hfilter))

end Gohan.DeleteRace
