import Gohan.Server.Noninterference

/-!
# Deleting a resource

A resource is deleted in a transaction: it is fetched within the scope the policy has for deleting,
the property conditions are held against it, the extensions are called, and the row is deleted.

The property conditions of a policy are entered for actions, and each of the operations looks them
up under its own.  This one looks them up under `update`.  `deletesAsRegistered_iff` says what comes
of it: a deletion respects the conditions for deleting exactly where those for updating happen to
decide the resource in the same way.  The matches of a condition are maps, so all of this is over
every order they may be visited in.
-/

set_option autoImplicit false

namespace Gohan

variable [RegexpEngine]

/-- What is around a deletion: the handlers of the schema's extensions, which see the resource and
may use the transaction, and the database, which may refuse the statement. -/
structure DeleteEnvironment where
  preDelete : Dict → Database → Go Database
  execute : Database → Go Unit
  postDelete : Dict → Database → Go Database

/-- The resource to delete, as far as the scope of the policy reaches. -/
def fetchForDeletion (D : Deployment) (auth : Authorization) (policy : Policy) (s : Schema)
    (resourceID : String) (db : Database) : Go Dict := do
  let filter := extendFilterByTenantAndDomain s
    ((∅ : GoMap FilterVal).insert "id" (.value (.str resourceID)))
    actionDelete policy.currentResourceCondition auth
  let lockPolicy ← s.getLockingPolicy "delete"
  match lockPolicy with
  | .noLocking => D.fetch db s filter
  | .lockRelatedResources => D.lockFetch db s filter .lockRelatedResources
  | .skipRelatedResources => D.lockFetch db s filter .skipRelatedResources

/-- Fetch the resource and apply the property filter. -/
def checkDeletion (D : Deployment) (auth : Authorization) (policy : Policy) (s : Schema)
    (resourceID : String) (db : Database) : Go Dict := do
  let resource ← fetchForDeletion D auth policy s resourceID db
  policy.currentResourceCondition.applyPropertyConditionFilter actionUpdate resource none
  .ok resource

/-- `DeleteResourceInTransaction`; the schema may have no environment. -/
def deleteResourceInTransaction (D : Deployment) (environment : Option DeleteEnvironment)
    (auth : Authorization) (policy : Policy) (s : Schema) (resourceID : String) (db : Database) :
    Go Database :=
  match environment with
  | none => .errorf "No environment for schema"
  | some environment => do
    let resource ← checkDeletion D auth policy s resourceID db
    let db ← environment.preDelete resource db
    environment.execute db
    environment.postDelete resource (D.delete db s resourceID)

/-! ## The conditions for deleting -/

/-- A policy whose matches are visited in other orders: its table of matches is another one. -/
def Policy.visiting (policy : Policy) (table : GoMap (List (List (String × Value)))) : Policy :=
  { policy with currentResourceCondition :=
      { policy.currentResourceCondition with actionPropertyConditionFilter := table } }

/-- The table has the matches of the policy, for each action, visited in some order. -/
def Policy.MayVisit (policy : Policy) (table : GoMap (List (List (String × Value)))) : Prop :=
  ∀ action, Visit.Orders
    (policy.currentResourceCondition.actionPropertyConditionFilter.getSlice action)
    (table.getSlice action)

/-- The deletion respects the property conditions, whatever the orders and the environment. -/
structure DeletesAsRegistered (D : Deployment) (auth : Authorization) (policy : Policy)
    (s : Schema) (resourceID : String) (db : Database) : Prop where
  /-- What is deleted is a resource that meets every condition registered for deleting. -/
  removes : ∀ table, policy.MayVisit table → ∀ environment db',
    deleteResourceInTransaction D environment auth (policy.visiting table) s resourceID db =
      .ok db' → ∃ resource, fetchForDeletion D auth policy s resourceID db = .ok resource ∧
        policy.currentResourceCondition.EveryKeyHolds Admits actionDelete resource none
  /-- What is refused is a resource that some condition registered for deleting rejects. -/
  refuses : ∀ table, policy.MayVisit table → ∀ resource,
    fetchForDeletion D auth policy s resourceID db = .ok resource →
      checkDeletion D auth (policy.visiting table) s resourceID db ≠ .ok resource →
        ¬ policy.currentResourceCondition.EveryKeyHolds Passes actionDelete resource none

/-- The conditions for updating decide a resource as those for deleting do. -/
def UpdateDecidesAsDelete (policy : Policy) (resource : Dict) : Prop :=
  (policy.currentResourceCondition.EveryKeyHolds Passes actionDelete resource none →
    policy.currentResourceCondition.EveryKeyHolds Passes actionUpdate resource none) ∧
  (¬ policy.currentResourceCondition.EveryKeyHolds Admits actionDelete resource none →
    policy.currentResourceCondition.HasDecisiveRejection actionUpdate resource none)

/-- An environment in which nothing fails. -/
def DeleteEnvironment.smooth : DeleteEnvironment where
  preDelete _ db := .ok db
  execute _ := .ok ()
  postDelete _ db := .ok db

variable {D : Deployment} {auth : Authorization} {policy : Policy} {s : Schema}
  {resourceID : String} {db : Database} {resource : Dict}

/-- The check is that of the conditions for updating, on the resource that is fetched. -/
theorem checkDeletion_eq_ok {table : GoMap (List (List (String × Value)))} {resource : Dict} :
    checkDeletion D auth (policy.visiting table) s resourceID db = .ok resource ↔
      fetchForDeletion D auth policy s resourceID db = .ok resource ∧
        applyFilters resource none (table.getSlice actionUpdate) = .ok () := by
  have hfetch : fetchForDeletion D auth (policy.visiting table) s resourceID db =
    fetchForDeletion D auth policy s resourceID db := rfl
  rw [checkDeletion, hfetch, Go.bind_eq_ok]
  simp only [Go.andThen_eq_ok, Except.ok.injEq]
  constructor
  · rintro ⟨_, hres, hfilter, rfl⟩
    exact ⟨hres, hfilter⟩
  · rintro ⟨hres, hfilter⟩
    exact ⟨resource, hres, hfilter, rfl⟩

/-- In an environment in which nothing fails, whatever passes the check is deleted. -/
theorem exists_delete_iff {policy : Policy} :
    (∃ environment db', deleteResourceInTransaction D environment auth policy s resourceID db =
      .ok db') ↔ ∃ resource, checkDeletion D auth policy s resourceID db = .ok resource := by
  constructor
  · rintro ⟨environment, db', h⟩
    cases environment with
    | none => exact absurd h (Go.errorf_ne_ok _ _ _)
    | some environment =>
      obtain ⟨resource, hres, -⟩ := Go.bind_eq_ok.mp h
      exact ⟨resource, hres⟩
  · rintro ⟨resource, hres⟩
    refine ⟨some .smooth, D.delete db s resourceID, Go.bind_eq_ok.mpr ⟨resource, hres, rfl⟩⟩

/-- The tables of a policy, for one action, are the orders its matches may be visited in. -/
theorem forall_mayVisit_iff {action : String} {P : List (List (String × Value)) → Prop} :
    (∀ table, policy.MayVisit table → P (table.getSlice action)) ↔
      ∀ visits, Visit.Orders
        (policy.currentResourceCondition.actionPropertyConditionFilter.getSlice action) visits →
          P visits := by
  refine ⟨fun h visits hvisits ↦ ?_, fun h table htable ↦ h _ (htable action)⟩
  have htable : policy.MayVisit
      (policy.currentResourceCondition.actionPropertyConditionFilter.insert action visits) := by
    intro k
    rw [GoMap.getSlice_insert]
    split
    · next hk => rwa [hk]
    · exact Visit.Orders.refl _
  have := h _ htable
  rwa [GoMap.getSlice_insert, if_pos rfl] at this

/-- The check passes in every order exactly when every key for updating does. -/
theorem forall_mayVisit_accepts :
    (∀ table, policy.MayVisit table →
        applyFilters resource none (table.getSlice actionUpdate) = .ok ()) ↔
      policy.currentResourceCondition.EveryKeyHolds Passes actionUpdate resource none := by
  rw [forall_mayVisit_iff (P := fun visits ↦ applyFilters resource none visits = .ok ()),
    ← ResourceCondition.forall_reordered_iff, ← ResourceCondition.forall_reordered_accepts]
  rfl

/-- It fails in every order exactly when there is a decisive rejection for updating. -/
theorem forall_mayVisit_rejects :
    (∀ table, policy.MayVisit table →
        applyFilters resource none (table.getSlice actionUpdate) ≠ .ok ()) ↔
      policy.currentResourceCondition.HasDecisiveRejection actionUpdate resource none := by
  rw [forall_mayVisit_iff (P := fun visits ↦ applyFilters resource none visits ≠ .ok ()),
    ← ResourceCondition.forall_reordered_iff, ← ResourceCondition.forall_reordered_rejects]
  rfl

/-- **When deleting respects the property conditions.**  A deletion removes only what meets every
condition registered for deleting, and refuses only what one of them rejects, if and only if the
conditions registered for updating decide the resource that is fetched as those for deleting do:
they accept it in every order where those for deleting do, and reject it in every order where it
does not meet those for deleting. -/
theorem deletesAsRegistered_iff : DeletesAsRegistered D auth policy s resourceID db ↔
    ∀ resource, fetchForDeletion D auth policy s resourceID db = .ok resource →
      UpdateDecidesAsDelete policy resource := by
  constructor
  · intro h resource hfetch
    refine ⟨fun hpasses ↦ ?_, fun hadmits ↦ ?_⟩
    · rw [← forall_mayVisit_accepts]
      intro table htable
      by_contra hfilter
      refine h.refuses table htable resource hfetch (fun hcheck ↦ hfilter ?_) hpasses
      exact (checkDeletion_eq_ok.mp hcheck).2
    · rw [← forall_mayVisit_rejects]
      intro table htable hfilter
      obtain ⟨environment, db', hdelete⟩ :=
        exists_delete_iff.mpr ⟨resource, checkDeletion_eq_ok.mpr ⟨hfetch, hfilter⟩⟩
      obtain ⟨resource', hfetch', hadmits'⟩ := h.removes table htable environment db' hdelete
      cases hfetch.symm.trans hfetch'
      exact hadmits hadmits'
  · intro h
    constructor
    · intro table htable environment db' hdelete
      obtain ⟨resource, hcheck⟩ := exists_delete_iff.mp ⟨environment, db', hdelete⟩
      obtain ⟨hfetch, hfilter⟩ := checkDeletion_eq_ok.mp hcheck
      refine ⟨resource, hfetch, ?_⟩
      by_contra hadmits
      exact forall_mayVisit_rejects.mpr ((h resource hfetch).2 hadmits) table htable hfilter
    · intro table htable resource hfetch hrefused hpasses
      have hfilter := forall_mayVisit_accepts.mpr ((h resource hfetch).1 hpasses) table htable
      exact hrefused (checkDeletion_eq_ok.mpr ⟨hfetch, hfilter⟩)

/-! ## A condition for one action -/

/-- A policy for all actions on servers, with a property condition for one of them: the server has
to be up. -/
def upForPolicy (action : String) : Value := .map [("id", .str "up"), ("principal", .str "Member"),
  ("action", .str "*"), ("effect", .str "allow"),
  ("resource", .map [("path", .str "/v2.0/servers")]),
  ("condition", .list [.map [("type", .str "property"), ("action", .str action),
    ("match", .map [("state", .str "UP")])]])]

theorem not_everyKeyHolds_down {rc : ResourceCondition} {action : String}
    (h : rc.actionPropertyConditionFilter.getSlice action = [[("state", .str "UP")]]) :
    ¬ rc.EveryKeyHolds Admits action downServer none := by
  intro hevery
  rw [ResourceCondition.EveryKeyHolds, h] at hevery
  have hstate : Admits (.str "UP") (downServer.get "state") :=
    hevery _ List.mem_cons_self ("state", .str "UP") List.mem_cons_self
  have hdown : downServer.get "state" = .str "DOWN" := rfl
  rw [hdown, Admits, Value.same_str] at hstate
  · exact absurd hstate (by decide)
  · simp

omit [RegexpEngine] in
/-- A condition for deleting alone is not looked at, and a server that is down is deleted.  One for
updating alone is, and the server is not deleted although nothing is said about deleting. -/
theorem not_deletesAsRegistered : letI := Re2.engine
    (∃ policy, newPolicy (upForPolicy actionDelete) = .ok policy ∧
      ¬ DeletesAsRegistered (serverDeployment policy) member policy serverSchema "s2" twoServers) ∧
    ∃ policy, newPolicy (upForPolicy actionUpdate) = .ok policy ∧
      ¬ DeletesAsRegistered (serverDeployment policy) member policy serverSchema "s2"
        twoServers := by
  let _ := Re2.engine
  constructor
  · have hdelete : ∃ policy, newPolicy (upForPolicy actionDelete) = .ok policy ∧
        fetchForDeletion (serverDeployment policy) member policy serverSchema "s2" twoServers =
          .ok downServer ∧
        policy.currentResourceCondition.actionPropertyConditionFilter.getSlice actionUpdate = [] ∧
        policy.currentResourceCondition.actionPropertyConditionFilter.getSlice actionDelete =
          [[("state", .str "UP")]] := Go.exists_of_map_decide (by decide +kernel)
    obtain ⟨policy, hpolicy, hfetch, hupdate, hdelete⟩ := hdelete
    refine ⟨policy, hpolicy, fun h ↦ ?_⟩
    have hcheck := (@checkDeletion_eq_ok _ (serverDeployment policy) member policy serverSchema "s2"
      twoServers policy.currentResourceCondition.actionPropertyConditionFilter downServer).mpr
        ⟨hfetch, by rw [hupdate]; rfl⟩
    obtain ⟨environment, db', hdeleted⟩ := exists_delete_iff.mpr ⟨downServer, hcheck⟩
    obtain ⟨resource, hres, hadmits⟩ :=
      h.removes _ (fun _ ↦ Visit.Orders.refl _) environment db' hdeleted
    cases hfetch.symm.trans hres
    exact not_everyKeyHolds_down hdelete hadmits
  · have hupdate : ∃ policy, newPolicy (upForPolicy actionUpdate) = .ok policy ∧
        fetchForDeletion (serverDeployment policy) member policy serverSchema "s2" twoServers =
          .ok downServer ∧
        policy.currentResourceCondition.actionPropertyConditionFilter.getSlice actionUpdate =
          [[("state", .str "UP")]] ∧
        policy.currentResourceCondition.actionPropertyConditionFilter.getSlice actionDelete = [] :=
      Go.exists_of_map_decide (by decide +kernel)
    obtain ⟨policy, hpolicy, hfetch, hupdate, hdelete⟩ := hupdate
    refine ⟨policy, hpolicy, fun h ↦ ?_⟩
    refine h.refuses policy.currentResourceCondition.actionPropertyConditionFilter
      (fun _ ↦ Visit.Orders.refl _) downServer hfetch (fun hcheck ↦ ?_) ?_
    · have hfilter := (checkDeletion_eq_ok.mp hcheck).2
      rw [hupdate] at hfilter
      exact absurd hfilter (by decide)
    · rw [ResourceCondition.EveryKeyHolds, hdelete]
      exact fun _ hmem ↦ absurd hmem List.not_mem_nil

end Gohan
