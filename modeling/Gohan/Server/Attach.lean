import Gohan.Server.CustomAction

/-!
# Attaching a resource

A resource may refer to others by their identifiers, and an attach policy says which others the
caller may refer to.  `validateAttachmentRelation` is its check of one reference: the resource
referred to is fetched within the scope and the blocks of the policy's target condition, its tenant
and domain are compared with those of the resource that refers to it, and the property conditions
are held against it.  A deny policy turns the verdict around.

The scope is that of *reading* the other resource, while the property conditions are looked up
under the action of attaching; this is where `tenantAction` comes from.
-/

set_option autoImplicit false

namespace Gohan

/-! ## Errors -/

/-- An error of a goext handler, as its text reads. -/
def goextError {α : Type} (status : ℤ) (statusText schemaId resourceId : String) : Go α :=
  .errorf "HTTP %d (%s): Related resource %s ID \"%s\" not found"
    [.int status, .str statusText, .str schemaId, .str resourceId]

/-- `errorNotFound`. -/
def errorNotFound {α : Type} (schemaId resourceId : String) : Go α :=
  goextError 404 "Not Found" schemaId resourceId

/-- `errorBadRequest`. -/
def errorBadRequest {α : Type} (schemaId resourceId : String) : Go α :=
  goextError 400 "Bad Request" schemaId resourceId

/-! ## One reference -/

/-- `equalStringKeys`: where both are strings, they are equal. -/
def equalStringKeys (first second : Dict) (key : String) : Bool :=
  match (first.get key).string?, (second.get key).string? with
  | some firstValue, some secondValue => firstValue == secondValue
  | _, _ => true

variable [RegexpEngine]

/-- `checkRelatedResource`: both have one tenant and one domain, unless the condition does not ask
for it. -/
def checkRelatedResource (relatedResource data : Dict) (rc : ResourceCondition) : Bool :=
  if rc.skipTenantDomainCheck then true
  else equalStringKeys data relatedResource tenantIDKey &&
    equalStringKeys data relatedResource domainIDKey

/-- The resource referred to, as far as the target condition reaches. -/
def fetchRelated (D : Deployment) (db : Database) (auth : Authorization)
    (otherCond : ResourceCondition) (relatedSchema : Schema) (relatedResourceID : String)
    (tenancy : Option Tenancy) : Go Dict := do
  let filter ← otherCond.addCustomFiltersWithTenancy relatedSchema
    (extendFilterByTenantAndDomain relatedSchema
      ((∅ : GoMap FilterVal).insert "id" (.value (.str relatedResourceID)))
      actionRead otherCond auth) auth tenancy
  DB.firstOf "Failed to fetch %s: %s"
    (D.list db relatedSchema filter (some { Details := true, Fields := none }) none)

/-- The check of one reference against a target condition, from the fetching on. -/
def checkAttachment (D : Deployment) (db : Database) (auth : Authorization) (isDeny : Bool)
    (otherCond : ResourceCondition) (relatedSchema : Schema) (relatedResourceID : String)
    (tenancy : Option Tenancy) (data : Dict) : Go Unit :=
  match fetchRelated D db auth otherCond relatedSchema relatedResourceID tenancy with
  | .error (.panic format args) => .panicf format args
  | .error (.error _ _) =>
    if isDeny then .ok () else errorBadRequest relatedSchema.id relatedResourceID
  | .ok relatedRes =>
    if !checkRelatedResource relatedRes data otherCond then
      errorBadRequest relatedSchema.id relatedResourceID
    else
      match otherCond.applyPropertyConditionFilter actionAttach relatedRes none with
      | .error (.panic format args) => .panicf format args
      | .error (.error _ _) =>
        if isDeny then .ok () else errorNotFound relatedSchema.id relatedResourceID
      | .ok () => if isDeny then errorBadRequest relatedSchema.id relatedResourceID else .ok ()

/-- `validateAttachmentRelation`; a target condition or a schema that is missing is a nil
pointer. -/
def validateAttachmentRelation (D : Deployment) (db : Database) (policy : Policy)
    (auth : Authorization) (property : Property) (relatedResourceID : String)
    (tenancy : Option Tenancy) (data : Dict) : Go Unit :=
  if relatedResourceID = "" then .ok ()
  else
    match policy.otherResourceCondition, schemaByID D.schemas property.relation with
    | some otherCond, some relatedSchema =>
      checkAttachment D db auth policy.isDeny otherCond relatedSchema relatedResourceID tenancy data
    | _, _ => .panicf "runtime error: invalid memory address or nil pointer dereference"

/-! ## Naming the action -/

/-- The policy with another target condition. -/
def Policy.withTarget (policy : Policy) (p : ResourceCondition) : Policy :=
  { policy with otherResourceCondition := some p }

@[simp] theorem Policy.withTarget_isDeny (policy : Policy) (p : ResourceCondition) :
    (policy.withTarget p).isDeny = policy.isDeny := rfl

@[simp] theorem Policy.withTarget_other (policy : Policy) (p : ResourceCondition) :
    (policy.withTarget p).otherResourceCondition = some p := rfl

variable {p p' : ResourceCondition}

/-- The check sees of a target condition its words, its block, the tenants for reading and the
matches for attaching. -/
theorem checkAttachment_congr (hw : SameWords p p')
    (ht : p.actionTenantFilter.getSlice actionRead = p'.actionTenantFilter.getSlice actionRead)
    (hp : p.actionPropertyConditionFilter.getSlice actionAttach =
      p'.actionPropertyConditionFilter.getSlice actionAttach)
    (D : Deployment) (db : Database) (auth : Authorization) (isDeny : Bool)
    (relatedSchema : Schema) (relatedResourceID : String) (tenancy : Option Tenancy)
    (data : Dict) :
    checkAttachment D db auth isDeny p relatedSchema relatedResourceID tenancy data =
      checkAttachment D db auth isDeny p' relatedSchema relatedResourceID tenancy data := by
  have hfetch : fetchRelated D db auth p relatedSchema relatedResourceID tenancy =
      fetchRelated D db auth p' relatedSchema relatedResourceID tenancy := by
    rw [fetchRelated, extendFilterByTenantAndDomain_congr hw ht, hw.addCustomFiltersWithTenancy]
    rfl
  have hrelated (relatedRes : Dict) :
      checkRelatedResource relatedRes data p = checkRelatedResource relatedRes data p' := by
    rw [checkRelatedResource, hw.skipTenantDomainCheck]
    rfl
  have hverdict (relatedRes : Dict) :
      p.applyPropertyConditionFilter actionAttach relatedRes none =
        p'.applyPropertyConditionFilter actionAttach relatedRes none :=
    congrArg (applyFilters relatedRes none) hp
  rw [checkAttachment, checkAttachment, hfetch]
  split
  · rfl
  · rfl
  · rw [hrelated, hverdict]

/-- **The check of a reference, with the target condition as it is and with the action named**:
where the tables of the action are the same, every reference is judged alike. -/
theorem validateAttachmentRelation_named {conditions : List Value} {policyID : String}
    (h : newResourceCondition conditions policyID = .ok p)
    (h' : newResourceCondition
      (conditions.map (nameAction (tenantAction actionAttach) actionAttach)) policyID = .ok p')
    (hsame : SameEffect actionAttach p p') (D : Deployment) (db : Database) (policy : Policy)
    (auth : Authorization) (property : Property) (relatedResourceID : String)
    (tenancy : Option Tenancy) (data : Dict) :
    validateAttachmentRelation D db (policy.withTarget p) auth property relatedResourceID tenancy
        data =
      validateAttachmentRelation D db (policy.withTarget p') auth property relatedResourceID
        tenancy data := by
  obtain ⟨htenants, hproperties⟩ := hsame
  rw [tenantAction, if_pos rfl] at htenants
  have hcheck (relatedSchema : Schema) := checkAttachment_congr (sameWords_of_named h h') htenants
    hproperties D db auth policy.isDeny relatedSchema relatedResourceID tenancy data
  rw [validateAttachmentRelation, validateAttachmentRelation]
  cases schemaByID D.schemas property.relation with
  | none => rfl
  | some relatedSchema =>
    simp only [Policy.withTarget_other, Policy.withTarget_isDeny, hcheck relatedSchema]

end Gohan
