import Gohan.Schema.Policy

/-!
# The verdict on a request

`PolicyValidate` goes through the policies once.  A policy that matches the request and denies ends
the search at once; of those that match and allow, the first one is kept.  So one policy that denies
is enough to block a request, wherever it stands in the list, and the order of the policies decides
only which of those that allow is the one the request is then held against.
-/

set_option autoImplicit false

namespace Gohan

variable [RegexpEngine]

/-- Does the policy match the request? -/
def Policy.applies (p : Policy) (action path : String) (auth : Authorization) : Bool :=
  (p.matches action path auth).isSome

/-- What is to be known of the verdict on a request. -/
structure Verdict (action path : String) (auth : Authorization) (policies : List Policy) :
    Prop where
  /-- Some policy that matches allows, and none that matches denies. -/
  granted : (policyValidate action path auth policies).isSome = true ↔
    (∃ p ∈ policies, p.applies action path auth = true ∧ p.isDeny = false) ∧
      ∀ p ∈ policies, p.applies action path auth = true → p.isDeny = false
  /-- The order of the policies does not matter to whether access is granted. -/
  reordered : ∀ policies', policies.Perm policies' →
    (policyValidate action path auth policies').isSome =
      (policyValidate action path auth policies).isSome
  /-- The policy that is returned is the first one that matches and allows. -/
  first : ∀ policy role, policyValidate action path auth policies = some (policy, role) →
    ∃ before after, policies = before ++ policy :: after ∧
      (∀ p ∈ before, ¬(p.applies action path auth = true ∧ p.isDeny = false)) ∧
      policy.applies action path auth = true ∧ policy.isDeny = false
  /-- The role that is returned is the caller's, and the principal of the policy. -/
  role : ∀ policy role, policyValidate action path auth policies = some (policy, role) →
    role ∈ auth.roles ∧ role.name = policy.Principal

variable {action path : String} {auth : Authorization}

/-- The role that a policy matches for. -/
theorem role_of_matches {p : Policy} {role : Role} (h : p.matches action path auth = some role) :
    role ∈ auth.roles ∧ role.name = p.Principal := by
  rw [Policy.matches] at h
  iterate 5 (split at h; · cases h)
  have hrole := List.find?_some h
  exact ⟨List.mem_of_find?_eq_some h, beq_iff_eq.mp hrole⟩

/-- Either some policy that matches denies, or the loop returns what it has, or else the first
policy that matches. -/
theorem policyValidateLoop_eq (policies : List Policy) (found : Option (Policy × Role)) :
    policyValidateLoop action path auth policies found =
      if policies.any (fun p ↦ p.applies action path auth && p.isDeny) then none
      else found.or (policies.findSome? fun p ↦ (p.matches action path auth).map (p, ·)) := by
  induction policies generalizing found with
  | nil => simp [policyValidateLoop]
  | cons p policies ih =>
    rw [policyValidateLoop, List.any_cons, List.findSome?_cons, Policy.applies]
    cases hmatch : p.matches action path auth with
    | none => simpa using ih found
    | some role =>
      cases hdeny : p.isDeny with
      | true => simp
      | false => simpa [hdeny, Option.or_assoc] using ih (found.or (some (p, role)))

theorem policyValidate_eq_some {policies : List Policy} {policy : Policy} {role : Role} :
    policyValidate action path auth policies = some (policy, role) ↔
      (∀ p ∈ policies, p.applies action path auth = true → p.isDeny = false) ∧
        ∃ before after, policies = before ++ policy :: after ∧
          policy.matches action path auth = some role ∧
            ∀ p ∈ before, p.matches action path auth = none := by
  rw [policyValidate, policyValidateLoop_eq]
  have hallow : policies.any (fun p ↦ p.applies action path auth && p.isDeny) = false ↔
      ∀ p ∈ policies, p.applies action path auth = true → p.isDeny = false := by
    simp
  split
  · next hdeny =>
    refine iff_of_false nofun fun h ↦ ?_
    rw [hallow.mpr h.1] at hdeny
    cases hdeny
  · next hdeny =>
    rw [and_iff_right (hallow.mp (Bool.eq_false_iff.mpr hdeny)), Option.none_or,
      List.findSome?_eq_some_iff]
    constructor
    · rintro ⟨before, p, after, rfl, hp, hbefore⟩
      obtain ⟨role', hmatch, hpair⟩ := Option.map_eq_some_iff.mp hp
      obtain ⟨rfl, rfl⟩ := Prod.mk.inj hpair
      exact ⟨before, after, rfl, hmatch, fun q hq ↦ Option.map_eq_none_iff.mp (hbefore q hq)⟩
    · rintro ⟨before, after, rfl, hmatch, hbefore⟩
      refine ⟨before, policy, after, rfl, by rw [hmatch]; rfl, fun q hq ↦ ?_⟩
      rw [hbefore q hq]
      rfl

theorem isSome_policyValidate {policies : List Policy} :
    (policyValidate action path auth policies).isSome = true ↔
      (∃ p ∈ policies, p.applies action path auth = true ∧ p.isDeny = false) ∧
        ∀ p ∈ policies, p.applies action path auth = true → p.isDeny = false := by
  rw [policyValidate, policyValidateLoop_eq]
  split
  · next hdeny =>
    obtain ⟨p, hp, hboth⟩ := List.any_eq_true.mp hdeny
    obtain ⟨happlies, hdeny⟩ := Bool.and_eq_true_iff.mp hboth
    refine iff_of_false Bool.false_ne_true fun h ↦ ?_
    rw [h.2 p hp happlies] at hdeny
    cases hdeny
  · next hdeny =>
    have hallow : ∀ p ∈ policies, p.applies action path auth = true → p.isDeny = false := by
      simpa using hdeny
    rw [and_iff_left hallow, Option.none_or, List.findSome?_isSome_iff]
    refine exists_congr fun p ↦ and_congr_right fun hp ↦ ?_
    rw [Option.isSome_map]
    exact ⟨fun h ↦ ⟨h, hallow p hp h⟩, And.left⟩

/-- **The verdict on every request.** -/
theorem policyValidate_verdict (action path : String) (auth : Authorization)
    (policies : List Policy) : Verdict action path auth policies where
  granted := isSome_policyValidate
  reordered policies' hperm := by
    rw [Bool.eq_iff_iff, isSome_policyValidate, isSome_policyValidate]
    simp only [hperm.mem_iff]
  first policy role h := by
    obtain ⟨hallow, before, after, rfl, hmatch, hbefore⟩ := policyValidate_eq_some.mp h
    have happlies : policy.applies action path auth = true := by
      rw [Policy.applies, hmatch]
      rfl
    refine ⟨before, after, rfl, fun p hp hboth ↦ ?_, happlies, hallow policy (by simp) happlies⟩
    rw [Policy.applies, hbefore p hp] at hboth
    cases hboth.1
  role policy role h := by
    obtain ⟨-, before, after, -, hmatch, -⟩ := policyValidate_eq_some.mp h
    exact role_of_matches hmatch

end Gohan
