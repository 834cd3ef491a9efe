import LionCore.Base.Guard
import LionCore.State.State

/-!
# Authorization tokens and their validation

* `Authorized.validate_ok_iff`         what a token needs in a state, one field per check;
* `Authorized.not_good_iff`            and the ways in which it is refused;
* `Authorized.validateAtomic_ok_iff`   a token is issued exactly where it would be validated.
-/

namespace LionCore
open Base

inductive AuthorizationError
  | capabilityNotFound (id : CapId)
  | capabilityRevoked (id : CapId)
  | holderMismatch (expected actual : Nat)
  | targetMismatch (expected actual : Nat)
  | insufficientRights
  | policyDenied
  | resourceNotLive (addr : MemAddr)
  | bibaViolation (writerLevel targetLevel : SecurityLevel)
  | capabilityNotHeld (id : CapId)
  deriving DecidableEq, Repr

/-- the level of the owner of an allocated address -/
def resourceIntegrity (s : State) (rid : MemAddr) : SecurityLevel :=
  match s.ghost.getStatus rid with
  | some status =>
    match status.owner with
    | some owner => (s.pluginLevel owner).getD .Public
    | none => .Public
  | none => .Public

/-- no write up; the target is cut to an address -/
def bibaWriteOk (s : State) (action : Action) : Bool :=
  if !action.rights.contains .write then true
  else decide (resourceIntegrity s (asU64 action.target) ≤
    (s.pluginLevel action.subject).getD .Public)

/-- a capability, the action it is used for, and the context of the policy -/
structure Authorized where
  cap : Capability
  action : Action
  ctx : PolicyContext
  deriving DecidableEq

namespace Authorized

/-! ## the six checks -/

/-- only fields of the capability that was PRESENTED, and the holder's handles -/
def checkCapability (t : Authorized) (s : State) : Except AuthorizationError Unit :=
  if t.cap.holder ≠ t.action.subject then
    .error (.holderMismatch t.action.subject t.cap.holder)
  else if t.cap.target ≠ t.action.target then
    .error (.targetMismatch t.action.target t.cap.target)
  else if !t.action.rights.isSubsetOf t.cap.rights then .error .insufficientRights
  else if !s.pluginHolds t.action.subject t.cap.id then .error (.capabilityNotHeld t.cap.id)
  else .ok ()

def checkPolicy (t : Authorized) (s : State) : Except AuthorizationError Unit :=
  if (s.kernel.policy.eval t.action t.ctx).isPermit then .ok () else .error .policyDenied

/-- the table entry under the id is on, and so is the presented parent -/
def checkValidity (t : Authorized) (s : State) : Except AuthorizationError Unit :=
  match s.kernel.revocation.get t.cap.id with
  | none => .error (.capabilityNotFound t.cap.id)
  | some kernelCap =>
    if !kernelCap.valid then .error (.capabilityRevoked t.cap.id)
    else match t.cap.parent with
      | some parentId =>
        if !s.kernel.revocation.isValid parentId then .error (.capabilityRevoked parentId)
        else .ok ()
      | none => .ok ()

def checkLiveness (t : Authorized) (s : State) : Except AuthorizationError Unit :=
  let addr := asU64 t.action.target
  if !s.ghost.isLive addr then .error (.resourceNotLive addr) else .ok ()

def checkConfinement (t : Authorized) : Except AuthorizationError Unit :=
  if !t.action.rights.isSubsetOf t.cap.rights then .error .insufficientRights else .ok ()

def checkBiba (t : Authorized) (s : State) : Except AuthorizationError Unit :=
  if !bibaWriteOk s t.action then
    .error (.bibaViolation ((s.pluginLevel t.action.subject).getD .Public)
      (resourceIntegrity s (asU64 t.action.target)))
  else .ok ()

def validate (t : Authorized) (s : State) : Except AuthorizationError Unit := do
  t.checkCapability s
  t.checkPolicy s
  t.checkValidity s
  t.checkLiveness s
  t.checkConfinement
  t.checkBiba s

def validateAtomic (s : State) (cap : Capability) (action : Action) (ctx : PolicyContext) :
    Except AuthorizationError Authorized := do
  let provisional : Authorized := ⟨cap, action, ctx⟩
  provisional.checkCapability s
  provisional.checkPolicy s
  provisional.checkValidity s
  provisional.checkLiveness s
  provisional.checkConfinement
  provisional.checkBiba s
  return provisional

/-! ## what the checks ask for -/

/-- the conditions under which a token is good in a state -/
structure Good (t : Authorized) (s : State) : Prop where
  holder : t.cap.holder = t.action.subject
  target : t.cap.target = t.action.target
  rights : t.action.rights.isSubsetOf t.cap.rights = true
  held : s.pluginHolds t.action.subject t.cap.id = true
  policy : (s.kernel.policy.eval t.action t.ctx).isPermit = true
  entry : s.capIsValid t.cap.id = true
  parent : ∀ p, t.cap.parent = some p → s.capIsValid p = true
  live : s.ghost.isLive (asU64 t.action.target) = true
  biba : bibaWriteOk s t.action = true

/-- the ways in which a token is refused in a state -/
inductive Refused (t : Authorized) (s : State) : Prop
  | holder (h : t.cap.holder ≠ t.action.subject)
  | target (h : t.cap.target ≠ t.action.target)
  | rights (h : t.action.rights.isSubsetOf t.cap.rights = false)
  | handle (h : s.pluginHolds t.action.subject t.cap.id = false)
  | policy (h : (s.kernel.policy.eval t.action t.ctx).isPermit = false)
  | entry (h : s.capIsValid t.cap.id = false)
  | parent (p : CapId) (hp : t.cap.parent = some p) (h : s.capIsValid p = false)
  | live (h : s.ghost.isLive (asU64 t.action.target) = false)
  | biba (h : bibaWriteOk s t.action = false)

theorem not_good_iff (t : Authorized) (s : State) : ¬ t.Good s ↔ t.Refused s := by
  constructor
  · intro hn
    by_contra hr
    refine hn ⟨?_, ?_, ?_, ?_, ?_, ?_, fun p hp => ?_, ?_, ?_⟩
    · exact not_not.mp fun h => hr (.holder h)
    · exact not_not.mp fun h => hr (.target h)
    · exact eq_true_of_ne_false fun h => hr (.rights h)
    · exact eq_true_of_ne_false fun h => hr (.handle h)
    · exact eq_true_of_ne_false fun h => hr (.policy h)
    · exact eq_true_of_ne_false fun h => hr (.entry h)
    · exact eq_true_of_ne_false fun h => hr (.parent p hp h)
    · exact eq_true_of_ne_false fun h => hr (.live h)
    · exact eq_true_of_ne_false fun h => hr (.biba h)
  · intro hr g
    cases hr with
    | holder h => exact h g.holder
    | target h => exact h g.target
    | rights h => exact ne_false_of_eq_true g.rights h
    | handle h => exact ne_false_of_eq_true g.held h
    | policy h => exact ne_false_of_eq_true g.policy h
    | entry h => exact ne_false_of_eq_true g.entry h
    | parent p hp h => exact ne_false_of_eq_true (g.parent p hp) h
    | live h => exact ne_false_of_eq_true g.live h
    | biba h => exact ne_false_of_eq_true g.biba h

theorem checkCapability_ok_iff (t : Authorized) (s : State) :
    t.checkCapability s = .ok () ↔ t.cap.holder = t.action.subject ∧
      t.cap.target = t.action.target ∧ t.action.rights.isSubsetOf t.cap.rights = true ∧
      s.pluginHolds t.action.subject t.cap.id = true := by
  unfold checkCapability
  by_cases h1 : t.cap.holder = t.action.subject
  · by_cases h2 : t.cap.target = t.action.target
    · cases h3 : t.action.rights.isSubsetOf t.cap.rights <;>
        cases h4 : s.pluginHolds t.action.subject t.cap.id <;> simp [h1, h2]
    · simp [h1, h2]
  · simp [h1]

theorem checkPolicy_ok_iff (t : Authorized) (s : State) :
    t.checkPolicy s = .ok () ↔ (s.kernel.policy.eval t.action t.ctx).isPermit = true := by
  unfold checkPolicy
  cases (s.kernel.policy.eval t.action t.ctx).isPermit <;> simp

theorem checkValidity_ok_iff (t : Authorized) (s : State) :
    t.checkValidity s = .ok () ↔ s.capIsValid t.cap.id = true ∧
      ∀ p, t.cap.parent = some p → s.capIsValid p = true := by
  unfold checkValidity State.capIsValid
  cases hk : s.kernel.revocation.get t.cap.id with
  | none =>
    have hid : s.kernel.revocation.isValid t.cap.id = false := by
      unfold RevocationState.isValid
      rw [hk]
    simp [hid]
  | some k =>
    have hid : s.kernel.revocation.isValid t.cap.id = k.valid := by
      unfold RevocationState.isValid
      rw [hk]
    cases hv : k.valid with
    | false => simp [hid, hv]
    | true =>
      cases t.cap.parent with
      | none => simp [hid, hv]
      | some p => cases hp : s.kernel.revocation.isValid p <;> simp [hid, hv, hp]

theorem checkLiveness_ok_iff (t : Authorized) (s : State) :
    t.checkLiveness s = .ok () ↔ s.ghost.isLive (asU64 t.action.target) = true := by
  unfold checkLiveness
  cases h : s.ghost.isLive (asU64 t.action.target) <;> simp [h]

theorem checkConfinement_ok_iff (t : Authorized) :
    t.checkConfinement = .ok () ↔ t.action.rights.isSubsetOf t.cap.rights = true := by
  unfold checkConfinement
  cases t.action.rights.isSubsetOf t.cap.rights <;> simp

theorem checkBiba_ok_iff (t : Authorized) (s : State) :
    t.checkBiba s = .ok () ↔ bibaWriteOk s t.action = true := by
  unfold checkBiba
  cases bibaWriteOk s t.action <;> simp

theorem validate_ok_iff (t : Authorized) (s : State) : t.validate s = .ok () ↔ t.Good s := by
  unfold validate
  rw [check_bind_ok_iff, check_bind_ok_iff, check_bind_ok_iff, check_bind_ok_iff,
    check_bind_ok_iff, checkCapability_ok_iff, checkPolicy_ok_iff, checkValidity_ok_iff,
    checkLiveness_ok_iff, checkConfinement_ok_iff, checkBiba_ok_iff]
  constructor
  · rintro ⟨⟨h1, h2, h3, h4⟩, h5, ⟨h6, h7⟩, h8, _, h9⟩
    exact ⟨h1, h2, h3, h4, h5, h6, h7, h8, h9⟩
  · intro g
    exact ⟨⟨g.holder, g.target, g.rights, g.held⟩, g.policy, ⟨g.entry, g.parent⟩, g.live,
      g.rights, g.biba⟩

/-- issuing a token is validating it -/
theorem validateAtomic_eq (s : State) (cap : Capability) (action : Action) (ctx : PolicyContext) :
    validateAtomic s cap action ctx =
      (fun _ => ⟨cap, action, ctx⟩) <$> validate ⟨cap, action, ctx⟩ s := by
  simp only [validateAtomic, validate, map_bind, bind_pure_comp]

theorem validateAtomic_ok_iff (s : State) (cap : Capability) (action : Action)
    (ctx : PolicyContext) (t : Authorized) :
    validateAtomic s cap action ctx = .ok t ↔ t = ⟨cap, action, ctx⟩ ∧ t.Good s := by
  rw [validateAtomic_eq]
  constructor
  · intro h
    cases hv : validate ⟨cap, action, ctx⟩ s with
    | error e => rw [hv] at h; cases h
    | ok u =>
      rw [hv] at h
      cases h
      exact ⟨rfl, (validate_ok_iff _ s).mp hv⟩
  · rintro ⟨rfl, g⟩
    rw [(validate_ok_iff _ s).mpr g]
    rfl

end Authorized
end LionCore
