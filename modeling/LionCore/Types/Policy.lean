import LionCore.Types.Rights

/-!
# Actions and the policy

The stored policy is one of a few patterns; none of them looks at the action.
-/

namespace LionCore

inductive PolicyDecision
  | permit | deny | indeterminate
  deriving DecidableEq, Repr

def PolicyDecision.isPermit : PolicyDecision → Bool
  | .permit => true
  | _ => false

inductive PolicyError
  | invalidAction (msg : String)
  | evaluationFailed (msg : String)
  deriving DecidableEq, Repr

/-- what is to be authorized: who, on what, with which rights, and the kind of operation -/
structure Action where
  subject : PluginId
  target : ResourceId
  rights : Rights
  kind : String
  deriving DecidableEq

def Action.new (subject : PluginId) (target : ResourceId) (rights : Rights) (kind : String) :
    Except PolicyError Action :=
  if kind.isEmpty then .error (.invalidAction "kind cannot be empty")
  else .ok ⟨subject, target, rights, kind⟩

structure PolicyContext where
  now : Time
  callOrigin : Option PluginId
  deriving DecidableEq, Repr

inductive PolicyDecisionFn
  | denyAll
  | permitAll
  | custom (decision : PolicyDecision)
  deriving DecidableEq, Repr

def PolicyDecisionFn.eval (f : PolicyDecisionFn) (_action : Action) (_ctx : PolicyContext) :
    PolicyDecision :=
  match f with
  | .denyAll => .deny
  | .permitAll => .permit
  | .custom decision => decision

structure PolicyState where
  decide : PolicyDecisionFn
  deriving DecidableEq, Repr

namespace PolicyState

def denyAll : PolicyState := ⟨.denyAll⟩

def permitAll : PolicyState := ⟨.permitAll⟩

def eval (p : PolicyState) (action : Action) (ctx : PolicyContext) : PolicyDecision :=
  p.decide.eval action ctx

end PolicyState
end LionCore
