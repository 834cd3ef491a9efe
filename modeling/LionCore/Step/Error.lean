import LionCore.Step.Authorization

/-!
# Reasons for which a step fails
-/

namespace LionCore

inductive PluginPrecondition
  | blocked (pid : PluginId) (blockedOn : Option ActorId)
  | readOutOfBounds (addr : MemAddr) (size bounds : Size)
  | writeOutOfBounds (addr : MemAddr) (size bounds : Size)
  | mailboxEmpty
  deriving DecidableEq, Repr

inductive HostCallPrecondition
  | readOutOfBounds (addr : MemAddr) (size : Size)
  | writeOutOfBounds (addr : MemAddr) (size : Size)
  | noValidCapability
  | noMessage
  | sourceMismatch
  | mailboxFull
  | invalidSecurityLevel (value : Nat)
  | cannotClassifyUp
  | noAddress
  | noCapabilityId
  | freeFailed (source : StateError)
  | notImplemented (operation : String)
  deriving DecidableEq, Repr

inductive KernelOpError
  | noPendingMessages (dst : ActorId)
  | mailboxAtCapacity (dst : ActorId)
  | workflowNotFound (wid : WorkflowId)
  | workflowNotRunning (wid : WorkflowId)
  | notImplemented (operation : String)
  | counterOverflow (msg : String)
  deriving DecidableEq, Repr

inductive InvalidTransitionReason
  | incompatibleStates (expected found : String)
  deriving DecidableEq, Repr

inductive StepError
  | pluginNotFound (id : PluginId)
  | actorNotFound (id : ActorId)
  | addressAlreadyFreed (addr : MemAddr)
  | capabilityTargetsAddress (cap : CapId) (addr : MemAddr)
  | capabilityNotFound (id : CapId)
  | authorizationFailed (e : AuthorizationError)
  | pluginPreconditionFailed (reason : PluginPrecondition)
  | hostCallPreconditionFailed (reason : HostCallPrecondition)
  | kernelOpFailed (reason : KernelOpError)
  | invalidTransition (reason : InvalidTransitionReason)
  | stateError (e : StateError)
  | quotaExceeded (kind : Nat) (requested current quota : Nat)
  deriving DecidableEq, Repr

end LionCore
