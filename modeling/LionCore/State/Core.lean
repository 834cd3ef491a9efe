import LionCore.State.Kernel

/-!
# The extractable core of the kernel

Keys, capability table, security metadata and clock, without plugins, policy and memory.  Every
change goes through `kernelDispatch`, which takes the core and gives back a new one.
-/

namespace LionCore
open Base

structure PluginMeta where
  level : SecurityLevel
  heldCaps : List CapId
  deriving DecidableEq

namespace PluginMeta

def empty : PluginMeta := ⟨.Public, []⟩

def grantCap (m : PluginMeta) (capId : CapId) : PluginMeta :=
  { m with heldCaps := insertKey m.heldCaps capId }

def holdsCap (m : PluginMeta) (capId : CapId) : Bool := has m.heldCaps capId

end PluginMeta

structure ResourceMeta where
  level : SecurityLevel
  deriving DecidableEq

def ResourceMeta.empty : ResourceMeta := ⟨.Public⟩

structure KernelStateCore where
  keyState : KeyState
  revocation : RevocationState
  pluginMetas : Table PluginId PluginMeta
  resourceMetas : Table ResourceId ResourceMeta
  now : Time
  nextCapId : CapId
  deriving DecidableEq

namespace KernelStateCore

def empty (hmacKey : Key) : KernelStateCore := ⟨.initial hmacKey, .empty, [], [], 0, 0⟩

/-- a plugin that is not found counts as public, without handles -/
def getPluginMeta (core : KernelStateCore) (pid : PluginId) : PluginMeta :=
  (core.pluginMetas.find pid).getD .empty

/-- update or insert; the handles are brought into order again -/
def setPluginMeta (core : KernelStateCore) (pid : PluginId) (m : PluginMeta) : KernelStateCore :=
  { core with pluginMetas := core.pluginMetas.put pid { m with heldCaps := sortDedup m.heldCaps } }

def getResourceMeta (core : KernelStateCore) (rid : ResourceId) : ResourceMeta :=
  (core.resourceMetas.find rid).getD .empty

def setResourceMeta (core : KernelStateCore) (rid : ResourceId) (m : ResourceMeta) :
    KernelStateCore :=
  { core with resourceMetas := core.resourceMetas.put rid m }

def pluginHolds (core : KernelStateCore) (pid : PluginId) (capId : CapId) : Bool :=
  match core.pluginMetas.find pid with
  | some m => m.holdsCap capId
  | none => false

end KernelStateCore

/-! ## requests -/

inductive KernelRequest
  | capDelegate (newCap : Capability) (target : PluginId)
  | capRevoke (capId : CapId)
  | setPluginLevel (pluginId : PluginId) (level : SecurityLevel)
  | setResourceLevel (resourceId : ResourceId) (level : SecurityLevel)
  | tick
  | rotateKey (newKey : Key)
  deriving DecidableEq

abbrev KernelResult := Except KernelError KernelStateCore

section
variable (core : KernelStateCore)

def dispatchCapDelegate (newCap : Capability) (target : PluginId) : KernelResult :=
  if core.revocation.contains newCap.id then .error (.capIdCollision newCap.id)
  else match core.revocation.insertMut newCap with
    | (.error e, _) => .error e
    | (.ok (), revocation) =>
      let core := { core with revocation }
      .ok (core.setPluginMeta target ((core.getPluginMeta target).grantCap newCap.id))

def dispatchCapRevoke (capId : CapId) : KernelResult :=
  match core.revocation.revokeTransitiveFastMut capId with
  | (.error e, _) => .error e
  | (.ok (), revocation) => .ok { core with revocation }

def dispatchSetPluginLevel (pluginId : PluginId) (level : SecurityLevel) : KernelResult :=
  .ok (core.setPluginMeta pluginId { core.getPluginMeta pluginId with level })

def dispatchSetResourceLevel (resourceId : ResourceId) (level : SecurityLevel) : KernelResult :=
  .ok (core.setResourceMeta resourceId { core.getResourceMeta resourceId with level })

def dispatchTick : KernelResult :=
  match checkedAdd64 core.now 1 with
  | some now => .ok { core with now }
  | none => .error (.counterOverflow "time")

/-- `none` is the panic when the key epoch overflows -/
def dispatchRotateKey (newKey : Key) : Option KernelStateCore :=
  match core.keyState.rotate newKey with
  | (some (), keyState) => some { core with keyState }
  | (none, _) => none

/-- the one entry point; `none` is a panic -/
def kernelDispatch : KernelRequest → Option KernelResult
  | .capDelegate newCap target => some (dispatchCapDelegate core newCap target)
  | .capRevoke capId => some (dispatchCapRevoke core capId)
  | .setPluginLevel pluginId level => some (dispatchSetPluginLevel core pluginId level)
  | .setResourceLevel resourceId level => some (dispatchSetResourceLevel core resourceId level)
  | .tick => some (dispatchTick core)
  | .rotateKey newKey => (dispatchRotateKey core newKey).map .ok

end
end LionCore
