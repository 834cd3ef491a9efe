import LionCore.State.Memory

/-!
# Plugins: level, memory, handles and quotas
-/

namespace LionCore
open Base

/-- `u64::MAX / 2` -/
def defaultQuota : Nat := (u64Size - 1) / 2

/-- a plugin holds capability ids, never capabilities -/
structure PluginState where
  level : SecurityLevel
  memory : LinearMemory
  heldCaps : List CapId
  memoryQuota : Nat
  memoryUsed : Nat
  capQuota : Nat
  ipcQueueLimit : Nat
  deriving DecidableEq

namespace PluginState

def empty (level : SecurityLevel) (memSize : Size) : PluginState :=
  ⟨level, .empty memSize, [], defaultQuota, 0, defaultQuota, defaultQuota⟩

def withQuotas (level : SecurityLevel) (memSize : Size) (memoryQuota capQuota ipcQueueLimit : Nat) :
    PluginState :=
  ⟨level, .empty memSize, [], memoryQuota, 0, capQuota, ipcQueueLimit⟩

def holdsCap (p : PluginState) (capId : CapId) : Bool := has p.heldCaps capId

def grantCap (p : PluginState) (capId : CapId) : PluginState :=
  ⟨p.level, p.memory, insertKey p.heldCaps capId, p.memoryQuota, p.memoryUsed, p.capQuota,
    p.ipcQueueLimit⟩

def grantCapMut (p : PluginState) (capId : CapId) : PluginState :=
  { p with heldCaps := insertKey p.heldCaps capId }

def revokeCap (p : PluginState) (capId : CapId) : PluginState :=
  ⟨p.level, p.memory, removeKey p.heldCaps capId, p.memoryQuota, p.memoryUsed, p.capQuota,
    p.ipcQueueLimit⟩

def revokeCapMut (p : PluginState) (capId : CapId) : PluginState :=
  { p with heldCaps := removeKey p.heldCaps capId }

def canAllocMemory (p : PluginState) (size : Nat) : Bool :=
  match checkedAdd64 p.memoryUsed size with
  | some total => total ≤ p.memoryQuota
  | none => false

/-- is there room for one more handle? -/
def canHoldCap (p : PluginState) : Bool := decide (p.heldCaps.length < p.capQuota)

def allocMemory (p : PluginState) (size : Nat) : Bool × PluginState :=
  if !p.canAllocMemory size then (false, p)
  else (true, { p with memoryUsed := saturatingAdd64 p.memoryUsed size })

/-- a subtraction that stops at zero -/
def freeMemory (p : PluginState) (size : Nat) : PluginState :=
  { p with memoryUsed := p.memoryUsed - size }

end PluginState
end LionCore
