import LionCore.Step.Error

/-!
# Sandboxed computation of a plugin
-/

namespace LionCore
open Base

structure PluginInternal where
  reads : List (MemAddr × Size)
  writes : List (MemAddr × Size)
  consumeMailbox : Bool
  deriving DecidableEq

namespace PluginInternal

def findOobRead (pi : PluginInternal) (plugin : PluginState) : Option StepError :=
  pi.reads.findSome? fun r =>
    if plugin.memory.addrInBounds r.1 r.2 then none
    else some (.pluginPreconditionFailed (.readOutOfBounds r.1 r.2 plugin.memory.bounds))

def findOobWrite (pi : PluginInternal) (plugin : PluginState) : Option StepError :=
  pi.writes.findSome? fun r =>
    if plugin.memory.addrInBounds r.1 r.2 then none
    else some (.pluginPreconditionFailed (.writeOutOfBounds r.1 r.2 plugin.memory.bounds))

/-- a plugin without an actor is never blocked -/
def checkNotBlocked (s : State) (pid : PluginId) : Except StepError Unit :=
  match s.getActor pid with
  | some actor =>
    if actor.isBlocked then .error (.pluginPreconditionFailed (.blocked pid actor.blockedOn))
    else .ok ()
  | none => .ok ()

/-- a plugin without an actor passes -/
def checkMailbox (pi : PluginInternal) (s : State) (pid : PluginId) : Except StepError Unit :=
  if pi.consumeMailbox then
    match s.getActor pid with
    | some actor =>
      if !actor.canReceive then .error (.pluginPreconditionFailed .mailboxEmpty) else .ok ()
    | none => .ok ()
  else .ok ()

def checkPreconditions (pi : PluginInternal) (s : State) (pid : PluginId) :
    Except StepError Unit :=
  match s.getPlugin pid with
  | none => .error (.pluginNotFound pid)
  | some plugin => do
    checkNotBlocked s pid
    match pi.findOobRead plugin with
    | some err => .error err
    | none =>
      match pi.findOobWrite plugin with
      | some err => .error err
      | none => pi.checkMailbox s pid

/-- the first byte of every region to be written is in bounds -/
def checkWriteStarts (pi : PluginInternal) (plugin : PluginState) : Except StepError Unit :=
  match pi.writes.find? fun r => !plugin.memory.addrInBounds r.1 1 with
  | some r =>
    .error (.pluginPreconditionFailed (.writeOutOfBounds r.1 1 plugin.memory.bounds))
  | none => .ok ()

/-- all checks of an internal step, in the order in which they are made -/
def checkAll (pi : PluginInternal) (s : State) (pid : PluginId) : Except StepError Unit :=
  match s.getPlugin pid with
  | none => .error (.pluginNotFound pid)
  | some plugin => do
    pi.checkPreconditions s pid
    pi.checkWriteStarts plugin

/-- the head of the mailbox is taken out if the computation consumes it -/
def consume (pi : PluginInternal) (s : State) (pid : PluginId) : State :=
  if pi.consumeMailbox then s.updateActor pid fun a => a.consumeMut.2 else s

/-- nothing but an actor changes -/
theorem consume_frame (pi : PluginInternal) (s : State) (pid : PluginId) :
    ∃ actors, pi.consume s pid = { s with actors } := by
  unfold consume
  split
  · exact ⟨_, rfl⟩
  · exact ⟨s.actors, rfl⟩

end PluginInternal

/-- nothing is written to the plugin's memory -/
def executePluginInternal (s : State) (pid : PluginId) (pi : PluginInternal) :
    Except StepError State := do
  pi.checkAll s pid
  return pi.consume s pid

def executePluginInternalMut (s : State) (pid : PluginId) (pi : PluginInternal) :
    Except StepError Unit × State :=
  guardMut (pi.checkAll s pid) s (.ok (), pi.consume s pid)

end LionCore
