import LionCore.Types.Basic

/-!
# Actors: two message queues and a wait-for edge
-/

namespace LionCore

inductive ActorError
  | mailboxFull (capacity current : Nat)
  | noMessage
  | blocked (aid : ActorId)
  deriving DecidableEq, Repr

structure Message where
  id : MsgId
  src : PluginId
  dst : PluginId
  level : SecurityLevel
  body : List UInt8
  deriving DecidableEq

/-- `pending` is in transit, `mailbox` is delivered; both are first in, first out -/
structure ActorRuntime where
  pending : List Message
  mailbox : List Message
  capacity : Nat
  blockedOn : Option ActorId
  pendingSend : Option Message
  deriving DecidableEq

namespace ActorRuntime

def empty (capacity : Nat) : ActorRuntime := ⟨[], [], capacity, none, none⟩

def canReceive (a : ActorRuntime) : Bool := !a.mailbox.isEmpty

def isBlocked (a : ActorRuntime) : Bool := a.blockedOn.isSome

def pendingLen (a : ActorRuntime) : Nat := a.pending.length

def mailboxLen (a : ActorRuntime) : Nat := a.mailbox.length

def enqueuePending (a : ActorRuntime) (msg : Message) : ActorRuntime :=
  { a with pending := a.pending ++ [msg] }

def enqueuePendingMut (a : ActorRuntime) (msg : Message) : ActorRuntime :=
  { a with pending := a.pending ++ [msg] }

/-- unchanged if nothing is pending or the mailbox is full -/
def deliver (a : ActorRuntime) : ActorRuntime :=
  match a.pending with
  | [] => a
  | msg :: rest =>
    if a.mailbox.length ≥ a.capacity then a
    else { a with pending := rest, mailbox := a.mailbox ++ [msg] }

/-- the oldest pending message moves to the mailbox if there is room -/
def deliverMut (a : ActorRuntime) : Except ActorError Bool × ActorRuntime :=
  match a.pending with
  | [] => (.error .noMessage, a)
  | msg :: rest =>
    if a.mailbox.length < a.capacity then
      (.ok true, { a with pending := rest, mailbox := a.mailbox ++ [msg] })
    else (.ok false, a)

def consume (a : ActorRuntime) : ActorRuntime × Option Message :=
  match a.mailbox with
  | [] => (a, none)
  | msg :: rest => ({ a with mailbox := rest }, some msg)

def consumeMut (a : ActorRuntime) : Option Message × ActorRuntime :=
  match a.mailbox with
  | [] => (none, a)
  | msg :: rest => (some msg, { a with mailbox := rest })

def setBlocked (a : ActorRuntime) (on : ActorId) : ActorRuntime := { a with blockedOn := some on }

def setBlockedMut (a : ActorRuntime) (on : ActorId) : ActorRuntime :=
  { a with blockedOn := some on }

def unblock (a : ActorRuntime) : ActorRuntime := { a with blockedOn := none }

def unblockMut (a : ActorRuntime) : ActorRuntime := { a with blockedOn := none }

end ActorRuntime
end LionCore
