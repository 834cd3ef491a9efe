import LionCore.Delivery

/-!
# Mailboxes

The operations on an actor in both forms, alone and among the steps of a state.

* `ActorOp.exec_inPlace`   the two forms of an operation agree;
* `ActorOp.moves`          an operation is a part of a run of the queue;
* `Effect.otherActors`     a step leaves the actors alone that it is not about;
* `mailbox_fifo`           **main result**: what was consumed, the mailbox and the pending messages
                           are together what was enqueued, in this order.
-/

namespace LionCore
open Base

/-! ## operations on one actor -/

inductive ActorOp
  | enqueuePending (msg : Message)
  | enqueuePendingMut (msg : Message)
  | deliver
  | deliverMut
  | consume
  | consumeMut
  | setBlocked (on : ActorId)
  | setBlockedMut (on : ActorId)
  | unblock
  | unblockMut
  deriving DecidableEq

namespace ActorOp

def exec (a : ActorRuntime) : ActorOp → ActorRuntime
  | .enqueuePending msg => a.enqueuePending msg
  | .enqueuePendingMut msg => a.enqueuePendingMut msg
  | .deliver => a.deliver
  | .deliverMut => a.deliverMut.2
  | .consume => a.consume.1
  | .consumeMut => a.consumeMut.2
  | .setBlocked on => a.setBlocked on
  | .setBlockedMut on => a.setBlockedMut on
  | .unblock => a.unblock
  | .unblockMut => a.unblockMut

/-- what the operation puts into the pending queue -/
def enqueued (_a : ActorRuntime) : ActorOp → List Message
  | .enqueuePending msg | .enqueuePendingMut msg => [msg]
  | _ => []

/-- what the operation gives back out of the mailbox -/
def consumed (a : ActorRuntime) : ActorOp → List Message
  | .consume => a.consume.2.toList
  | .consumeMut => a.consumeMut.1.toList
  | _ => []

/-- the mutating form -/
def inPlace : ActorOp → ActorOp
  | .enqueuePending msg => .enqueuePendingMut msg
  | .deliver => .deliverMut
  | .consume => .consumeMut
  | .setBlocked on => .setBlockedMut on
  | .unblock => .unblockMut
  | op => op

end ActorOp

namespace ActorRuntime

theorem deliver_eq (a : ActorRuntime) : a.deliver = a.deliverMut.2 := by
  unfold deliver deliverMut
  cases a.pending with
  | nil => rfl
  | cons msg rest =>
    by_cases h : a.mailbox.length < a.capacity
    · simp only [if_pos h, if_neg (not_le.mpr h)]
    · simp only [if_neg h, if_pos (not_lt.mp h)]

theorem consume_eq (a : ActorRuntime) : a.consume = (a.consumeMut.2, a.consumeMut.1) := by
  unfold consume consumeMut
  cases a.mailbox <;> rfl

end ActorRuntime

namespace ActorOp

/-- **The two forms of an operation leave the same actor and give back the same message.** -/
theorem exec_inPlace (op : ActorOp) (a : ActorRuntime) :
    op.exec a = op.inPlace.exec a ∧ op.consumed a = op.inPlace.consumed a := by
  cases op with
  | deliver => exact ⟨a.deliver_eq, rfl⟩
  | consume =>
    have h := a.consume_eq
    exact ⟨congrArg Prod.fst h, congrArg (fun r => r.2.toList) h⟩
  | _ => exact ⟨rfl, rfl⟩

theorem enqueued_inPlace (op : ActorOp) (a : ActorRuntime) :
    op.enqueued a = op.inPlace.enqueued a := by
  cases op <;> rfl

theorem moves (a : ActorRuntime) (op : ActorOp) :
    a.Moves (op.enqueued a) (op.consumed a) (op.exec a) := by
  rw [(op.exec_inPlace a).1, (op.exec_inPlace a).2, op.enqueued_inPlace a]
  cases op with
  | enqueuePending msg | enqueuePendingMut msg => exact a.moves_enqueue msg
  | deliver | deliverMut => exact a.moves_deliver
  | consume | consumeMut => exact a.moves_consume
  | setBlocked _ | setBlockedMut _ => exact ⟨List.append_nil _, rfl, id⟩
  | unblock | unblockMut => exact a.moves_unblock

theorem run_moves (a : ActorRuntime) (ops : List ActorOp) :
    a.Moves (outputs exec enqueued a ops) (outputs exec consumed a ops) (run exec a ops) :=
  run_outputs (R := fun ins outs a a' => ActorRuntime.Moves ins outs a a') .refl
    (fun h h' => h.trans h') moves a ops

end ActorOp

/-! ## among the steps of a state -/

theorem Effect.otherActors {p : Path} {s s' : State} {t : Step} (h : Effect p s t s')
    {aid : ActorId} (ha : t.actor ≠ some aid) : s'.getActor aid = s.getActor aid := by
  have change : ∀ (dst : ActorId) (f : ActorRuntime → ActorRuntime), aid ≠ dst →
      (s.updateActor dst f).getActor aid = s.getActor aid := by
    intro dst f hne
    rw [State.getActor_updateActor, if_neg hne]
  cases h with
  | @compute pid pi hck =>
    rw [LionCore.consume_eq]
    cases hm : pi.consumeMailbox with
    | true => exact change _ _ fun e => ha (by rw [e]; exact if_pos hm)
    | false => rfl
  | route hck | unblock hck => exact change _ _ fun e => ha (congrArg some e.symm)
  | use | alloc | declassify | free | revoke | workflow | tick => rfl

/-- an attempt at a step, or an operation on an actor of the state -/
inductive MailboxOp
  | step (p : Path) (t : Step)
  | actor (aid : ActorId) (op : ActorOp)
  deriving DecidableEq

namespace MailboxOp

def exec (s : State) : MailboxOp → State
  | .step p t => attempt s (p, t)
  | .actor dst op => s.updateActor dst op.exec

/-- the only actor that the operation may change -/
def subject : MailboxOp → Option ActorId
  | .step _ t => t.actor
  | .actor dst _ => some dst

/-- what the operation puts into the pending queue of `aid`, if there is such an actor -/
def enqueued (aid : ActorId) (s : State) : MailboxOp → List Message
  | .step _ _ => []
  | .actor dst op => if dst = aid then ((s.getActor aid).map op.enqueued).getD [] else []

/-- what the operation takes out of the mailbox of `aid` -/
def consumed (aid : ActorId) (s : State) : MailboxOp → List Message
  | .step p t => QueueOp.consumed aid s (.attempt p t)
  | .actor dst op =>
    if dst = aid then ((s.getActor aid).map fun a => op.consumed a).getD [] else []

theorem moves (s : State) (op : MailboxOp) {aid : ActorId} {a : ActorRuntime}
    (ha : s.getActor aid = some a) : ∃ a', (op.exec s).getActor aid = some a' ∧
      a.Moves (op.enqueued aid s) (op.consumed aid s) a' := by
  cases op with
  | step p t => exact QueueOp.moves s (.attempt p t) ha
  | actor dst op =>
    simp only [exec, enqueued, consumed, ha, Option.map_some, Option.getD_some]
    refine State.moves_updateActor ha (fun he => ?_) (fun he => ?_)
    · rw [if_pos he, if_pos he]
      exact op.moves a
    · rw [if_neg he, if_neg he]
      exact .refl a

theorem otherActors (s : State) (op : MailboxOp) {aid : ActorId} (h : op.subject ≠ some aid) :
    (op.exec s).getActor aid = s.getActor aid := by
  cases op with
  | step p t =>
    rcases attempt_cases s p t with hx | hx
    · exact hx.effect.otherActors h
    · exact congrArg (State.getActor · aid) hx
  | actor dst op =>
    show (s.updateActor dst op.exec).getActor aid = _
    rw [State.getActor_updateActor, if_neg fun e => h (congrArg some e.symm)]

end MailboxOp

/-- the messages are in order, and the mailbox is not too long -/
structure ActorRuntime.Fifo (enqueued consumed : List Message) (capacity : Nat)
    (a : ActorRuntime) : Prop where
  order : consumed ++ a.mailbox ++ a.pending = enqueued
  within : a.mailbox.length ≤ capacity

theorem ActorRuntime.Moves.fifo {ins outs : List Message} {capacity : Nat} {a : ActorRuntime}
    (h : (ActorRuntime.empty capacity).Moves ins outs a) : a.Fifo ins outs capacity where
  order := by
    rw [List.append_assoc]
    exact h.queue.symm
  within := by
    have hw := h.within (Nat.zero_le capacity)
    rw [h.capacity] at hw
    exact hw

/-- **Main result**: an actor that starts empty, alone or in a state whose steps run by either
path among the operations on its actors.  What was consumed, the mailbox and the pending messages
are together what was enqueued, in this order, and the mailbox is within the capacity; the two
forms of an operation agree; and no operation changes an actor that it is not about. -/
theorem mailbox_fifo :
    (∀ capacity ops,
      (run ActorOp.exec (.empty capacity) ops).Fifo
        (outputs ActorOp.exec ActorOp.enqueued (.empty capacity) ops)
        (outputs ActorOp.exec ActorOp.consumed (.empty capacity) ops) capacity) ∧
    (∀ s ops aid capacity, s.getActor aid = some (.empty capacity) →
      ∃ a, (run MailboxOp.exec s ops).getActor aid = some a ∧
        a.Fifo (outputs MailboxOp.exec (MailboxOp.enqueued aid) s ops)
          (outputs MailboxOp.exec (MailboxOp.consumed aid) s ops) capacity) ∧
    (∀ (op : ActorOp) a, op.exec a = op.inPlace.exec a ∧ op.consumed a = op.inPlace.consumed a) ∧
    ∀ s (op : MailboxOp) aid, op.subject ≠ some aid →
      (op.exec s).getActor aid = s.getActor aid := by
  refine ⟨fun capacity ops => ?_, ?_, ActorOp.exec_inPlace, fun s op _ h => op.otherActors s h⟩
  · exact (ActorOp.run_moves (.empty capacity) ops).fifo
  · intro s ops aid capacity hs
    obtain ⟨a, ha, hm⟩ := run_moves (fun s op _ => op.moves s) ops hs
    exact ⟨a, ha, hm.fifo⟩

end LionCore
