import LionCore.Security.SlowRevocation
import LionCore.Step.Frame

/-!
# Messages from the send to the consumption

A send is checked, but it queues nothing: the messages stay in the result of the host call.  They
come into a queue when they are put there (`enqueuePendingMut`), are moved by `routeOne`, and leave
with a computation that consumes.

* `ActorRuntime.Moves`   a part of a run, seen from one actor: what came in, and what went out;
* `QueueOp.moves`        every operation is of that kind, for every actor;
* `delivery`             **main result**: the messages of an actor leave in the order in which they
                         came, each of them once.
-/

namespace LionCore
open Base

/-! ## one actor -/

namespace ActorRuntime

/-- all messages of an actor, the oldest first -/
def queue (a : ActorRuntime) : List Message := a.mailbox ++ a.pending

/-- from `a` to `a'` the messages `ins` came in at the end, and `outs` went out at the front -/
structure Moves (ins outs : List Message) (a a' : ActorRuntime) : Prop where
  queue : a.queue ++ ins = outs ++ a'.queue
  capacity : a'.capacity = a.capacity
  within : a.mailbox.length ≤ a.capacity → a'.mailbox.length ≤ a'.capacity

theorem Moves.refl (a : ActorRuntime) : Moves [] [] a a :=
  ⟨List.append_nil _, rfl, id⟩

theorem Moves.trans {ins ins' outs outs' : List Message} {a b c : ActorRuntime}
    (h : Moves ins outs a b) (h' : Moves ins' outs' b c) :
    Moves (ins ++ ins') (outs ++ outs') a c where
  queue := by
    rw [← List.append_assoc, h.queue, List.append_assoc, h'.queue, List.append_assoc]
  capacity := h'.capacity.trans h.capacity
  within hw := h'.within (h.within hw)

theorem moves_enqueue (a : ActorRuntime) (msg : Message) :
    Moves [msg] [] a (a.enqueuePendingMut msg) :=
  ⟨List.append_assoc _ _ _, rfl, id⟩

theorem moves_deliver (a : ActorRuntime) : Moves [] [] a a.deliverMut.2 := by
  unfold deliverMut
  split
  · exact .refl a
  · rename_i msg rest hp
    by_cases hroom : a.mailbox.length < a.capacity
    · rw [if_pos hroom]
      refine ⟨?_, rfl, fun _ => ?_⟩
      · unfold queue
        rw [hp]
        simp
      · rw [List.length_append]
        exact hroom
    · rw [if_neg hroom]
      exact .refl a

theorem moves_consume (a : ActorRuntime) :
    Moves [] a.consumeMut.1.toList a a.consumeMut.2 := by
  unfold consumeMut
  split
  · exact .refl a
  · rename_i msg rest hm
    refine ⟨?_, rfl, fun hw => ?_⟩
    · unfold queue
      rw [hm]
      simp
    · rw [hm] at hw
      exact Nat.le_of_succ_le hw

theorem moves_unblock (a : ActorRuntime) : Moves [] [] a a.unblockMut :=
  ⟨List.append_nil _, rfl, id⟩

end ActorRuntime

/-! ## the whole state -/

/-- an attempt at a step, or a message that is put into the pending queue of an actor -/
inductive QueueOp
  | attempt (p : Path) (t : Step)
  | enqueue (dst : ActorId) (msg : Message)
  deriving DecidableEq

/-- the step takes a message out of the mailbox of `aid` -/
def Step.consumes (aid : ActorId) : Step → Bool
  | .pluginInternal pid pi => decide (pid = aid) && pi.consumeMailbox
  | _ => false

namespace QueueOp

def exec (s : State) : QueueOp → State
  | .attempt p t => LionCore.attempt s (p, t)
  | .enqueue dst msg => s.updateActor dst (·.enqueuePendingMut msg)

/-- what the operation puts into the queues of `aid` -/
def arrived (aid : ActorId) (_s : State) : QueueOp → List Message
  | .attempt _ _ => []
  | .enqueue dst msg => if dst = aid then [msg] else []

/-- what the operation takes out of the mailbox of `aid`, if it succeeds -/
def consumed (aid : ActorId) (s : State) : QueueOp → List Message
  | .attempt p t =>
    if t.consumes aid ∧ Exec p t s (LionCore.attempt s (p, t)) then
      ((s.getActor aid).bind fun a => a.consumeMut.1).toList
    else []
  | .enqueue _ _ => []

end QueueOp

theorem State.moves_updateActor {s : State} {aid dst : ActorId} {a : ActorRuntime}
    {f : ActorRuntime → ActorRuntime} {ins outs : List Message} (ha : s.getActor aid = some a)
    (hf : dst = aid → a.Moves ins outs (f a)) (hne : dst ≠ aid → a.Moves ins outs a) :
    ∃ a', (s.updateActor dst f).getActor aid = some a' ∧ a.Moves ins outs a' := by
  rw [State.getActor_updateActor, ha]
  by_cases he : dst = aid
  · rw [if_pos he.symm]
    exact ⟨f a, rfl, hf he⟩
  · rw [if_neg (Ne.symm he)]
    exact ⟨a, rfl, hne he⟩

/-- **An effect moves messages within the queues of an actor, or consumes the oldest.** -/
theorem Effect.moves {p : Path} {s s' : State} {t : Step} (h : Effect p s t s') {aid : ActorId}
    {a : ActorRuntime} (ha : s.getActor aid = some a) :
    ∃ a', s'.getActor aid = some a' ∧
      a.Moves [] (if t.consumes aid then a.consumeMut.1.toList else []) a' := by
  have same : ∃ a', s.getActor aid = some a' ∧ a.Moves [] [] a' := ⟨a, ha, .refl a⟩
  cases h with
  | @compute pid pi hck =>
    show ∃ a', (pi.consume s pid).getActor aid = some a' ∧
      a.Moves [] (if decide (pid = aid) && pi.consumeMailbox then _ else []) a'
    unfold PluginInternal.consume
    cases pi.consumeMailbox with
    | false =>
      rw [Bool.and_false]
      exact same
    | true =>
      rw [Bool.and_true]
      refine State.moves_updateActor ha (fun he => ?_) (fun he => ?_)
      · rw [decide_eq_true he]
        exact a.moves_consume
      · rw [decide_eq_false he]
        exact .refl a
  | route hck => exact State.moves_updateActor ha (fun _ => a.moves_deliver) fun _ => .refl a
  | unblock hck => exact State.moves_updateActor ha (fun _ => a.moves_unblock) fun _ => .refl a
  | free hgate ht hck hg =>
    rcases Step.frees_cases ht with ⟨_, rfl⟩ | ⟨_, _, _, rfl, _⟩ <;> exact same
  | revoke hgate ht hck hr =>
    rcases Step.revokes_cases ht with ⟨_, rfl⟩ | ⟨_, _, _, rfl, _⟩ <;> exact same
  | use | alloc | declassify | workflow | tick => exact same

theorem QueueOp.moves (s : State) (op : QueueOp) {aid : ActorId} {a : ActorRuntime}
    (ha : s.getActor aid = some a) :
    ∃ a', (op.exec s).getActor aid = some a' ∧
      a.Moves (op.arrived aid s) (op.consumed aid s) a' := by
  cases op with
  | enqueue dst msg =>
    show ∃ a', (s.updateActor dst (·.enqueuePendingMut msg)).getActor aid = some a' ∧
      a.Moves (if dst = aid then [msg] else []) [] a'
    refine State.moves_updateActor ha (fun he => ?_) (fun he => ?_)
    · rw [if_pos he]
      exact a.moves_enqueue msg
    · rw [if_neg he]
      exact .refl a
  | attempt p t =>
    show ∃ a', (LionCore.attempt s (p, t)).getActor aid = some a' ∧ a.Moves []
      (if t.consumes aid ∧ Exec p t s (LionCore.attempt s (p, t)) then
        ((s.getActor aid).bind fun a => a.consumeMut.1).toList else []) a'
    by_cases hx : Exec p t s (LionCore.attempt s (p, t))
    · have hiff : (t.consumes aid = true ∧ Exec p t s (LionCore.attempt s (p, t))) ↔
          t.consumes aid = true := and_iff_left hx
      rw [ha, if_congr hiff rfl rfl]
      exact hx.effect.moves ha
    · rw [if_neg fun h => hx h.2, (attempt_cases s p t).resolve_left hx]
      exact ⟨a, ha, .refl a⟩

/-- the messages of `aid` that come in and that are consumed along a run, if every operation moves
messages -/
theorem run_moves {Op : Type} {exec : State → Op → State} {ins outs : State → Op → List Message}
    {aid : ActorId} (step : ∀ s op a, s.getActor aid = some a →
      ∃ a', (exec s op).getActor aid = some a' ∧ a.Moves (ins s op) (outs s op) a')
    (ops : List Op) {s : State} {a : ActorRuntime} (ha : s.getActor aid = some a) :
    ∃ a', (run exec s ops).getActor aid = some a' ∧
      a.Moves (outputs exec ins s ops) (outputs exec outs s ops) a' := by
  refine run_outputs (R := fun ins outs s s' => ∀ a, s.getActor aid = some a →
    ∃ a', s'.getActor aid = some a' ∧ a.Moves ins outs a') ?_ ?_ ?_ s ops a ha
  · exact fun _ a ha => ⟨a, ha, .refl a⟩
  · intro _ _ _ _ _ _ _ first rest a ha
    obtain ⟨b, hb, hab⟩ := first a ha
    obtain ⟨c, hc, hbc⟩ := rest b hb
    exact ⟨c, hc, hab.trans hbc⟩
  · exact step

/-! ## a send -/

/-- the caller sends it, and its destination has room -/
def Message.Sendable (m : Message) (s : State) (caller : PluginId) : Prop :=
  m.src = caller ∧ ∃ a, s.getActor m.dst = some a ∧ a.mailbox.length < a.capacity

theorem checkMessage_ok {s : State} {hc : HostCall} {m : Message}
    (h : checkMessage s hc m = .ok ()) : m.Sendable s hc.caller := by
  unfold checkMessage at h
  split at h
  · cases h
  rename_i hsrc
  split at h
  · cases h
  rename_i a ha
  split at h
  · cases h
  rename_i hroom
  exact ⟨not_not.mp hsrc, a, ha, Nat.lt_of_not_le hroom⟩

theorem checkMessages_ok {s : State} {hc : HostCall} {msgs : List Message}
    (h : checkMessages s hc msgs = .ok ()) : ∀ m ∈ msgs, m.Sendable s hc.caller := by
  induction msgs with
  | nil => exact fun _ hm => nomatch hm
  | cons msg rest ih =>
    obtain ⟨hfirst, hrest⟩ := check_bind_ok_iff.mp h
    exact List.forall_mem_cons.mpr ⟨checkMessage_ok hfirst, ih hrest⟩

/-- **A send that succeeds has changed nothing.** -/
theorem cap_send_cases {p : Path} {s s' : State} {hc : HostCall} {auth : Authorized}
    {res : HostResult} (hf : hc.function = .capSend) (h : Exec p (.hostCall hc auth res) s s') :
    s' = s ∧ ∀ m ∈ res.newMsgs, m.Sendable s hc.caller := by
  have he := h.effect.hostCall.2
  rw [hf] at he
  cases he with
  | capSend hck =>
    refine ⟨rfl, checkMessages_ok ?_⟩
    unfold checkCapSend at hck
    split at hck
    · cases hck
    · exact hck

/-- **Main result**: a send that succeeds, by either path, leaves the state as it was.  Along any
run, what an actor had in its queues and what was put there afterwards is what it has consumed and
what it still has, in this order; and a mailbox stays within its capacity. -/
theorem delivery (s : State) :
    (∀ p hc auth res s', HostCall.function hc = .capSend → Exec p (.hostCall hc auth res) s s' →
      s' = s ∧ ∀ m ∈ res.newMsgs, m.Sendable s hc.caller) ∧
    ∀ ops aid a, s.getActor aid = some a →
      ∃ a', (run QueueOp.exec s ops).getActor aid = some a' ∧
        a.queue ++ outputs QueueOp.exec (QueueOp.arrived aid) s ops =
          outputs QueueOp.exec (QueueOp.consumed aid) s ops ++ a'.queue ∧
        a'.capacity = a.capacity ∧
        (a.mailbox.length ≤ a.capacity → a'.mailbox.length ≤ a'.capacity) := by
  refine ⟨fun _ _ _ _ _ hf h => cap_send_cases hf h, fun ops aid a ha => ?_⟩
  obtain ⟨a', ha', hm⟩ := run_moves (fun s op _ => op.moves s) ops ha
  exact ⟨a', ha', hm.queue, hm.capacity, hm.within⟩

/-- plugin 1 may send at the resource 0; actor 2 has room for four messages -/
def sampleSender : State :=
  runCalls sampleMac (.initial .empty .permitAll)
    [.alloc 1 8, .registerPlugin 1 .Public 0, .registerPlugin 2 .Public 0,
      .insertActor 2 (.empty 4),
      .insertCapRaw ⟨100, 1, 0, .singleton .send, none, 0, true, .empty⟩ 1]

def sampleMessage : Message := ⟨0, 1, 2, .Public, []⟩

def sampleSend : Step :=
  .hostCall ⟨1, .capSend, [], [], []⟩ ⟨⟨100, 1, 0, .singleton .send, none, 0, true, .empty⟩,
    ⟨1, 0, .singleton .send, "cap_send"⟩, ⟨0, none⟩⟩ ⟨[], [sampleMessage]⟩

/-- a message that was sent, by either path, is in no queue of its destination -/
theorem sent_not_queued :
    ∃ a, Exec .cloning sampleSend sampleSender sampleSender ∧
      Exec .inPlace sampleSend sampleSender sampleSender ∧
      sampleSender.getActor sampleMessage.dst = some a ∧ sampleMessage ∉ a.queue :=
  ⟨.empty 4, by decide, by decide, by decide, by decide⟩

end LionCore
