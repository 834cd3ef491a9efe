import LionCore.Memory.Flat
import LionCore.Step.Frame

/-!
# When a sandboxed computation is executed

The documented preconditions stand beside what the code checks: a plugin without an actor passes
the test of the mailbox, and of every region to be written one byte is checked again.

* `PluginInternal.Documented`         the preconditions as documented;
* `PluginInternal.checkAll_ok_iff`    what passes all checks;
* `LinearMemory.atEnd_iff`            the only empty region that the second look refuses;
* `executed_as_documented_iff`        **main result**: on which inputs the two are the same;
* `not_executed_as_documented`        one input of each kind on which they are not.
-/

namespace LionCore
open Base

/-- an empty region that starts where no byte can follow -/
def LinearMemory.AtEnd (m : LinearMemory) (r : MemAddr × Size) : Prop :=
  r.2 = 0 ∧ (r.1 = m.bounds ∨ r.1 + 1 = u64Size)

/-- an empty region may end where it starts, any other has a first byte -/
theorem firstByte_arith {addr size bounds width : Nat} (hwidth : addr + size < width)
    (hbounds : addr + size ≤ bounds) : (addr + 1 < width ∧ addr + 1 ≤ bounds) ↔
      ¬ (size = 0 ∧ (addr = bounds ∨ addr + 1 = width)) := by
  omega

/-- of a region in bounds, the first byte is in bounds too unless the region is empty and at the
end -/
theorem LinearMemory.firstByte_iff (m : LinearMemory) {r : MemAddr × Size}
    (h : m.addrInBounds r.1 r.2 = true) : m.addrInBounds r.1 1 = true ↔ ¬ m.AtEnd r := by
  rw [addrInBounds_iff] at h ⊢
  exact firstByte_arith h.1 h.2

/-- in a memory whose size is a `u64` there is one such region -/
theorem LinearMemory.atEnd_iff (m : LinearMemory) {r : MemAddr × Size}
    (h : m.addrInBounds r.1 r.2 = true) (hb : m.bounds < u64Size) :
    m.AtEnd r ↔ r = (m.bounds, 0) := by
  obtain ⟨addr, size⟩ := r
  obtain ⟨_, hle⟩ := (m.addrInBounds_iff addr size).mp h
  unfold AtEnd
  rw [Prod.mk.injEq]
  constructor
  · intro he
    obtain ⟨rfl, rfl | hlast⟩ := he
    · exact ⟨rfl, rfl⟩
    · have hge : m.bounds < addr + 1 := Nat.lt_of_lt_of_le hb (Nat.le_of_eq hlast.symm)
      exact ⟨Nat.le_antisymm hle (Nat.le_of_lt_succ hge), rfl⟩
  · intro he
    exact ⟨he.2, Or.inl he.1⟩

namespace PluginInternal

/-- `plugin` is registered as `pid` and not blocked, and the regions are in bounds -/
structure Admissible (pi : PluginInternal) (s : State) (pid : PluginId) (plugin : PluginState) :
    Prop where
  registered : s.getPlugin pid = some plugin
  notBlocked : ∀ actor, s.getActor pid = some actor → actor.isBlocked = false
  reads : ∀ r ∈ pi.reads, plugin.memory.addrInBounds r.1 r.2 = true
  writes : ∀ r ∈ pi.writes, plugin.memory.addrInBounds r.1 r.2 = true

/-- a message is there if the computation consumes one -/
def HasMessage (pi : PluginInternal) (s : State) (pid : PluginId) : Prop :=
  pi.consumeMailbox = true → ∃ actor, s.getActor pid = some actor ∧ actor.mailbox ≠ []

/-- the preconditions as documented -/
def Documented (pi : PluginInternal) (s : State) (pid : PluginId) : Prop :=
  (∃ plugin, pi.Admissible s pid plugin) ∧ pi.HasMessage s pid

/-! ## what the code checks -/

section
variable (pi : PluginInternal) (s : State) (pid : PluginId)

theorem checkNotBlocked_ok_iff : checkNotBlocked s pid = .ok () ↔
    ∀ actor, s.getActor pid = some actor → actor.isBlocked = false := by
  unfold checkNotBlocked
  cases s.getActor pid with
  | none => simp
  | some actor => cases hb : actor.isBlocked <;> simp [hb]

/-- no message is asked of a plugin without an actor -/
def MailboxPasses : Prop :=
  pi.consumeMailbox = true → ∀ actor, s.getActor pid = some actor → actor.mailbox ≠ []

theorem checkMailbox_ok_iff : pi.checkMailbox s pid = .ok () ↔ pi.MailboxPasses s pid := by
  unfold checkMailbox MailboxPasses ActorRuntime.canReceive
  cases pi.consumeMailbox with
  | false => simp
  | true =>
    cases s.getActor pid with
    | none => simp
    | some actor => cases hm : actor.mailbox <;> simp [hm]

theorem findOobRead_eq_none_iff (plugin : PluginState) : pi.findOobRead plugin = none ↔
    ∀ r ∈ pi.reads, plugin.memory.addrInBounds r.1 r.2 = true := by
  unfold findOobRead
  rw [List.findSome?_eq_none_iff]
  simp

theorem findOobWrite_eq_none_iff (plugin : PluginState) : pi.findOobWrite plugin = none ↔
    ∀ r ∈ pi.writes, plugin.memory.addrInBounds r.1 r.2 = true := by
  unfold findOobWrite
  rw [List.findSome?_eq_none_iff]
  simp

theorem checkWriteStarts_ok_iff (plugin : PluginState) : pi.checkWriteStarts plugin = .ok () ↔
    ∀ r ∈ pi.writes, plugin.memory.addrInBounds r.1 1 = true := by
  have hfind := List.find?_eq_none (p := fun r => !plugin.memory.addrInBounds r.1 1)
    (l := pi.writes)
  unfold checkWriteStarts
  cases h : pi.writes.find? fun r => !plugin.memory.addrInBounds r.1 1 with
  | none => simpa [h] using hfind
  | some r => simpa [h] using hfind

theorem checkPreconditions_ok_iff : pi.checkPreconditions s pid = .ok () ↔
    ∃ plugin, pi.Admissible s pid plugin ∧ pi.MailboxPasses s pid := by
  unfold checkPreconditions
  cases hp : s.getPlugin pid with
  | none => exact iff_of_false nofun fun ⟨_, h, _⟩ => by cases hp.symm.trans h.registered
  | some plugin =>
    refine check_bind_ok_iff.trans ?_
    rw [checkNotBlocked_ok_iff]
    constructor
    · intro h
      obtain ⟨hblocked, hrest⟩ := h
      cases hr : pi.findOobRead plugin with
      | some err => rw [hr] at hrest; cases hrest
      | none =>
        cases hw : pi.findOobWrite plugin with
        | some err => rw [hr, hw] at hrest; cases hrest
        | none =>
          rw [hr, hw] at hrest
          exact ⟨plugin, ⟨hp, hblocked, (pi.findOobRead_eq_none_iff plugin).mp hr,
            (pi.findOobWrite_eq_none_iff plugin).mp hw⟩, (pi.checkMailbox_ok_iff s pid).mp hrest⟩
    · rintro ⟨plugin', h, hmail⟩
      obtain rfl : plugin = plugin' := Option.some.inj (hp.symm.trans h.registered)
      refine ⟨h.notBlocked, ?_⟩
      rw [(pi.findOobRead_eq_none_iff plugin).mpr h.reads,
        (pi.findOobWrite_eq_none_iff plugin).mpr h.writes]
      exact (pi.checkMailbox_ok_iff s pid).mpr hmail

/-- what passes all checks: the second look at the regions to be written refuses the empty ones at
the end -/
theorem checkAll_ok_iff : pi.checkAll s pid = .ok () ↔ ∃ plugin, pi.Admissible s pid plugin ∧
    pi.MailboxPasses s pid ∧ ∀ r ∈ pi.writes, ¬ plugin.memory.AtEnd r := by
  unfold checkAll
  cases hp : s.getPlugin pid with
  | none => exact iff_of_false nofun fun ⟨_, h, _⟩ => by cases hp.symm.trans h.registered
  | some plugin =>
    refine check_bind_ok_iff.trans ?_
    rw [checkPreconditions_ok_iff, checkWriteStarts_ok_iff]
    constructor
    · rintro ⟨⟨plugin', h, hmail⟩, hstart⟩
      obtain rfl : plugin = plugin' := Option.some.inj (hp.symm.trans h.registered)
      exact ⟨plugin, h, hmail, fun r hr =>
        (plugin.memory.firstByte_iff (h.writes r hr)).mp (hstart r hr)⟩
    · rintro ⟨plugin', h, hmail, hend⟩
      obtain rfl : plugin = plugin' := Option.some.inj (hp.symm.trans h.registered)
      exact ⟨⟨plugin, h, hmail⟩, fun r hr =>
        (plugin.memory.firstByte_iff (h.writes r hr)).mpr (hend r hr)⟩

end

/-! ## where the two differ -/

/-- the inputs that are executed without a message to consume, and those that are refused although
every precondition holds -/
inductive Misjudged (pi : PluginInternal) (s : State) (pid : PluginId) : Prop
  | noActor {plugin : PluginState} (h : pi.Admissible s pid plugin)
      (hconsume : pi.consumeMailbox = true) (hactor : s.getActor pid = none)
      (hend : ∀ r ∈ pi.writes, ¬ plugin.memory.AtEnd r)
  | emptyWrite {plugin : PluginState} (h : pi.Admissible s pid plugin)
      (hmessage : pi.HasMessage s pid) {r : MemAddr × Size} (hr : r ∈ pi.writes)
      (hend : plugin.memory.AtEnd r)

variable {pi : PluginInternal} {s : State} {pid : PluginId}

theorem Admissible.unique {plugin plugin' : PluginState} (h : pi.Admissible s pid plugin)
    (h' : pi.Admissible s pid plugin') : plugin' = plugin :=
  Option.some.inj (h'.registered.symm.trans h.registered)

theorem checkAll_ok_iff_documented :
    (pi.checkAll s pid = .ok () ↔ pi.Documented s pid) ↔ ¬ pi.Misjudged s pid := by
  rw [checkAll_ok_iff]
  constructor
  · intro h hm
    cases hm with
    | noActor hadm hconsume hactor hend =>
      have hmail : pi.MailboxPasses s pid := by
        intro _ actor ha
        cases hactor.symm.trans ha
      obtain ⟨actor, ha, _⟩ := (h.mp ⟨_, hadm, hmail, hend⟩).2 hconsume
      cases hactor.symm.trans ha
    | emptyWrite hadm hmessage hr hend =>
      obtain ⟨plugin, hadm', _, hfree⟩ := h.mpr ⟨⟨_, hadm⟩, hmessage⟩
      obtain rfl := hadm.unique hadm'
      exact hfree _ hr hend
  · intro hn
    constructor
    · rintro ⟨plugin, hadm, hmail, hend⟩
      refine ⟨⟨plugin, hadm⟩, fun hconsume => ?_⟩
      cases ha : s.getActor pid with
      | none => exact absurd (.noActor hadm hconsume ha hend) hn
      | some actor => exact ⟨actor, rfl, hmail hconsume actor ha⟩
    · rintro ⟨⟨plugin, hadm⟩, hmessage⟩
      refine ⟨plugin, hadm, fun hconsume actor ha => ?_, fun r hr hend => ?_⟩
      · obtain ⟨actor', ha', hne⟩ := hmessage hconsume
        exact Option.some.inj (ha'.symm.trans ha) ▸ hne
      · exact hn (.emptyWrite hadm hmessage hr hend)

end PluginInternal

/-! ## execution -/

/-- all that an execution does: the head of the mailbox goes if the computation consumes it -/
def headTaken (s : State) (pid : PluginId) (pi : PluginInternal) : State :=
  if pi.consumeMailbox then s.updateActor pid fun a => { a with mailbox := a.mailbox.tail } else s

theorem exec_pluginInternal_iff (p : Path) (s s' : State) (pid : PluginId) (pi : PluginInternal) :
    Exec p (.pluginInternal pid pi) s s' ↔
      pi.checkAll s pid = .ok () ∧ s' = headTaken s pid pi := by
  have htaken : headTaken s pid pi = pi.consume s pid := (consume_eq pi s pid).symm
  rw [htaken]
  cases p with
  | cloning =>
    refine check_bind_ok_iff.trans (and_congr_right fun _ => ?_)
    exact ⟨fun h => (Except.ok.inj h).symm, fun h => congrArg Except.ok h.symm⟩
  | inPlace =>
    refine guardMut_ok_iff.trans (and_congr_right fun _ => ?_)
    exact ⟨fun h => (Prod.mk.inj h).2.symm, fun h => congrArg (Prod.mk _) h.symm⟩

/-- the step succeeds exactly under the documented preconditions, and then takes out the head of
the mailbox if it is to be consumed, and changes nothing else -/
def ExecutedAsDocumented (p : Path) (s : State) (pid : PluginId) (pi : PluginInternal) : Prop :=
  ((∃ s', Exec p (.pluginInternal pid pi) s s') ↔ pi.Documented s pid) ∧
    ∀ s', Exec p (.pluginInternal pid pi) s s' → s' = headTaken s pid pi

/-- **Main result**: by either path, in every state and for all lists of regions, a sandboxed
computation is executed as documented exactly if it is not one of the misjudged inputs. -/
theorem executed_as_documented_iff (p : Path) (s : State) (pid : PluginId) (pi : PluginInternal) :
    ExecutedAsDocumented p s pid pi ↔ ¬ pi.Misjudged s pid := by
  have hsucceeds : (∃ s', Exec p (.pluginInternal pid pi) s s') ↔ pi.checkAll s pid = .ok () :=
    ⟨fun ⟨s', h⟩ => ((exec_pluginInternal_iff p s s' pid pi).mp h).1,
      fun h => ⟨_, (exec_pluginInternal_iff p s _ pid pi).mpr ⟨h, rfl⟩⟩⟩
  unfold ExecutedAsDocumented
  rw [hsucceeds, PluginInternal.checkAll_ok_iff_documented]
  exact and_iff_left fun s' h => ((exec_pluginInternal_iff p s s' pid pi).mp h).2

/-- plugin 1 with eight bytes of memory, and no actor -/
def sampleSandbox : State := (State.empty.insertPlugin 1 (.empty .Public 8)).2

/-- a message is to be consumed where there is no mailbox, and the computation is executed; an
empty region at the end of the memory is in bounds, and the computation is refused -/
theorem not_executed_as_documented :
    (∀ p, ¬ ExecutedAsDocumented p sampleSandbox 1 ⟨[], [], true⟩) ∧
      ∀ p, ¬ ExecutedAsDocumented p sampleSandbox 1 ⟨[], [(8, 0)], false⟩ := by
  have hactor : sampleSandbox.getActor 1 = none := by decide
  constructor
  · intro p h
    have hexec : Exec p (.pluginInternal 1 ⟨[], [], true⟩) sampleSandbox sampleSandbox :=
      (exec_pluginInternal_iff p _ _ 1 _).mpr ⟨by decide, by decide⟩
    obtain ⟨actor, ha, _⟩ := (h.1.mp ⟨_, hexec⟩).2 rfl
    cases hactor.symm.trans ha
  · intro p h
    have hadm : PluginInternal.Admissible ⟨[], [(8, 0)], false⟩ sampleSandbox 1
        (.empty .Public 8) :=
      ⟨by decide, fun _ ha => absurd (hactor.symm.trans ha) (Option.some_ne_none _).symm,
        by decide, by decide⟩
    obtain ⟨s', hexec⟩ := h.1.mpr ⟨⟨_, hadm⟩, fun hconsume => by cases hconsume⟩
    have hchecks := ((exec_pluginInternal_iff p _ s' 1 _).mp hexec).1
    revert hchecks
    decide

end LionCore
