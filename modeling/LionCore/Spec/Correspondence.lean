import Mathlib.Data.Finset.Dedup
import LionCore.Addresses
import LionCore.Revocation.Adequacy
import LionCore.Security.SlowRevocation
import LionCore.Spec.Step
import LionCore.Workflow.Refinement

/-!
# The specification's view of a state

* `State.toSpec`              what the specification sees of a state, beside a ghost record;
* `MetaState.Consistent`      the ghost records agree, but for the status of freed addresses;
* `Corresponds`               the two states are in correspondence;
* `State.Ready`               what the specification takes for granted of table and record;
* `standing`                  then a valid entry stands on valid ones;
* `toSpec_revokeTransitive`   and both tables are revoked alike.
-/

namespace LionCore
open Base

/-! ## views -/

def LinearMemory.toSpec (m : LinearMemory) : Spec.LinearMemory := ⟨m.read, m.bounds⟩

def PluginState.toSpec (p : PluginState) : Spec.PluginState :=
  ⟨p.level, p.memory.toSpec, p.heldCaps.toFinset⟩

def RevocationState.toSpec (r : RevocationState) : Spec.RevocationState := ⟨r.get, r.epoch⟩

def KernelState.toSpec (k : KernelState) : Spec.KernelState :=
  ⟨k.keyState.current, k.policy.eval, k.revocation.toSpec⟩

/-- what stands for a workflow that is not registered -/
def Spec.WorkflowInstance.default : Spec.WorkflowInstance :=
  ⟨⟨[], []⟩, .success, fun _ => .pending, 0, fun _ => 0⟩

/-- what is not registered is empty, public and without room -/
def State.toSpec (s : State) (g : Spec.MetaState) : Spec.State where
  kernel := s.kernel.toSpec
  plugins pid := ((s.getPlugin pid).map PluginState.toSpec).getD .default
  actors aid := (s.getActor aid).getD (.empty 0)
  resources rid := (s.getResource rid).getD ⟨.Public⟩
  workflows wid := ((s.getWorkflow wid).map WorkflowInstance.toSpec).getD .default
  ghost := g
  time := s.kernel.now

/-- the same addresses, the same freed set, and the same status unless an address is freed -/
structure MetaState.Consistent (m : MetaState) (g : Spec.MetaState) : Prop where
  domain : ∀ a, g.resources.get a = none ↔ m.getStatus a = none
  freed : ∀ a, a ∈ g.freedSet ↔ m.isFreed a = true
  status : ∀ a, m.isFreed a = false → g.resources.get a = m.getStatus a

def Corresponds (s : State) (ls : Spec.State) : Prop :=
  s.ghost.Consistent ls.ghost ∧ ls = s.toSpec ls.ghost

/-- every valid entry below another stands on a valid one -/
def RevocationState.ParentsValid (r : RevocationState) : Prop :=
  ∀ k p, r.isValid k = true → r.parentOf k = some p → r.isValid p = true

structure State.Ready (s : State) : Prop where
  table : s.kernel.revocation.DocumentedInvariants
  parents : s.kernel.revocation.ParentsValid
  ghost : s.ghost.Sound

/-! ## the view of a change -/

namespace State
section
variable (s : State) (g : Spec.MetaState)

theorem toSpec_withRevocation (r : RevocationState) :
    (s.withRevocation r).toSpec g = (s.toSpec g).withRevocation r.toSpec := rfl

theorem toSpec_plugins {pid : PluginId} {p : PluginState} (h : s.getPlugin pid = some p) :
    (s.toSpec g).plugins pid = p.toSpec := by
  show ((s.getPlugin pid).map PluginState.toSpec).getD .default = p.toSpec
  rw [h]
  rfl

theorem toSpec_actors {aid : ActorId} {a : ActorRuntime} (h : s.getActor aid = some a) :
    (s.toSpec g).actors aid = a := by
  show (s.getActor aid).getD (.empty 0) = a
  rw [h]
  rfl

theorem toSpec_workflows {wid : WorkflowId} {w : WorkflowInstance}
    (h : s.getWorkflow wid = some w) : (s.toSpec g).workflows wid = w.toSpec := by
  show ((s.getWorkflow wid).map WorkflowInstance.toSpec).getD .default = w.toSpec
  rw [h]
  rfl

theorem toSpec_updatePlugin {pid : PluginId} {p : PluginState} (f : PluginState → PluginState)
    (h : s.getPlugin pid = some p) :
    (s.updatePlugin pid f).toSpec g = (s.toSpec g).withPlugin pid (f p).toSpec := by
  have hplugins : ((s.updatePlugin pid f).toSpec g).plugins =
      Function.update (s.toSpec g).plugins pid (f p).toSpec := by
    funext q
    show (((s.updatePlugin pid f).getPlugin q).map PluginState.toSpec).getD .default = _
    rw [getPlugin_updatePlugin]
    by_cases hq : q = pid
    · rw [hq, if_pos rfl, h, Function.update_self]
      rfl
    · rw [if_neg hq, Function.update_of_ne hq]
      rfl
  unfold Spec.State.withPlugin
  rw [← hplugins]
  rfl

theorem toSpec_updateActor {aid : ActorId} {a : ActorRuntime} (f : ActorRuntime → ActorRuntime)
    (h : s.getActor aid = some a) :
    (s.updateActor aid f).toSpec g = (s.toSpec g).withActor aid (f a) := by
  have hactors : ((s.updateActor aid f).toSpec g).actors =
      Function.update (s.toSpec g).actors aid (f a) := by
    funext b
    show ((s.updateActor aid f).getActor b).getD (.empty 0) = _
    rw [getActor_updateActor]
    by_cases hb : b = aid
    · rw [hb, if_pos rfl, h, Function.update_self]
      rfl
    · rw [if_neg hb, Function.update_of_ne hb]
      rfl
  unfold Spec.State.withActor
  rw [← hactors]
  rfl

end
end State

/-- a plugin that looks the same is no change -/
theorem Spec.State.withPlugin_self (ls : Spec.State) (pid : PluginId) :
    ls.withPlugin pid (ls.plugins pid) = ls := by
  unfold withPlugin
  rw [Function.update_eq_self]

/-! ## the table -/

namespace RevocationState

theorem toSpec_hasAncestor (r : RevocationState) (a : CapId) (n : Nat) (k : CapId) :
    Spec.RevocationState.hasAncestor r.get a n k = r.hasAncestorWithFuel a n k := by
  induction n generalizing k with
  | zero => rfl
  | succ n ih =>
    unfold Spec.RevocationState.hasAncestor hasAncestorWithFuel
    cases r.get k with
    | none => rfl
    | some cap =>
      cases hp : cap.parent with
      | none => simp [hp]
      | some p => by_cases h : p = a <;> simp [hp, h, ih]

/-- **The specification revokes what the code revokes.** -/
theorem toSpec_revokeTransitive (r : RevocationState) (c : CapId) :
    (r.revokeTransitive c).toSpec = r.toSpec.revokeTransitive c := by
  have hset : ∀ k, Spec.RevocationState.inRevokeSet r.get k c = r.inRevokeSet k c := by
    intro k
    unfold Spec.RevocationState.inRevokeSet inRevokeSet hasAncestor
    rw [toSpec_hasAncestor]
  have hcaps : (r.revokeTransitive c).get = (r.toSpec.revokeTransitive c).caps := by
    funext k
    show (r.revokeTransitive c).get k = (r.get k).map fun cap =>
      if Spec.RevocationState.inRevokeSet r.get k c then { cap with valid := false } else cap
    rw [hset]
    exact get_cut r (fun k => r.inRevokeSet k c) k
  unfold toSpec
  rw [hcaps]
  rfl

section
variable {r : RevocationState}

/-- by induction on the id: parents are below their children -/
theorem DocumentedInvariants.standing (h : r.DocumentedInvariants) (hp : r.ParentsValid)
    {k : CapId} (hk : r.isValid k = true) : Spec.RevocationState.IsValid r.get k := by
  induction k using Nat.strong_induction_on with
  | h k ih =>
    obtain ⟨cap, hget, hv⟩ := isValid_iff.mp hk
    obtain rfl : cap.id = k := h.keys_match _ (Table.mem_of_find hget)
    cases hpar : cap.parent with
    | none => exact .root hget hv hpar
    | some p =>
      have hparent : r.parentOf cap.id = some p := (parentOf_of_get hget).trans hpar
      exact .child hget hv hpar (ih p (h.parentOf_lt hparent) (hp _ p hk hparent))

/-- a cut that takes everything below what it takes leaves valid parents -/
theorem ParentsValid.cutBy {r' : RevocationState} {S : CapId → Prop} (hp : r.ParentsValid)
    (hc : r.CutBy S r') (hS : ∀ k p, r.parentOf k = some p → S p → S k) : r'.ParentsValid := by
  intro k p hk hpar
  rw [hc.parentOf] at hpar
  obtain ⟨hv, hnot⟩ := (hc.isValid k).mp hk
  apply (hc.isValid p).mpr
  exact ⟨hp k p hv hpar, fun hin => hnot (hS k p hpar hin)⟩

/-- what is documented of a table, from what every operation keeps -/
theorem WellFormed.documented (w : r.WellFormed) (hlt : ∀ k p, r.parentOf k = some p → p < k) :
    r.DocumentedInvariants where
  sorted := w.sorted
  keys_match e he := w.keyed e.1 e.2 (Table.find_of_mem w.sorted he)
  parent_lt e he p hp := by
    have hget : r.get e.1 = some e.2 := Table.find_of_mem w.sorted he
    exact hlt e.1 p ((parentOf_of_get hget).trans hp)
  index_sorted := w.indexSorted
  consistent row hrow k hk := by
    have hmem : k ∈ r.getChildren row.1 := by
      unfold getChildren
      rw [Table.find_of_mem w.indexSorted hrow]
      exact hk
    obtain ⟨cap, hget, hp⟩ := Option.bind_eq_some_iff.mp ((w.children row.1 k).mp hmem)
    exact ⟨cap, hget, hp⟩
  complete e he p hp := by
    have hget : r.get e.1 = some e.2 := Table.find_of_mem w.sorted he
    have hmem := (w.children p e.1).mpr ((parentOf_of_get hget).trans hp)
    unfold getChildren at hmem
    cases hrow : r.childrenIndex.find p with
    | none =>
      rw [hrow] at hmem
      cases hmem
    | some children =>
      rw [hrow] at hmem
      exact ⟨(p, children), Table.mem_of_find hrow, rfl, hmem⟩

theorem DocumentedInvariants.cutBy {r' : RevocationState} {S : CapId → Prop}
    (h : r.DocumentedInvariants) (hc : r.CutBy S r') : r'.DocumentedInvariants := by
  apply (h.wellFormed.cutBy hc).documented
  intro k p hp
  rw [hc.parentOf] at hp
  exact h.parentOf_lt hp

/-- either way to revoke gives the table that the specification asks for -/
theorem DocumentedInvariants.revokes_eq {p : Path} {r' : RevocationState} {c : CapId}
    (h : r.DocumentedInvariants) (hc : r.get c ≠ none) (hr : p.revokes r c r') :
    r' = r.revokeTransitive c := by
  cases p with
  | cloning => exact hr
  | inPlace =>
    have e : r.revokeTransitiveFastMut c = (.ok (), r') := hr
    rw [h.revokeTransitiveFastMut_eq hc] at e
    exact (Prod.mk.inj e).2.symm

theorem DocumentedInvariants.parentsValid_revoke (h : r.DocumentedInvariants)
    (hp : r.ParentsValid) (c : CapId) : (r.revokeTransitive c).ParentsValid := by
  apply hp.cutBy (cutBy_revokeTransitive r c)
  intro k p hpar hin
  apply (r.inRevokeSet_iff k c).mpr
  refine Or.inr ((h.hasAncestor_iff_above k c).mpr ?_)
  rcases (r.inRevokeSet_iff p c).mp hin with rfl | hanc
  · exact Above.parent hpar
  · exact Above.step hpar (above_of_hasAncestor hanc)

end
end RevocationState

/-! ## the ghost record -/

namespace MetaState
section
variable {m : MetaState} {g : Spec.MetaState}

theorem Consistent.count_eq (h : m.Consistent g) : g.resources.len = m.resourceCount :=
  SortedMap.len_congr h.domain

theorem Consistent.isLive_iff (h : m.Consistent g) (a : MemAddr) :
    g.isLive a ↔ m.isLive a = true := by
  have hfreed := h.freed a
  unfold Spec.MetaState.isLive isLive
  cases hf : m.isFreed a with
  | true =>
    rw [hf] at hfreed
    have hmem : a ∈ g.freedSet := hfreed.mpr rfl
    cases g.resources.get a with
    | none => cases m.resources.get a with
      | none => simp
      | some st => cases st <;> simp
    | some st' => cases m.resources.get a with
      | none => cases st' <;> simp [hmem]
      | some st => cases st' <;> cases st <;> simp [hmem]
  | false =>
    rw [hf] at hfreed
    have hmem : a ∉ g.freedSet := fun hm => Bool.false_ne_true (hfreed.mp hm)
    rw [h.status a hf]
    unfold getStatus
    cases m.resources.get a with
    | none => simp
    | some st => cases st <;> simp [hmem]

theorem Consistent.alloc (h : m.Consistent g) (hlt : m.resourceCount < u64Size)
    (owner : PluginId) :
    (m.alloc (asU64 m.resourceCount) owner).Consistent (g.alloc g.resources.len owner) := by
  have hget : ∀ a, (g.alloc g.resources.len owner).resources.get a =
      if a = m.resourceCount then some (.allocated owner) else g.resources.get a := by
    intro a
    rw [← h.count_eq]
    exact g.resources.get_insert _ a _
  have hstatus : ∀ a, (m.alloc (asU64 m.resourceCount) owner).getStatus a =
      if a = m.resourceCount then some (.allocated owner) else m.getStatus a := by
    intro a
    rw [asU64_of_lt hlt]
    exact m.resources.get_insert _ a _
  refine ⟨fun a => ?_, h.freed, fun a ha => ?_⟩
  · rw [hget, hstatus]
    by_cases he : a = m.resourceCount
    · simp [he]
    · simpa [he] using h.domain a
  · rw [hget, hstatus, h.status a ha]

/-- beyond the width of a `u64` an old address is given out again -/
theorem Sound.not_consistent_alloc (hs : m.Sound) (hge : u64Size ≤ m.resourceCount)
    (h : m.Consistent g) (owner : PluginId) :
    ¬ (m.alloc (asU64 m.resourceCount) owner).Consistent (g.alloc g.resources.len owner) := by
  intro hc
  have hlen : (m.alloc (asU64 m.resourceCount) owner).resourceCount = m.resourceCount := by
    rcases (hs.alloc owner).2 with ⟨hlt, _⟩ | ⟨_, e⟩
    · exact absurd hlt (Nat.not_lt.mpr hge)
    · exact e
  have hnone := ((hs.alloc owner).1.getStatus_eq_none_iff m.resourceCount).mpr hlen.le
  have hget : (g.alloc g.resources.len owner).resources.get m.resourceCount =
      some (.allocated owner) := by
    rw [← h.count_eq]
    exact (g.resources.get_insert _ _ _).trans (if_pos rfl)
  have hdom := (hc.domain m.resourceCount).mpr hnone
  rw [hget] at hdom
  cases hdom

theorem Sound.consistent_frees (hs : m.Sound) (h : m.Consistent g) {p : Path} {m' : MetaState}
    {addr : MemAddr} (hlive : m.isLive addr = true) (hf : p.frees m addr m') :
    m'.Consistent (g.free addr) := by
  have hget : ∀ a, (g.free addr).resources.get a =
      if a = addr then some .freed else g.resources.get a :=
    fun a => g.resources.get_insert addr a .freed
  have hfreed := frees_isFreed hs hf
  obtain ⟨⟨owner, hst⟩, _⟩ := (m.isLive_iff addr).mp hlive
  refine ⟨fun a => ?_, fun a => ?_, fun a ha => ?_⟩
  · rw [hget]
    by_cases he : a = addr
    · rw [if_pos he, he]
      refine iff_of_false nofun fun hnone => ?_
      rcases frees_getStatus hf addr with e | ⟨_, e⟩
      · rw [e, hst] at hnone
        cases hnone
      · rw [e] at hnone
        cases hnone
    · rw [if_neg he, h.domain a]
      rcases frees_getStatus hf a with e | ⟨e, _⟩
      · rw [e]
      · exact absurd e he
  · rw [hfreed a, ← h.freed a]
    show a ∈ g.freedSet ∪ {addr} ↔ _
    rw [Finset.mem_union, Finset.mem_singleton, or_comm]
  · have hne : a ≠ addr := by
      rintro rfl
      rw [(hfreed a).mpr (Or.inl rfl)] at ha
      cases ha
    have hold : m.isFreed a = false := by
      apply Bool.eq_false_iff.mpr
      intro ht
      rw [(hfreed a).mpr (Or.inr ht)] at ha
      cases ha
    rw [hget, if_neg hne, h.status a hold]
    rcases frees_getStatus hf a with e | ⟨e, _⟩
    · exact e.symm
    · exact absurd e hne

end

/-- the status of an address, where a freed one counts as freed -/
def seenStatus (m : MetaState) (addr : MemAddr) (st : ResourceStatus) : ResourceStatus :=
  if m.isFreed addr then .freed else st

def toSpec (m : MetaState) : Spec.MetaState where
  resources := ⟨m.resources.entries.mapVal m.seenStatus,
    m.resources.sorted.of_keys (Table.keys_mapVal _ _)⟩
  freedSet := m.freedSet.toFinset

theorem Sound.consistent_toSpec {m : MetaState} (h : m.Sound) : m.Consistent m.toSpec := by
  have hget : ∀ a, m.toSpec.resources.get a = (m.getStatus a).map (m.seenStatus a) :=
    fun a => Table.find_mapVal m.seenStatus m.resources.entries a
  refine ⟨fun a => ?_, fun a => ?_, fun a ha => ?_⟩
  · rw [hget, Option.map_eq_none_iff]
  · rw [h.isFreed_iff]
    exact List.mem_toFinset
  · have hseen : m.seenStatus a = id := by
      funext st
      unfold seenStatus
      rw [ha]
      rfl
    rw [hget, hseen]
    exact congrFun Option.map_id _

end MetaState

theorem State.Ready.corresponds {s : State} (h : s.Ready) :
    Corresponds s (s.toSpec s.ghost.toSpec) :=
  ⟨h.ghost.consistent_toSpec, rfl⟩

/-! ## the states that calls reach -/

/-- a capability that comes in below another has the larger id, and a valid parent if it is valid -/
def KeepsReady (s : State) : Call → Prop
  | .insertCapRaw cap _ => s.getCap cap.id = none → ∀ p, cap.parent = some p →
      p < cap.id ∧ (cap.valid = true → s.capIsValid p = true)
  | .delegateCap p _ _ => s.getCap s.kernel.nextCapId = none → p < s.kernel.nextCapId
  | _ => True

section
variable {r r' : RevocationState} {cap : Capability}

theorem RevocationState.DocumentedInvariants.inserted (h : r.DocumentedInvariants)
    (hi : r.Inserted cap r') (hlt : ∀ p, cap.parent = some p → p < cap.id) :
    r'.DocumentedInvariants := by
  apply (h.wellFormed.inserted hi).documented
  intro k p hp
  rw [hi.parentOf h.sorted] at hp
  split at hp
  · rename_i hk
    exact hk ▸ hlt p hp
  · exact h.parentOf_lt hp

theorem RevocationState.ParentsValid.inserted (h : r.ParentsValid) (hs : r.caps.Sorted)
    (hi : r.Inserted cap r')
    (hcap : cap.valid = true → ∀ p, cap.parent = some p → r.isValid p = true) :
    r'.ParentsValid := by
  -- an entry that was there before is found as before
  have hold : ∀ p, r.isValid p = true → r'.isValid p = true := by
    intro p hp
    obtain ⟨c, hget, hv⟩ := isValid_iff.mp hp
    refine isValid_iff.mpr ⟨c, ?_, hv⟩
    rw [hi.get hs, if_neg, hget]
    rintro rfl
    rw [hi.fresh] at hget
    cases hget
  intro k p hk hp
  rw [hi.parentOf hs] at hp
  obtain ⟨c, hget, hv⟩ := isValid_iff.mp hk
  rw [hi.get hs] at hget
  split at hp
  · rename_i he
    rw [if_pos he] at hget
    cases hget
    exact hold p (hcap hv p hp)
  · rename_i he
    rw [if_neg he] at hget
    exact hold p (h k p (isValid_iff.mpr ⟨c, hget, hv⟩) hp)

end

theorem Call.ready (hmac : Hmac) {s : State} (cl : Call) (hr : s.Ready) (hok : KeepsReady s cl) :
    (cl.exec hmac s).Ready := by
  have hghost := cl.sound hmac hr.ghost
  have ht := cl.tableStep hmac s
  generalize cl.exec hmac s = s' at hghost ht
  suffices s'.kernel.revocation.DocumentedInvariants ∧ s'.kernel.revocation.ParentsValid from
    ⟨this.1, this.2, hghost⟩
  generalize s'.kernel.revocation = r' at ht
  cases ht with
  | same => exact ⟨hr.table, hr.parents⟩
  | raw hi =>
    have hins := RevocationState.inserted_of_insertMut hi
    exact ⟨hr.table.inserted hins fun p hp => (hok hins.fresh p hp).1,
      hr.parents.inserted hr.table.sorted hins fun hv p hp => (hok hins.fresh p hp).2 hv⟩
  | @child p target requested cap r hc hi =>
    have hins := RevocationState.inserted_of_insertMut hi
    obtain ⟨pc, hpc, hv, _⟩ := hc.entry
    have hparent : ∀ q, cap.parent = some q → q = p :=
      fun q hq => Option.some.inj (hq.symm.trans hc.parent)
    refine ⟨hr.table.inserted hins fun q hq => ?_,
      hr.parents.inserted hr.table.sorted hins fun _ q hq => ?_⟩
    · have hfresh := hins.fresh
      rw [hparent q hq, hc.id]
      rw [hc.id] at hfresh
      exact hok hfresh
    · rw [hparent q hq]
      exact RevocationState.isValid_iff.mpr ⟨pc, hpc, hv⟩
  | @revoke cl path c r _ _ hpres hrev =>
    obtain rfl := hr.table.revokes_eq hpres hrev
    exact ⟨hr.table.cutBy (RevocationState.cutBy_revokeTransitive _ c),
      hr.table.parentsValid_revoke hr.parents c⟩

theorem ready_initial (key : Key) (policy : PolicyState) : (State.initial key policy).Ready where
  table := by
    apply RevocationState.WellFormed.empty.documented
    intro k p hp
    cases hp
  parents k p hk := by cases hk
  ghost := .empty

theorem runCalls_ready (hmac : Hmac) (key : Key) (policy : PolicyState) (cs : List Call)
    (hok : Along (Call.exec hmac) KeepsReady (.initial key policy) cs) :
    (runCalls hmac (.initial key policy) cs).Ready :=
  run_invariant_of (fun _ cl h hcl => cl.ready hmac h hcl) cs (ready_initial key policy) hok

/-! ## a capability below another -/

/-- a root under the id 0, and a child for plugin 3; the delegation that takes the id of the root
fails, the next one goes through -/
def sampleLineage : List Call :=
  [.alloc 1 8, .registerPlugin 1 .Public 0, .registerPlugin 3 .Public 8,
    .insertCapRaw { sampleRoot with id := 0 } 1, .delegateCap 0 3 (.singleton .read),
    .delegateCap 0 3 (.singleton .read)]

theorem sampleLineage_ready :
    Along (Call.exec sampleMac) KeepsReady (.initial .empty .permitAll) sampleLineage := by
  refine And.intro trivial (And.intro trivial (And.intro trivial
    (And.intro (fun _ _ hp => nomatch hp) (And.intro ?_ (And.intro ?_ trivial)))))
  · intro hfree
    exact absurd hfree (by decide)
  · intro _
    decide

def sampleChild : Capability := ⟨1, 3, 0, .singleton .read, some 0, 0, true, sampleMac .empty []⟩

end LionCore
