import LionCore.Base.Dense
import LionCore.Base.Phase
import LionCore.Calls

/-!
# What a call does to the record of addresses

* `GhostStep`, `Call.ghostStep`   a call leaves the record alone, allocates the next address, or
                                  frees one by either routine;
* `MetaState.record`              the life of an address: unborn, live with its owner, dead;
* `MetaState.Sound`               the addresses are 0, 1, ..., n - 1 and the freed set is sorted;
* `runCalls_sound`, `runCalls_later`   a run keeps that, and moves every address forward in its
                                  life, as long as the size of the map is a `u64`.
-/

namespace LionCore
open Base

/-! ## calls -/

/-- the address that a call is to free, and the routine -/
def Call.frees : Call → Option (Path × MemAddr)
  | .free addr => some (.inPlace, addr)
  | .execute t => t.frees.map fun addr => (.cloning, addr)
  | .executeMut t => t.frees.map fun addr => (.inPlace, addr)
  | _ => none

/-- what a call can do to the record -/
inductive GhostStep (s : State) : Call → MetaState → Prop
  | same {cl : Call} : GhostStep s cl s.ghost
  | alloc {cl : Call} (owner : PluginId) :
      GhostStep s cl (s.ghost.alloc (asU64 s.ghost.resourceCount) owner)
  | free {cl : Call} {p : Path} {addr : MemAddr} {g : MetaState} (hadm : cl.Admitted s)
      (hc : cl.frees = some (p, addr)) (hck : checkFree s addr = .ok ())
      (h : p.frees s.ghost addr g) : GhostStep s cl g

/-- what a step does to the record, as part of a call -/
theorem Effect.ghostStep {p : Path} {s s' : State} {t : Step} {cl : Call} (h : Effect p s t s')
    (hadm : cl.Admitted s = t.Admitted s) (hcl : cl.frees = t.frees.map fun addr => (p, addr)) :
    GhostStep s cl s'.ghost := by
  cases h with
  | @free t addr g hgate ht hck hg =>
    exact .free (hadm.symm ▸ hgate) (by rw [hcl, ht]; rfl) hck hg
  | @alloc hc auth res hgate hf hck => exact .alloc hc.caller
  | @compute pid pi hck =>
    obtain ⟨actors, e⟩ := pi.consume_frame s pid
    rw [e]
    exact .same
  | use | declassify | revoke | route | workflow | tick | unblock => exact .same

theorem Call.ghostStep (hmac : Hmac) (s : State) (cl : Call) :
    GhostStep s cl (cl.exec hmac s).ghost := by
  have h := cl.leaves hmac s
  generalize cl.exec hmac s = s' at h ⊢
  cases h with
  | same | plugin | actor | resource | workflow | raw | revoke | tick => exact .same
  | delegation h => cases h <;> exact .same
  | @alloc owner size => exact .alloc owner
  | free hck h => exact .free trivial rfl hck h
  | execute h | executeMut h => exact h.ghostStep rfl rfl

/-! ## the life of an address -/

namespace MetaState

/-- the life of an address, as the status map has it -/
def record (m : MetaState) (addr : MemAddr) : Phase PluginId :=
  match m.getStatus addr with
  | some (.allocated owner) => .live owner
  | some .freed => .dead
  | _ => .unborn

theorem record_eq_live_iff (m : MetaState) (addr : MemAddr) (owner : PluginId) :
    m.record addr = .live owner ↔ m.getStatus addr = some (.allocated owner) := by
  unfold record
  cases m.getStatus addr with
  | none => simp
  | some st => cases st <;> simp

theorem record_of_none {m : MetaState} {addr : MemAddr} (h : m.getStatus addr = none) :
    m.record addr = .unborn := by
  unfold record
  rw [h]

/-- every address moves forward in its life, and stays in the freed set -/
def Later (m m' : MetaState) : Prop :=
  (∀ a, m.record a ≤ m'.record a) ∧ ∀ a, m.isFreed a = true → m'.isFreed a = true

instance : Preorder MetaState where
  le := Later
  le_refl _ := ⟨fun _ => le_rfl, fun _ => id⟩
  le_trans _ _ _ h h' := ⟨fun a => (h.1 a).trans (h'.1 a), fun a ha => h'.2 a (h.2 a ha)⟩

/-- the addresses are 0, 1, ..., n - 1, and the freed set is sorted without duplicates -/
structure Sound (m : MetaState) : Prop where
  dense : m.resources.Dense
  freed : Increasing m.freedSet

theorem Sound.empty : MetaState.empty.Sound := ⟨SortedMap.Dense.empty, List.Pairwise.nil⟩

section
variable {m m' : MetaState}

theorem Sound.isFreed_iff (h : m.Sound) (a : MemAddr) : m.isFreed a = true ↔ a ∈ m.freedSet :=
  has_iff h.freed a

theorem Sound.getStatus_eq_none_iff (h : m.Sound) (a : MemAddr) :
    m.getStatus a = none ↔ m.resourceCount ≤ a :=
  h.dense.get_eq_none_iff a

/-! ### allocation -/

/-- the map grows by the next address; beyond the width of a `u64` it would not grow -/
theorem Sound.alloc (h : m.Sound) (owner : PluginId) :
    (m.alloc (asU64 m.resourceCount) owner).Sound ∧
      ((m.resourceCount < u64Size ∧ (m.alloc (asU64 m.resourceCount) owner).resourceCount =
          m.resourceCount + 1) ∨
        (u64Size ≤ m.resourceCount ∧
          (m.alloc (asU64 m.resourceCount) owner).resourceCount = m.resourceCount)) := by
  rcases Nat.lt_or_ge m.resourceCount u64Size with hlt | hge
  · rw [asU64_of_lt hlt]
    obtain ⟨hd, hlen⟩ := h.dense.insert_next (.allocated owner)
    exact ⟨⟨hd, h.freed⟩, Or.inl ⟨hlt, hlen⟩⟩
  · have hpos : 0 < u64Size := by decide
    have hold : asU64 m.resourceCount < m.resources.len :=
      lt_of_lt_of_le (Nat.mod_lt _ hpos) hge
    obtain ⟨hd, hlen⟩ := h.dense.insert_old hold (.allocated owner)
    exact ⟨⟨hd, h.freed⟩, Or.inr ⟨hge, hlen⟩⟩

theorem Sound.later_alloc (h : m.Sound) (hlt : m.resourceCount < u64Size) (owner : PluginId) :
    m.Later (m.alloc (asU64 m.resourceCount) owner) := by
  refine ⟨fun a => ?_, fun _ => id⟩
  by_cases ha : a = m.resourceCount
  · rw [m.record_of_none ((h.getStatus_eq_none_iff a).mpr ha.ge)]
    exact Phase.unborn_le _
  · have hget : (m.alloc (asU64 m.resourceCount) owner).getStatus a = m.getStatus a := by
      rw [asU64_of_lt hlt]
      exact (m.resources.get_insert _ a _).trans (if_neg ha)
    unfold record
    rw [hget]

/-! ### the two ways to free -/

theorem Sound.mem_free (h : m.Sound) (addr a : MemAddr) :
    has (insertKey m.freedSet addr) a = true ↔ a = addr ∨ m.isFreed a = true := by
  rw [has_iff (h.freed.insertKey addr), mem_insertKey, h.isFreed_iff]

theorem Sound.frees (h : m.Sound) {p : Path} {addr : MemAddr} (hf : p.frees m addr m') :
    m'.Sound ∧ m'.resourceCount = m.resourceCount := by
  rcases Path.frees_cases hf with ⟨_, rfl⟩ | ⟨_, hlive, rfl⟩
  · exact ⟨⟨h.dense, h.freed.insertKey addr⟩, rfl⟩
  · obtain ⟨⟨owner, hst⟩, _⟩ := (m.isLive_iff addr).mp hlive
    have hlt : addr < m.resources.len := by
      by_contra hle
      have hnone := (h.getStatus_eq_none_iff addr).mpr (not_lt.mp hle)
      rw [hst] at hnone
      cases hnone
    obtain ⟨hd, hlen⟩ := h.dense.insert_old hlt .freed
    exact ⟨⟨hd, h.freed.insertKey addr⟩, hlen⟩

/-- the freed set of either routine -/
theorem frees_isFreed (h : m.Sound) {p : Path} {addr : MemAddr} (hf : p.frees m addr m')
    (a : MemAddr) : m'.isFreed a = true ↔ a = addr ∨ m.isFreed a = true := by
  rcases Path.frees_cases hf with ⟨_, rfl⟩ | ⟨_, _, rfl⟩
  · exact h.mem_free addr a
  · exact h.mem_free addr a

/-- the status of the freed address may stay, or becomes `freed`; no other status changes -/
theorem frees_getStatus {p : Path} {addr : MemAddr} (hf : p.frees m addr m') (a : MemAddr) :
    m'.getStatus a = m.getStatus a ∨ (a = addr ∧ m'.getStatus a = some .freed) := by
  rcases Path.frees_cases hf with ⟨_, rfl⟩ | ⟨_, _, rfl⟩
  · exact Or.inl rfl
  · by_cases ha : a = addr
    · exact Or.inr ⟨ha, (m.resources.get_insert addr a .freed).trans (if_pos ha)⟩
    · exact Or.inl ((m.resources.get_insert addr a .freed).trans (if_neg ha))

theorem Sound.later_frees (h : m.Sound) {p : Path} {addr : MemAddr} (hf : p.frees m addr m') :
    m.Later m' := by
  refine ⟨fun a => ?_, fun a ha => (frees_isFreed h hf a).mpr (Or.inr ha)⟩
  rcases frees_getStatus hf a with e | ⟨_, e⟩
  · unfold record
    rw [e]
  · have hdead : m'.record a = .dead := by
      unfold record
      rw [e]
    rw [hdead]
    exact Phase.le_dead _

end
end MetaState

/-! ## calls and runs -/

theorem GhostStep.sound {s : State} {cl : Call} {g : MetaState} (h : GhostStep s cl g)
    (w : s.ghost.Sound) : g.Sound ∧ s.ghost.resourceCount ≤ g.resourceCount := by
  cases h with
  | same => exact ⟨w, le_rfl⟩
  | alloc owner =>
    obtain ⟨hs, hlen⟩ := w.alloc owner
    refine ⟨hs, ?_⟩
    rcases hlen with ⟨_, e⟩ | ⟨_, e⟩ <;> omega
  | free _ _ _ hf =>
    obtain ⟨hs, hlen⟩ := w.frees hf
    exact ⟨hs, hlen.ge⟩

theorem GhostStep.later {s : State} {cl : Call} {g : MetaState} (h : GhostStep s cl g)
    (w : s.ghost.Sound) (hlt : s.ghost.resourceCount < u64Size) : s.ghost ≤ g := by
  cases h with
  | same => exact le_rfl
  | alloc owner => exact w.later_alloc hlt owner
  | free _ _ _ hf => exact w.later_frees hf

theorem Call.sound (hmac : Hmac) {s : State} (cl : Call) (w : s.ghost.Sound) :
    (cl.exec hmac s).ghost.Sound :=
  ((cl.ghostStep hmac s).sound w).1

theorem runCalls_sound (hmac : Hmac) {s : State} (cs : List Call) (w : s.ghost.Sound) :
    (runCalls hmac s cs).ghost.Sound :=
  run_invariant (P := fun s : State => s.ghost.Sound) (fun _ cl w => cl.sound hmac w) cs w

/-- the map never shrinks -/
theorem runCalls_count_le (hmac : Hmac) {s : State} (cs : List Call) (w : s.ghost.Sound) :
    s.ghost.resourceCount ≤ (runCalls hmac s cs).ghost.resourceCount :=
  (run_invariant
    (P := fun t : State => t.ghost.Sound ∧ s.ghost.resourceCount ≤ t.ghost.resourceCount)
    (fun t cl h => ⟨cl.sound hmac h.1, h.2.trans ((cl.ghostStep hmac t).sound h.1).2⟩) cs
    ⟨w, le_rfl⟩).2

/-- over a run every address moves forward in its life -/
theorem runCalls_later (hmac : Hmac) {s : State} (cs : List Call) (w : s.ghost.Sound)
    (hlen : (runCalls hmac s cs).ghost.resourceCount < u64Size) :
    s.ghost.resourceCount < u64Size ∧ s.ghost ≤ (runCalls hmac s cs).ghost := by
  have back : ∀ (s : State) (cl : Call), s.ghost.Sound →
      (cl.exec hmac s).ghost.resourceCount < u64Size → s.ghost.resourceCount < u64Size :=
    fun s cl w h => lt_of_le_of_lt ((cl.ghostStep hmac s).sound w).2 h
  exact run_le_of (fun s : State => s.ghost.Sound) (fun s => s.ghost.resourceCount < u64Size)
    (fun s => s.ghost) (fun _ cl w => cl.sound hmac w) back
    (fun s cl w h => (cl.ghostStep hmac s).later w (back s cl w h)) cs w hlen

end LionCore
