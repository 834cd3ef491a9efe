import LionCore.Base.Footprint
import LionCore.Step.Verdict

/-!
# The footprint of a step

* `Cell`, `State.Same`      the cells of a state, and agreement on one of them;
* `Step.uses`, `.writes`    the cells that a step uses, and those that it writes;
* `State.Sorted.ext`        states that agree on all cells are equal if their tables are sorted;
* `verdict_congr`           the verdict of a step depends on what it uses,
* `change_written`          and so does what it writes;
* `change_frame`            the rest is left alone;
* `SortedState.footprint`   so attempts have footprints.
-/

namespace LionCore
open Base

/-! ## cells -/

inductive Cell
  | plugin (pid : PluginId)
  | actor (aid : ActorId)
  | table
  | address (addr : MemAddr)
  | clock
  | fixed
  deriving DecidableEq

/-- what no step changes -/
structure SameFixed (s s' : State) : Prop where
  keyState : s.kernel.keyState = s'.kernel.keyState
  policy : s.kernel.policy = s'.kernel.policy
  nextCapId : s.kernel.nextCapId = s'.kernel.nextCapId
  resources : s.resources = s'.resources
  workflows : s.workflows = s'.workflows
  pluginKeys : s.plugins.keys = s'.plugins.keys
  actorKeys : s.actors.keys = s'.actors.keys

/-- the two states agree on the cell -/
def State.Same (c : Cell) (s s' : State) : Prop :=
  match c with
  | .plugin pid => s.getPlugin pid = s'.getPlugin pid
  | .actor aid => s.getActor aid = s'.getActor aid
  | .table => s.kernel.revocation = s'.kernel.revocation
  | .address addr => s.ghost.getStatus addr = s'.ghost.getStatus addr ∧
      s.ghost.isFreed addr = s'.ghost.isFreed addr
  | .clock => s.kernel.now = s'.kernel.now
  | .fixed => SameFixed s s'

theorem State.same_equiv (c : Cell) : Equivalence (State.Same c) := by
  cases c with
  | plugin pid => exact ⟨fun _ => rfl, fun h => h.symm, fun h h' => h.trans h'⟩
  | actor aid => exact ⟨fun _ => rfl, fun h => h.symm, fun h h' => h.trans h'⟩
  | table => exact ⟨fun _ => rfl, fun h => h.symm, fun h h' => h.trans h'⟩
  | address addr =>
    exact ⟨fun _ => ⟨rfl, rfl⟩, fun h => ⟨h.1.symm, h.2.symm⟩,
      fun h h' => ⟨h.1.trans h'.1, h.2.trans h'.2⟩⟩
  | clock => exact ⟨fun _ => rfl, fun h => h.symm, fun h h' => h.trans h'⟩
  | fixed =>
    refine ⟨fun _ => ⟨rfl, rfl, rfl, rfl, rfl, rfl, rfl⟩, fun h => ?_, fun h h' => ?_⟩
    · exact ⟨h.1.symm, h.2.symm, h.3.symm, h.4.symm, h.5.symm, h.6.symm, h.7.symm⟩
    · exact ⟨h.1.trans h'.1, h.2.trans h'.2, h.3.trans h'.3, h.4.trans h'.4, h.5.trans h'.5,
        h.6.trans h'.6, h.7.trans h'.7⟩

theorem State.Same.rfl {c : Cell} {s : State} : State.Same c s s := (State.same_equiv c).refl s

/-- the tables that cells are read from are sorted -/
structure State.Sorted (s : State) : Prop where
  plugins : s.plugins.Sorted
  actors : s.actors.Sorted
  freed : Increasing s.ghost.freedSet

theorem MetaState.ext_addresses {m m' : MetaState} (hm : Increasing m.freedSet)
    (hm' : Increasing m'.freedSet)
    (h : ∀ a, m.getStatus a = m'.getStatus a ∧ m.isFreed a = m'.isFreed a) : m = m' := by
  have hres : m.resources = m'.resources := SortedMap.ext_get fun a => (h a).1
  have hfreed : m.freedSet = m'.freedSet := by
    apply List.Pairwise.eq_of_mem_iff hm hm'
    intro a
    rw [← has_iff hm, ← has_iff hm']
    exact iff_of_eq (congrArg (· = true) (h a).2)
  cases m
  cases m'
  cases hres
  cases hfreed
  rfl

/-- **Cells tell sorted states apart.** -/
theorem State.Sorted.ext {s s' : State} (hs : s.Sorted) (hs' : s'.Sorted)
    (h : ∀ c, State.Same c s s') : s = s' := by
  have hfixed : SameFixed s s' := h .fixed
  have hplugins : s.plugins = s'.plugins :=
    Table.Sorted.ext hs.plugins hs'.plugins fun pid => h (.plugin pid)
  have hactors : s.actors = s'.actors :=
    Table.Sorted.ext hs.actors hs'.actors fun aid => h (.actor aid)
  have hghost : s.ghost = s'.ghost :=
    MetaState.ext_addresses hs.freed hs'.freed fun addr => h (.address addr)
  have htable : s.kernel.revocation = s'.kernel.revocation := h .table
  have hclock : s.kernel.now = s'.kernel.now := h .clock
  obtain ⟨⟨_, _, _, _, _⟩, _, _, _, _, _⟩ := s
  obtain ⟨⟨_, _, _, _, _⟩, _, _, _, _, _⟩ := s'
  obtain ⟨hkey, hpolicy, hnext, hresources, hworkflows, _, _⟩ := hfixed
  simp only at hplugins hactors hghost htable hclock hkey hpolicy hnext hresources hworkflows
  rw [hplugins, hactors, hghost, htable, hclock, hkey, hpolicy, hnext, hresources, hworkflows]

/-! ## footprints -/

/-- the cells that a host function uses, beside those of its gate -/
def HostFunction.uses (f : HostFunction) (hc : HostCall) (res : HostResult) : Set Cell :=
  match f with
  | .capSend => {c | ∃ m ∈ res.newMsgs, c = .actor m.dst}
  | .kernelAlloc => {c | ∃ addr, c = .address addr}
  | .memFree => {.address hc.firstOrZero}
  | _ => ∅

def HostFunction.writes (f : HostFunction) (hc : HostCall) : Set Cell :=
  match f with
  | .kernelAlloc => {c | c = .plugin hc.caller ∨ ∃ addr, c = .address addr}
  | .memFree => {.address hc.firstOrZero}
  | .capRevoke => {.table}
  | .declassify => {.plugin hc.caller}
  | _ => ∅

namespace Step

def uses : Step → Set Cell
  | .pluginInternal pid _ => {.plugin pid, .actor pid}
  | .hostCall hc auth res =>
    {.plugin hc.caller, .table, .address (asU64 auth.action.target), .fixed} ∪
      hc.function.uses hc res
  | .kernelInternal (.routeOne dst) => {.actor dst}
  | .kernelInternal (.workflowTick _) => {.fixed}
  | .kernelInternal .timeTick => {.clock}
  | .kernelInternal (.unblockSend dst) => {.actor dst}
  | .kernelInternal (.threadSwitch _ _) => ∅
  | .memFree _ addr => {.table, .address addr}
  | .capRevoke _ _ => {.table}

def writes : Step → Set Cell
  | .pluginInternal pid pi => {c | pi.consumeMailbox = true ∧ c = .actor pid}
  | .hostCall hc _ _ => hc.function.writes hc
  | .kernelInternal (.routeOne dst) => {.actor dst}
  | .kernelInternal (.workflowTick _) => ∅
  | .kernelInternal .timeTick => {.clock}
  | .kernelInternal (.unblockSend dst) => {.actor dst}
  | .kernelInternal (.threadSwitch _ _) => ∅
  | .memFree _ addr => {.address addr}
  | .capRevoke _ _ => {.table}

theorem writes_subset_uses (t : Step) : t.writes ⊆ t.uses := by
  intro c hc
  cases t with
  | pluginInternal pid pi =>
    obtain ⟨_, rfl⟩ := hc
    exact Or.inr rfl
  | hostCall hc' auth res =>
    obtain ⟨caller, f, args, reads, writes⟩ := hc'
    cases f with
    | kernelAlloc =>
      rcases hc with rfl | hc
      · exact Or.inl (Or.inl rfl)
      · exact Or.inr hc
    | memFree => exact Or.inr hc
    | capRevoke =>
      obtain rfl := Set.mem_singleton_iff.mp hc
      exact Or.inl (Or.inr (Or.inl rfl))
    | declassify =>
      obtain rfl := Set.mem_singleton_iff.mp hc
      exact Or.inl (Or.inl rfl)
    | capCall | capSend | threadCreate | threadConfigure | threadResume | threadSuspend
    | threadDestroy => exact False.elim hc
  | kernelInternal op =>
    cases op with
    | routeOne | timeTick | unblockSend => exact hc
    | workflowTick | threadSwitch => exact False.elim hc
  | memFree caller addr => exact Or.inr hc
  | capRevoke caller c' => exact hc

end Step

/-! ## what a verdict depends on -/

section
variable {s s' : State}

theorem isLive_congr {addr : MemAddr} (h : State.Same (.address addr) s s') :
    s.ghost.isLive addr = s'.ghost.isLive addr := by
  have hst : s.ghost.resources.get addr = s'.ghost.resources.get addr := h.1
  unfold MetaState.isLive
  rw [hst, h.2]

theorem pluginHolds_congr {pid : PluginId} (h : State.Same (.plugin pid) s s') (c : CapId) :
    s.pluginHolds pid c = s'.pluginHolds pid c := by
  have hp : s.getPlugin pid = s'.getPlugin pid := h
  unfold State.pluginHolds
  rw [hp]

/-- an action without the right to write is not asked about integrity -/
theorem bibaWriteOk_of_no_write {a : Action} (h : a.rights.contains .write = false) (s : State) :
    bibaWriteOk s a = true := by
  unfold bibaWriteOk
  rw [h]
  rfl

theorem validate_congr {auth : Authorized} (hw : auth.action.rights.contains .write = false)
    (hplugin : State.Same (.plugin auth.action.subject) s s') (htable : State.Same .table s s')
    (haddr : State.Same (.address (asU64 auth.action.target)) s s')
    (hfixed : State.Same .fixed s s') : auth.validate s = auth.validate s' := by
  have hpolicy : s.kernel.policy = s'.kernel.policy := SameFixed.policy hfixed
  have ht : s.kernel.revocation = s'.kernel.revocation := htable
  have hbiba : auth.checkBiba s = auth.checkBiba s' := by
    unfold Authorized.checkBiba
    rw [bibaWriteOk_of_no_write hw, bibaWriteOk_of_no_write hw]
    rfl
  have hcap : auth.checkCapability s = auth.checkCapability s' := by
    unfold Authorized.checkCapability
    rw [pluginHolds_congr hplugin]
  have hpol : auth.checkPolicy s = auth.checkPolicy s' := by
    unfold Authorized.checkPolicy
    rw [hpolicy]
  have hval : auth.checkValidity s = auth.checkValidity s' := by
    unfold Authorized.checkValidity
    rw [ht]
  have hlive : auth.checkLiveness s = auth.checkLiveness s' := by
    unfold Authorized.checkLiveness
    simp only [isLive_congr haddr]
  unfold Authorized.validate
  rw [hcap, hpol, hval, hlive, hbiba]

theorem checkHostCall_congr {hc : HostCall} {auth : Authorized}
    (hplugin : State.Same (.plugin hc.caller) s s') (htable : State.Same .table s s')
    (haddr : State.Same (.address (asU64 auth.action.target)) s s')
    (hfixed : State.Same .fixed s s') : checkHostCall s hc auth = checkHostCall s' hc auth := by
  unfold checkHostCall
  by_cases hsubj : auth.action.subject = hc.caller
  · rw [if_neg (not_not.mpr hsubj), if_neg (not_not.mpr hsubj)]
    cases hreq : hc.requiredAction with
    | error e => rfl
    | ok derived =>
      by_cases hd : derived = auth.action
      · have hw : auth.action.rights.contains .write = false :=
          hd ▸ (HostCall.required hreq).no_write
        have hp : s.getPlugin hc.caller = s'.getPlugin hc.caller := hplugin
        rw [← hsubj] at hplugin
        have hval := validate_congr hw hplugin htable haddr hfixed
        have hpre : hc.checkPreconditions s = hc.checkPreconditions s' := by
          unfold HostCall.checkPreconditions
          rw [hp]
        show (if derived ≠ auth.action then _ else _) = if derived ≠ auth.action then _ else _
        rw [hval, hpre]
      · show (if derived ≠ auth.action then _ else _) = if derived ≠ auth.action then _ else _
        rw [if_pos hd, if_pos hd]
  · rw [if_pos hsubj, if_pos hsubj]

theorem checkMessages_congr {hc : HostCall} {msgs : List Message}
    (h : ∀ m ∈ msgs, State.Same (.actor m.dst) s s') :
    checkMessages s hc msgs = checkMessages s' hc msgs := by
  induction msgs with
  | nil => rfl
  | cons msg rest ih =>
    have ha : s.getActor msg.dst = s'.getActor msg.dst := h msg List.mem_cons_self
    have hmsg : checkMessage s hc msg = checkMessage s' hc msg := by
      unfold checkMessage
      rw [ha]
    unfold checkMessages
    rw [hmsg, ih fun m hm => h m (List.mem_cons_of_mem msg hm)]

theorem checkFree_congr {addr : MemAddr} (htable : State.Same .table s s')
    (haddr : State.Same (.address addr) s s') : checkFree s addr = checkFree s' addr := by
  have ht : s.kernel.revocation = s'.kernel.revocation := htable
  unfold checkFree
  rw [haddr.2, ht]

/-- what the ghost record answers to a free -/
theorem freeMut_congr {addr : MemAddr} (haddr : State.Same (.address addr) s s') :
    (s.ghost.freeMut addr).1 = (s'.ghost.freeMut addr).1 := by
  have hst : s.ghost.resources.get addr = s'.ghost.resources.get addr := haddr.1
  unfold MetaState.freeMut
  rw [haddr.2, hst]
  cases s'.ghost.isFreed addr with
  | true => rfl
  | false =>
    cases s'.ghost.resources.get addr with
    | none => rfl
    | some st => cases st <;> rfl

theorem freeVerdict_congr (p : Path) {addr : MemAddr} (wrap : StateError → StepError)
    (htable : State.Same .table s s') (haddr : State.Same (.address addr) s s') :
    freeVerdict p s addr wrap = freeVerdict p s' addr wrap := by
  unfold freeVerdict
  rw [checkFree_congr htable haddr]
  cases p with
  | cloning => rfl
  | inPlace =>
    have h := freeMut_congr haddr
    revert h
    rcases s.ghost.freeMut addr with ⟨res, g⟩
    rcases s'.ghost.freeMut addr with ⟨res', g'⟩
    intro h
    obtain rfl : res = res' := h
    cases res <;> rfl

theorem revokeVerdict_congr (p : Path) (c : CapId) (htable : State.Same .table s s') :
    revokeVerdict p s c = revokeVerdict p s' c := by
  have ht : s.kernel.revocation = s'.kernel.revocation := htable
  unfold revokeVerdict checkRevoke
  rw [ht]

theorem HostFunction.verdict_congr (p : Path) {hc : HostCall} {res : HostResult}
    (f : HostFunction) (hplugin : State.Same (.plugin hc.caller) s s')
    (htable : State.Same .table s s') (h : ∀ c ∈ f.uses hc res, State.Same c s s') :
    f.verdict p s hc res = f.verdict p s' hc res := by
  have hp : s.getPlugin hc.caller = s'.getPlugin hc.caller := hplugin
  have ht : s.kernel.revocation = s'.kernel.revocation := htable
  cases f with
  | capCall =>
    show checkCapCall s hc = checkCapCall s' hc
    unfold checkCapCall
    rw [hp, ht]
  | capSend =>
    show checkCapSend s hc res = checkCapSend s' hc res
    unfold checkCapSend
    rw [checkMessages_congr fun m hm => h _ ⟨m, hm, rfl⟩]
  | kernelAlloc =>
    show checkAlloc s hc = checkAlloc s' hc
    unfold checkAlloc
    rw [hp]
  | memFree =>
    show (hc.firstArg .noAddress >>= fun addr => freeVerdict p s addr freeFailed) =
      (hc.firstArg .noAddress >>= fun addr => freeVerdict p s' addr freeFailed)
    cases harg : hc.firstArg .noAddress with
    | error e => rfl
    | ok addr =>
      apply freeVerdict_congr p freeFailed htable
      exact HostCall.firstOrZero_of harg ▸ h _ rfl
  | capRevoke =>
    show (hc.firstArg .noCapabilityId >>= fun c => revokeVerdict p s c) =
      (hc.firstArg .noCapabilityId >>= fun c => revokeVerdict p s' c)
    simp only [revokeVerdict_congr p _ htable]
  | declassify =>
    show (checkDeclassify s hc).map _ = (checkDeclassify s' hc).map _
    unfold checkDeclassify
    rw [hp]
  | threadCreate | threadConfigure | threadResume | threadSuspend | threadDestroy => rfl

/-- **The verdict of a step depends on the cells that it uses.** -/
theorem verdict_congr (p : Path) (t : Step) (h : ∀ c ∈ t.uses, State.Same c s s') :
    t.verdict p s = t.verdict p s' := by
  cases t with
  | pluginInternal pid pi =>
    have hp : s.getPlugin pid = s'.getPlugin pid := h (.plugin pid) (Or.inl rfl)
    have ha : s.getActor pid = s'.getActor pid := h (.actor pid) (Or.inr rfl)
    show pi.checkAll s pid = pi.checkAll s' pid
    unfold PluginInternal.checkAll PluginInternal.checkPreconditions
      PluginInternal.checkNotBlocked PluginInternal.checkMailbox
    rw [hp, ha]
  | hostCall hc auth res =>
    have hplugin := h (.plugin hc.caller) (Or.inl (Or.inl rfl))
    have htable := h .table (Or.inl (Or.inr (Or.inl rfl)))
    have haddr := h (.address _) (Or.inl (Or.inr (Or.inr (Or.inl rfl))))
    have hfixed := h .fixed (Or.inl (Or.inr (Or.inr (Or.inr rfl))))
    show (checkHostCall s hc auth >>= fun _ => hc.function.verdict p s hc res) =
      (checkHostCall s' hc auth >>= fun _ => hc.function.verdict p s' hc res)
    rw [checkHostCall_congr hplugin htable haddr hfixed,
      hc.function.verdict_congr p hplugin htable fun c hc' => h c (Or.inr hc')]
  | kernelInternal op =>
    cases op with
    | routeOne dst =>
      have ha : s.getActor dst = s'.getActor dst := h _ rfl
      show checkRouteOne s dst = checkRouteOne s' dst
      unfold checkRouteOne
      rw [ha]
    | workflowTick wid =>
      have hw : s.workflows = s'.workflows := SameFixed.workflows (h .fixed rfl)
      show checkWorkflowTick s wid = checkWorkflowTick s' wid
      unfold checkWorkflowTick State.getWorkflow
      rw [hw]
    | timeTick =>
      have hnow : s.kernel.now = s'.kernel.now := h .clock rfl
      show (if s.kernel.now + 1 < u64Size then _ else _) =
        if s'.kernel.now + 1 < u64Size then _ else _
      rw [hnow]
    | unblockSend dst =>
      have ha : s.getActor dst = s'.getActor dst := h _ rfl
      show checkUnblockSend s dst = checkUnblockSend s' dst
      unfold checkUnblockSend
      rw [ha]
    | threadSwitch src dst => rfl
  | memFree caller addr =>
    exact freeVerdict_congr p .stateError (h .table (Or.inl rfl)) (h (.address addr) (Or.inr rfl))
  | capRevoke caller c => exact revokeVerdict_congr p c (h .table rfl)

end

/-! ## what a change leaves alone -/

section
variable {s : State} {c : Cell}

theorem same_updatePlugin {pid : PluginId} (f : PluginState → PluginState)
    (hc : c ≠ .plugin pid) : State.Same c s (s.updatePlugin pid f) := by
  cases c with
  | plugin q =>
    show s.getPlugin q = (s.updatePlugin pid f).getPlugin q
    rw [State.getPlugin_updatePlugin, if_neg fun e => hc (congrArg _ e)]
  | fixed => exact ⟨rfl, rfl, rfl, rfl, rfl, (State.keys_updatePlugin s pid f).symm, rfl⟩
  | address addr => exact ⟨rfl, rfl⟩
  | actor | table | clock => exact rfl

theorem same_updateActor {aid : ActorId} (f : ActorRuntime → ActorRuntime)
    (hc : c ≠ .actor aid) : State.Same c s (s.updateActor aid f) := by
  cases c with
  | actor a =>
    show s.getActor a = (s.updateActor aid f).getActor a
    rw [State.getActor_updateActor, if_neg fun e => hc (congrArg _ e)]
  | fixed => exact ⟨rfl, rfl, rfl, rfl, rfl, rfl, (Table.keys_modify s.actors aid f).symm⟩
  | address addr => exact ⟨rfl, rfl⟩
  | plugin | table | clock => exact rfl

theorem same_withRevocation (r : RevocationState) (hc : c ≠ .table) :
    State.Same c s (s.withRevocation r) := by
  cases c with
  | table => exact absurd rfl hc
  | fixed => exact ⟨rfl, rfl, rfl, rfl, rfl, rfl, rfl⟩
  | address addr => exact ⟨rfl, rfl⟩
  | plugin | actor | clock => exact rfl

theorem same_withGhost (g : MetaState) (hc : ∀ addr, c ≠ .address addr) :
    State.Same c s (s.withGhost g) := by
  cases c with
  | address addr => exact absurd rfl (hc addr)
  | fixed => exact ⟨rfl, rfl, rfl, rfl, rfl, rfl, rfl⟩
  | plugin | actor | table | clock => exact rfl

theorem freed_getStatus (p : Path) (m : MetaState) (addr a : MemAddr) :
    (p.freed m addr).getStatus a =
      if a = addr ∧ p = .inPlace then some .freed else m.getStatus a := by
  cases p with
  | cloning => exact (if_neg fun h => nomatch h.2).symm
  | inPlace =>
    have h := m.resources.get_insert addr a .freed
    show (m.resources.insert addr .freed).get a = _
    rw [h]
    by_cases ha : a = addr
    · rw [if_pos ha, if_pos ⟨ha, rfl⟩]
    · rw [if_neg ha, if_neg fun h => ha h.1]
      rfl

theorem freed_isFreed (p : Path) {m : MetaState} (hm : Increasing m.freedSet) (addr a : MemAddr) :
    (p.freed m addr).isFreed a = (decide (a = addr) || m.isFreed a) := by
  cases p <;> exact has_insertKey hm addr a

theorem same_freed (p : Path) {addr : MemAddr} (hs : Increasing s.ghost.freedSet)
    (hc : c ≠ .address addr) : State.Same c s (s.withGhost (p.freed s.ghost addr)) := by
  by_cases h : ∃ a, c = .address a
  · obtain ⟨a, rfl⟩ := h
    have ha : a ≠ addr := fun e => hc (congrArg _ e)
    constructor
    · show _ = (p.freed s.ghost addr).getStatus a
      rw [freed_getStatus, if_neg fun h => ha h.1]
    · show _ = (p.freed s.ghost addr).isFreed a
      rw [freed_isFreed p hs, decide_eq_false ha, Bool.false_or]
  · exact same_withGhost _ fun a e => h ⟨a, e⟩

theorem HostFunction.change_frame (p : Path) {hc : HostCall} (f : HostFunction) (hs : s.Sorted)
    (hc' : c ∉ f.writes hc) : State.Same c s (f.change p s hc) := by
  cases f with
  | kernelAlloc =>
    have hghost : State.Same c s (s.applyAlloc hc.caller hc.firstOrZero) :=
      same_withGhost _ fun addr e => hc' (Or.inr ⟨addr, e⟩)
    have hplugin := same_updatePlugin (s := s.applyAlloc hc.caller hc.firstOrZero) (c := c)
      (·.charge hc.firstOrZero) fun e => hc' (Or.inl e)
    exact (State.same_equiv c).trans hghost hplugin
  | memFree => exact same_freed p hs.freed hc'
  | capRevoke => exact same_withRevocation _ hc'
  | declassify => exact same_updatePlugin _ hc'
  | capCall | capSend | threadCreate | threadConfigure | threadResume | threadSuspend
  | threadDestroy => exact State.Same.rfl

/-- **A step changes no cell but those that it writes.** -/
theorem change_frame (p : Path) (t : Step) (hs : s.Sorted) (hc : c ∉ t.writes) :
    State.Same c s (t.change p s) := by
  cases t with
  | pluginInternal pid pi =>
    show State.Same c s (pi.consume s pid)
    rw [consume_eq]
    by_cases hm : pi.consumeMailbox = true
    · rw [if_pos hm]
      exact same_updateActor _ fun e => hc ⟨hm, e⟩
    · rw [if_neg hm]
      exact State.Same.rfl
  | hostCall hc' auth res => exact hc'.function.change_frame p hs hc
  | kernelInternal op =>
    cases op with
    | routeOne dst => exact same_updateActor _ hc
    | unblockSend dst => exact same_updateActor _ hc
    | timeTick =>
      cases c with
      | clock => exact absurd rfl hc
      | fixed => exact ⟨rfl, rfl, rfl, rfl, rfl, rfl, rfl⟩
      | address addr => exact ⟨rfl, rfl⟩
      | plugin | actor | table => exact rfl
    | workflowTick | threadSwitch => exact State.Same.rfl
  | memFree caller addr => exact same_freed p hs.freed hc
  | capRevoke caller c' => exact same_withRevocation _ hc

end

/-! ## what a change writes -/

section
variable {s s' : State}

theorem updatePlugin_congr {pid : PluginId} (f : PluginState → PluginState)
    (h : State.Same (.plugin pid) s s') :
    State.Same (.plugin pid) (s.updatePlugin pid f) (s'.updatePlugin pid f) := by
  have hp : s.getPlugin pid = s'.getPlugin pid := h
  show (s.updatePlugin pid f).getPlugin pid = (s'.updatePlugin pid f).getPlugin pid
  rw [State.getPlugin_updatePlugin, State.getPlugin_updatePlugin, hp]

theorem updateActor_congr {aid : ActorId} (f : ActorRuntime → ActorRuntime)
    (h : State.Same (.actor aid) s s') :
    State.Same (.actor aid) (s.updateActor aid f) (s'.updateActor aid f) := by
  have ha : s.getActor aid = s'.getActor aid := h
  show (s.updateActor aid f).getActor aid = (s'.updateActor aid f).getActor aid
  rw [State.getActor_updateActor, State.getActor_updateActor, ha]

theorem freed_congr (p : Path) {addr : MemAddr} (hs : s.Sorted) (hs' : s'.Sorted)
    (h : State.Same (.address addr) s s') : State.Same (.address addr)
      (s.withGhost (p.freed s.ghost addr)) (s'.withGhost (p.freed s'.ghost addr)) := by
  constructor
  · show (p.freed s.ghost addr).getStatus addr = (p.freed s'.ghost addr).getStatus addr
    rw [freed_getStatus, freed_getStatus, h.1]
  · show (p.freed s.ghost addr).isFreed addr = (p.freed s'.ghost addr).isFreed addr
    rw [freed_isFreed p hs.freed, freed_isFreed p hs'.freed, h.2]

theorem HostFunction.change_written (p : Path) {hc : HostCall} {res : HostResult}
    (f : HostFunction) (hs : s.Sorted) (hs' : s'.Sorted)
    (hplugin : State.Same (.plugin hc.caller) s s') (htable : State.Same .table s s')
    (h : ∀ c ∈ f.uses hc res, State.Same c s s') :
    ∀ c ∈ f.writes hc, State.Same c (f.change p s hc) (f.change p s' hc) := by
  intro c hc'
  cases f with
  | kernelAlloc =>
    have hghost : s.ghost = s'.ghost :=
      MetaState.ext_addresses hs.freed hs'.freed fun addr => h _ ⟨addr, rfl⟩
    rcases hc' with rfl | ⟨addr, rfl⟩
    · have hp : State.Same (.plugin hc.caller) (s.applyAlloc hc.caller hc.firstOrZero)
          (s'.applyAlloc hc.caller hc.firstOrZero) := hplugin
      exact updatePlugin_congr _ hp
    · show (s.ghost.alloc (asU64 s.ghost.resourceCount) hc.caller).getStatus addr =
          (s'.ghost.alloc (asU64 s'.ghost.resourceCount) hc.caller).getStatus addr ∧
        s.ghost.isFreed addr = s'.ghost.isFreed addr
      rw [hghost]
      exact ⟨rfl, rfl⟩
  | memFree =>
    obtain rfl := Set.mem_singleton_iff.mp hc'
    exact freed_congr p hs hs' (h _ rfl)
  | capRevoke =>
    obtain rfl := Set.mem_singleton_iff.mp hc'
    have ht : s.kernel.revocation = s'.kernel.revocation := htable
    show p.revoked s.kernel.revocation _ = p.revoked s'.kernel.revocation _
    rw [ht]
  | declassify =>
    obtain rfl := Set.mem_singleton_iff.mp hc'
    exact updatePlugin_congr _ hplugin
  | capCall | capSend | threadCreate | threadConfigure | threadResume | threadSuspend
  | threadDestroy => exact False.elim hc'

/-- **What a step writes depends on the cells that it uses.** -/
theorem change_written (p : Path) (t : Step) (hs : s.Sorted) (hs' : s'.Sorted)
    (h : ∀ c ∈ t.uses, State.Same c s s') :
    ∀ c ∈ t.writes, State.Same c (t.change p s) (t.change p s') := by
  intro c hc
  cases t with
  | pluginInternal pid pi =>
    obtain ⟨hm, rfl⟩ := hc
    show State.Same _ (pi.consume s pid) (pi.consume s' pid)
    rw [consume_eq, consume_eq, if_pos hm, if_pos hm]
    exact updateActor_congr _ (h _ (Or.inr rfl))
  | hostCall hc' auth res =>
    have hplugin := h (.plugin hc'.caller) (Or.inl (Or.inl rfl))
    have htable := h .table (Or.inl (Or.inr (Or.inl rfl)))
    exact hc'.function.change_written p hs hs' hplugin htable
      (fun c hc => h c (Or.inr hc)) c hc
  | kernelInternal op =>
    cases op with
    | routeOne dst =>
      obtain rfl := Set.mem_singleton_iff.mp hc
      exact updateActor_congr _ (h _ rfl)
    | unblockSend dst =>
      obtain rfl := Set.mem_singleton_iff.mp hc
      exact updateActor_congr _ (h _ rfl)
    | timeTick =>
      obtain rfl := Set.mem_singleton_iff.mp hc
      have hnow : s.kernel.now = s'.kernel.now := h .clock rfl
      exact congrArg (· + 1) hnow
    | workflowTick | threadSwitch => exact False.elim hc
  | memFree caller addr =>
    obtain rfl := Set.mem_singleton_iff.mp hc
    exact freed_congr p hs hs' (h _ (Or.inr rfl))
  | capRevoke caller c' =>
    obtain rfl := Set.mem_singleton_iff.mp hc
    have ht : s.kernel.revocation = s'.kernel.revocation := h .table rfl
    show p.revoked s.kernel.revocation c' = p.revoked s'.kernel.revocation c'
    rw [ht]

end

/-! ## attempts in sorted states -/

theorem State.Sorted.change {s : State} (hs : s.Sorted) (p : Path) (t : Step) :
    (t.change p s).Sorted := by
  have hplugin : ∀ (s : State) (pid : PluginId) (f : PluginState → PluginState), s.Sorted →
      (s.updatePlugin pid f).Sorted := fun s pid f h => ⟨h.plugins.modify pid f, h.actors, h.freed⟩
  have hactor : ∀ (aid : ActorId) (f : ActorRuntime → ActorRuntime),
      (s.updateActor aid f).Sorted := fun aid f => ⟨hs.plugins, hs.actors.modify aid f, hs.freed⟩
  have hfree : ∀ addr, (s.withGhost (p.freed s.ghost addr)).Sorted := by
    intro addr
    refine ⟨hs.plugins, hs.actors, ?_⟩
    have h : Increasing (insertKey s.ghost.freedSet addr) := hs.freed.insertKey addr
    cases p <;> exact h
  cases t with
  | pluginInternal pid pi =>
    show (pi.consume s pid).Sorted
    rw [consume_eq]
    split
    · exact hactor _ _
    · exact hs
  | hostCall hc auth res =>
    show (hc.function.change p s hc).Sorted
    cases hc.function with
    | kernelAlloc => exact hplugin _ _ _ ⟨hs.plugins, hs.actors, hs.freed⟩
    | memFree => exact hfree _
    | capRevoke => exact ⟨hs.plugins, hs.actors, hs.freed⟩
    | declassify => exact hplugin _ _ _ hs
    | capCall | capSend | threadCreate | threadConfigure | threadResume | threadSuspend
    | threadDestroy => exact hs
  | kernelInternal op =>
    cases op with
    | routeOne dst => exact hactor _ _
    | unblockSend dst => exact hactor _ _
    | timeTick => exact ⟨hs.plugins, hs.actors, hs.freed⟩
    | workflowTick | threadSwitch => exact hs
  | memFree caller addr => exact hfree _
  | capRevoke caller c => exact ⟨hs.plugins, hs.actors, hs.freed⟩

/-- a state whose tables are sorted -/
abbrev SortedState := {s : State // s.Sorted}

namespace SortedState

theorem sorted_attempt (s : SortedState) (a : Path × Step) : (attempt s.1 a).Sorted := by
  rw [attempt_eq]
  split
  · exact s.2.change a.1 a.2
  · exact s.2

/-- an attempt, with its answer -/
def attempt (s : SortedState) (a : Path × Step) : Except StepError Unit × SortedState :=
  (answer s.1 a, ⟨LionCore.attempt s.1 a, s.sorted_attempt a⟩)

/-- **Main result**: attempts have footprints, whether they succeed or fail. -/
def footprint : Footprint (fun c (s s' : SortedState) => State.Same c s.1 s'.1) attempt where
  uses a := a.2.uses
  writes a := a.2.writes
  covered a := a.2.writes_subset_uses
  equiv c := ⟨fun s => (State.same_equiv c).refl s.1, (State.same_equiv c).symm,
    (State.same_equiv c).trans⟩
  frame s a c hc := by
    show State.Same c s.1 (LionCore.attempt s.1 a)
    rw [attempt_eq]
    split
    · exact change_frame a.1 a.2 s.2 hc
    · exact State.Same.rfl
  answer s s' a h := by
    show answer s.1 a = answer s'.1 a
    rw [answer_eq, answer_eq]
    exact verdict_congr a.1 a.2 h
  written s s' a h c hc := by
    show State.Same c (LionCore.attempt s.1 a) (LionCore.attempt s'.1 a)
    rw [attempt_eq, attempt_eq, verdict_congr a.1 a.2 h]
    split
    · exact change_written a.1 a.2 s.2 s'.2 h c hc
    · exact h c (a.2.writes_subset_uses hc)

end SortedState
end LionCore
