import LionCore.Step.Frame

/-!
# What an attempt answers and what it changes

An attempt at a step gives an answer and leaves a state.  The answer is that of the checks, in
their order; if it is positive, the change is the same for every state.

* `answer`         the answer of an attempt, by either path;
* `Step.verdict`   the checks that give it, `Step.change` the change;
* `answer_eq`      **main result**: an attempt gives this answer,
* `attempt_eq`     **main result**: and makes this change if the answer is positive, or none.
-/

namespace LionCore
open Base

/-! ## answers -/

/-- what an attempt gives back -/
def answer (s : State) (a : Path × Step) : Except StepError Unit :=
  match a.1 with
  | .cloning => (a.2.execute s).map fun _ => ()
  | .inPlace => (a.2.executeMut s).1

theorem answer_ok_iff (s : State) (p : Path) (t : Step) :
    answer s (p, t) = .ok () ↔ ∃ s', Exec p t s s' := by
  cases p with
  | cloning =>
    show (t.execute s).map _ = _ ↔ ∃ s', t.execute s = .ok s'
    cases t.execute s with
    | ok s' => exact iff_of_true rfl ⟨s', rfl⟩
    | error e => exact iff_of_false nofun nofun
  | inPlace =>
    show (t.executeMut s).1 = _ ↔ ∃ s', t.executeMut s = (.ok (), s')
    rcases t.executeMut s with ⟨res, s'⟩
    cases res with
    | ok u => exact iff_of_true rfl ⟨s', rfl⟩
    | error e => exact iff_of_false nofun nofun

theorem Exec.attempt {p : Path} {t : Step} {s s' : State} (h : Exec p t s s') :
    attempt s (p, t) = s' := by
  cases p with
  | cloning =>
    have hex : t.execute s = .ok s' := h
    simp only [LionCore.attempt, hex]
  | inPlace => exact congrArg Prod.snd (h : t.executeMut s = (.ok (), s'))

theorem attempt_of_refused {s : State} {p : Path} {t : Step} (h : answer s (p, t) ≠ .ok ()) :
    attempt s (p, t) = s :=
  (attempt_cases s p t).resolve_left fun hex => h ((answer_ok_iff s p t).mpr ⟨_, hex⟩)

/-! ## verdicts -/

/-- the checks of a free; the routine in place has those of the ghost record too -/
def freeVerdict (p : Path) (s : State) (addr : MemAddr) (wrap : StateError → StepError) :
    Except StepError Unit := do
  checkFree s addr
  match p with
  | .cloning => .ok ()
  | .inPlace =>
    match s.ghost.freeMut addr with
    | (.ok (), _) => .ok ()
    | (.error _, _) => .error (wrap (.resourceNotFound addr))

/-- the checks of a revocation; the routine in place can fail once more -/
def revokeVerdict (p : Path) (s : State) (c : CapId) : Except StepError Unit := do
  checkRevoke s c
  match p with
  | .cloning => .ok ()
  | .inPlace => (s.kernel.revocation.revokeTransitiveFastMut c).1.mapError fun _ =>
      .capabilityNotFound c

def HostFunction.verdict (f : HostFunction) (p : Path) (s : State) (hc : HostCall)
    (res : HostResult) : Except StepError Unit :=
  match f with
  | .capCall => checkCapCall s hc
  | .capSend => checkCapSend s hc res
  | .kernelAlloc => checkAlloc s hc
  | .memFree => do
    let addr ← hc.firstArg .noAddress
    freeVerdict p s addr freeFailed
  | .capRevoke => do
    let c ← hc.firstArg .noCapabilityId
    revokeVerdict p s c
  | .declassify => (checkDeclassify s hc).map fun _ => ()
  | .threadCreate | .threadConfigure | .threadResume | .threadSuspend | .threadDestroy =>
    .error threadOperation

def KernelOp.verdict (op : KernelOp) (s : State) : Except StepError Unit :=
  match op with
  | .routeOne dst => checkRouteOne s dst
  | .workflowTick wid => checkWorkflowTick s wid
  | .timeTick =>
    if s.kernel.now + 1 < u64Size then .ok ()
    else .error (tickFailed (.counterOverflow "time"))
  | .unblockSend dst => checkUnblockSend s dst
  | .threadSwitch _ _ => .error threadSwitchError

def Step.verdict (t : Step) (p : Path) (s : State) : Except StepError Unit :=
  match t with
  | .pluginInternal pid pi => pi.checkAll s pid
  | .hostCall hc auth res => do
    checkHostCall s hc auth
    hc.function.verdict p s hc res
  | .kernelInternal op => op.verdict s
  | .memFree _ addr => freeVerdict p s addr .stateError
  | .capRevoke _ c => revokeVerdict p s c

/-! ## the checks of the kernel's operations -/

theorem checkRouteOne_ok_iff (s : State) (dst : ActorId) : checkRouteOne s dst = .ok () ↔
    ∃ a msg rest, s.getActor dst = some a ∧ a.pending = msg :: rest ∧
      a.mailbox.length < a.capacity := by
  unfold checkRouteOne
  cases ha : s.getActor dst with
  | none => simp
  | some a =>
    cases hp : a.pending with
    | nil => simp [ActorRuntime.pendingLen, hp]
    | cons msg rest =>
      by_cases hroom : a.mailbox.length < a.capacity
      · have hroom' : ¬ a.capacity ≤ a.mailboxLen := Nat.not_le.mpr hroom
        simp [ActorRuntime.pendingLen, hp, hroom, hroom']
      · have hroom' : a.capacity ≤ a.mailboxLen := Nat.not_lt.mp hroom
        simp [ActorRuntime.pendingLen, hp, hroom, hroom']

theorem deliverMut_of_room {a : ActorRuntime} {msg : Message} {rest : List Message}
    (hp : a.pending = msg :: rest) (hroom : a.mailbox.length < a.capacity) :
    a.deliverMut.2 = { a with pending := rest, mailbox := a.mailbox ++ [msg] } := by
  unfold ActorRuntime.deliverMut
  rw [hp]
  simp [hroom]

theorem checkWorkflowTick_ok {s : State} {wid : WorkflowId} (h : checkWorkflowTick s wid = .ok ()) :
    ∃ w, s.getWorkflow wid = some w ∧ w.isRunning = true := by
  unfold checkWorkflowTick at h
  cases hw : s.getWorkflow wid with
  | none => simp [hw] at h
  | some w =>
    cases hrun : w.isRunning with
    | false => simp [hw, hrun] at h
    | true => exact ⟨w, rfl, hrun⟩

theorem checkUnblockSend_ok_iff (s : State) (dst : ActorId) :
    checkUnblockSend s dst = .ok () ↔ ∃ a, s.getActor dst = some a := by
  unfold checkUnblockSend
  cases s.getActor dst with
  | none => simp
  | some a => simp

/-! ## changes -/

def Path.freed (p : Path) (m : MetaState) (addr : MemAddr) : MetaState :=
  match p with
  | .cloning => m.free addr
  | .inPlace => ⟨m.resources.insert addr .freed, insertKey m.freedSet addr⟩

def Path.revoked (p : Path) (r : RevocationState) (c : CapId) : RevocationState :=
  match p with
  | .cloning => r.revokeTransitive c
  | .inPlace => (r.revokeTransitiveFastMut c).2

def HostFunction.change (f : HostFunction) (p : Path) (s : State) (hc : HostCall) : State :=
  match f with
  | .kernelAlloc =>
    (s.applyAlloc hc.caller hc.firstOrZero).updatePlugin hc.caller (·.charge hc.firstOrZero)
  | .memFree => s.withGhost (p.freed s.ghost hc.firstOrZero)
  | .capRevoke => s.withRevocation (p.revoked s.kernel.revocation hc.firstOrZero)
  | .declassify => s.updatePlugin hc.caller fun q =>
      { q with level := (SecurityLevel.fromU8 hc.firstOrZero).getD q.level }
  | _ => s

def KernelOp.change (op : KernelOp) (s : State) : State :=
  match op with
  | .routeOne dst => s.updateActor dst fun a => a.deliverMut.2
  | .timeTick => { s with kernel := { s.kernel with now := s.kernel.now + 1 } }
  | .unblockSend dst => s.updateActor dst ActorRuntime.unblockMut
  | _ => s

/-- the change that a step makes if it succeeds -/
def Step.change (t : Step) (p : Path) (s : State) : State :=
  match t with
  | .pluginInternal pid pi => pi.consume s pid
  | .hostCall hc _ _ => hc.function.change p s hc
  | .kernelInternal op => op.change s
  | .memFree _ addr => s.withGhost (p.freed s.ghost addr)
  | .capRevoke _ c => s.withRevocation (p.revoked s.kernel.revocation c)

section
variable {p : Path} {s s' : State}

theorem HostCall.firstOrZero_of {hc : HostCall} {m : HostCallPrecondition} {a : Nat}
    (h : hc.firstArg m = .ok a) : hc.firstOrZero = a := by
  obtain ⟨x, hx, rfl⟩ := Option.map_eq_some_iff.mp ((hc.firstArg_ok_iff m a).mp h)
  unfold HostCall.firstOrZero
  rw [hx]
  rfl

theorem Path.frees_eq {m m' : MetaState} {addr : MemAddr} (h : p.frees m addr m') :
    m' = p.freed m addr := by
  rcases Path.frees_cases h with ⟨rfl, rfl⟩ | ⟨rfl, _, rfl⟩
  · rfl
  · rfl

theorem Path.revokes_eq {r r' : RevocationState} {c : CapId} (h : p.revokes r c r') :
    r' = p.revoked r c := by
  cases p with
  | cloning => exact h
  | inPlace => exact (congrArg Prod.snd (h : r.revokeTransitiveFastMut c = (.ok (), r'))).symm

theorem HostEffect.eq_change {hc : HostCall} {res : HostResult} {f : HostFunction}
    (h : HostEffect p s hc res f s') : s' = f.change p s hc := by
  cases h with
  | capCall | capSend | kernelAlloc => rfl
  | memFree harg _ hg =>
    obtain rfl := Path.frees_eq hg
    show _ = s.withGhost (p.freed s.ghost hc.firstOrZero)
    rw [HostCall.firstOrZero_of harg]
  | capRevoke harg _ hr =>
    obtain rfl := Path.revokes_eq hr
    show _ = s.withRevocation (p.revoked s.kernel.revocation hc.firstOrZero)
    rw [HostCall.firstOrZero_of harg]
  | declassify hck =>
    obtain ⟨hl, _⟩ := (checkDeclassify_ok_iff s hc _).mp hck
    show _ = s.updatePlugin hc.caller fun q =>
      { q with level := (SecurityLevel.fromU8 hc.firstOrZero).getD q.level }
    rw [hl]
    rfl

/-- an effect is the change of its step -/
theorem Effect.eq_change {t : Step} (h : Effect p s t s') : s' = t.change p s := by
  cases t with
  | pluginInternal pid pi =>
    cases h with
    | compute => rfl
    | free _ ht _ _ => cases ht
    | revoke _ ht _ _ => cases ht
  | hostCall hc auth res => exact h.hostCall.2.eq_change
  | kernelInternal op =>
    cases h with
    | route | workflow | tick | unblock => rfl
    | free _ ht _ _ => cases ht
    | revoke _ ht _ _ => cases ht
  | memFree caller addr =>
    cases h with
    | free _ ht _ hg =>
      cases ht
      exact congrArg s.withGhost (Path.frees_eq hg)
    | revoke _ ht _ _ => cases ht
  | capRevoke caller c =>
    cases h with
    | free _ ht _ _ => cases ht
    | revoke _ ht _ hr =>
      cases ht
      exact congrArg s.withRevocation (Path.revokes_eq hr)

end

/-! ## the answer is the verdict -/

section
variable {s : State}

theorem guard_answer (c : Except StepError Unit) (k : Except StepError State) :
    (c >>= fun _ => k).map (fun _ => ()) = c >>= fun _ => k.map fun _ => () := by
  cases c <;> rfl

theorem guardMut_answer (c : Except StepError Unit) (k : Except StepError Unit × State) :
    (guardMut c s k).1 = c >>= fun _ => k.1 := by
  cases c <;> rfl

theorem free_answer (addr : MemAddr) (wrap : StateError → StepError) :
    (do checkFree s addr; (s.applyFree addr).mapError wrap : Except StepError State).map
      (fun _ => ()) = freeVerdict .cloning s addr wrap := by
  rw [guard_answer]
  unfold freeVerdict
  cases h : checkFree s addr with
  | error e => rfl
  | ok u =>
    rw [applyFree_of_check h]
    rfl

theorem freeMut_answer (addr : MemAddr) (wrap : StateError → StepError) :
    (freeMut s addr wrap).1 = freeVerdict .inPlace s addr wrap := by
  unfold freeMut freeVerdict
  rw [guardMut_answer]
  cases h : checkFree s addr with
  | error e => rfl
  | ok u =>
    show (s.applyFreeMut addr).1.mapError wrap = _
    unfold State.applyFreeMut
    rw [((checkFree_ok_iff s addr).mp h).2]
    rcases s.ghost.freeMut addr with ⟨res, g⟩
    cases res <;> rfl

theorem revoke_answer (c : CapId) :
    (do checkRevoke s c; return s.applyCapRevoke c : Except StepError State).map (fun _ => ()) =
      revokeVerdict .cloning s c := by
  rw [guard_answer]
  rfl

theorem revokeMut_answer (c : CapId) :
    (revokeMut s c).1 = revokeVerdict .inPlace s c := by
  unfold revokeMut revokeVerdict
  rw [guardMut_answer]
  rfl

theorem function_answer (f : HostFunction) (hc : HostCall) (res : HostResult) :
    (f.execute s hc res).map (fun _ => ()) = f.verdict .cloning s hc res := by
  cases f with
  | capCall =>
    show (checkCapCall s hc >>= fun _ => pure s).map _ = checkCapCall s hc
    rw [guard_answer]
    cases checkCapCall s hc <;> rfl
  | capSend =>
    show (checkCapSend s hc res >>= fun _ => pure s).map _ = checkCapSend s hc res
    rw [guard_answer]
    cases checkCapSend s hc res <;> rfl
  | kernelAlloc =>
    show (executeKernelAlloc s hc).map _ = checkAlloc s hc
    unfold executeKernelAlloc
    cases checkAlloc s hc <;> rfl
  | memFree =>
    show (executeMemFreeCall s hc).map _ = (hc.firstArg .noAddress >>= fun addr => _)
    unfold executeMemFreeCall
    cases hc.firstArg .noAddress with
    | error e => rfl
    | ok addr => exact free_answer addr freeFailed
  | capRevoke =>
    show (executeCapRevokeCall s hc).map _ = (hc.firstArg .noCapabilityId >>= fun c => _)
    unfold executeCapRevokeCall
    cases hc.firstArg .noCapabilityId with
    | error e => rfl
    | ok c => exact revoke_answer c
  | declassify =>
    show (executeDeclassify s hc).map _ = (checkDeclassify s hc).map _
    unfold executeDeclassify
    cases checkDeclassify s hc <;> rfl
  | threadCreate | threadConfigure | threadResume | threadSuspend | threadDestroy => rfl

theorem functionMut_answer (f : HostFunction) (hc : HostCall) (res : HostResult) :
    (f.executeMut s hc res).1 = f.verdict .inPlace s hc res := by
  cases f with
  | capCall =>
    show (executeCapCallMut s hc res).1 = checkCapCall s hc
    unfold executeCapCallMut
    cases checkCapCall s hc <;> rfl
  | capSend =>
    show (executeCapSendMut s hc res).1 = checkCapSend s hc res
    unfold executeCapSendMut
    cases checkCapSend s hc res <;> rfl
  | kernelAlloc =>
    show (executeKernelAllocMut s hc).1 = checkAlloc s hc
    unfold executeKernelAllocMut
    cases checkAlloc s hc <;> rfl
  | memFree =>
    show (executeMemFreeCallMut s hc).1 = (hc.firstArg .noAddress >>= fun addr => _)
    unfold executeMemFreeCallMut
    cases hc.firstArg .noAddress with
    | error e => rfl
    | ok addr => exact freeMut_answer addr freeFailed
  | capRevoke =>
    show (executeCapRevokeCallMut s hc).1 = (hc.firstArg .noCapabilityId >>= fun c => _)
    unfold executeCapRevokeCallMut
    cases hc.firstArg .noCapabilityId with
    | error e => rfl
    | ok c => exact revokeMut_answer c
  | declassify =>
    show (executeDeclassifyMut s hc).1 = (checkDeclassify s hc).map _
    unfold executeDeclassifyMut
    cases checkDeclassify s hc <;> rfl
  | threadCreate | threadConfigure | threadResume | threadSuspend | threadDestroy => rfl

theorem op_answer (op : KernelOp) : (op.execute s).map (fun _ => ()) = op.verdict s := by
  cases op with
  | routeOne dst =>
    show (executeRouteOne s dst).map _ = checkRouteOne s dst
    unfold executeRouteOne
    cases checkRouteOne s dst <;> rfl
  | workflowTick wid =>
    show (executeWorkflowTick s wid).map _ = checkWorkflowTick s wid
    unfold executeWorkflowTick
    cases checkWorkflowTick s wid <;> rfl
  | timeTick =>
    show (executeTimeTick s).map _ = if s.kernel.now + 1 < u64Size then _ else _
    unfold executeTimeTick
    rcases tick_cases s with ⟨hlt, e⟩ | ⟨hge, e⟩
    · rw [e, if_pos hlt]
      rfl
    · rw [e, if_neg hge]
      rfl
  | unblockSend dst =>
    show (executeUnblockSend s dst).map _ = checkUnblockSend s dst
    unfold executeUnblockSend
    cases checkUnblockSend s dst <;> rfl
  | threadSwitch src dst => rfl

theorem opMut_answer (op : KernelOp) : (op.executeMut s).1 = op.verdict s := by
  cases op with
  | routeOne dst =>
    show (executeRouteOneMut s dst).1 = checkRouteOne s dst
    unfold executeRouteOneMut
    cases checkRouteOne s dst <;> rfl
  | workflowTick wid =>
    show (executeWorkflowTickMut s wid).1 = checkWorkflowTick s wid
    unfold executeWorkflowTickMut
    cases checkWorkflowTick s wid <;> rfl
  | timeTick =>
    show (executeTimeTickMut s).1 = if s.kernel.now + 1 < u64Size then _ else _
    unfold executeTimeTickMut
    rcases tick_cases s with ⟨hlt, e⟩ | ⟨hge, e⟩
    · rw [e, if_pos hlt]
      rfl
    · rw [e, if_neg hge]
      rfl
  | unblockSend dst =>
    show (executeUnblockSendMut s dst).1 = checkUnblockSend s dst
    unfold executeUnblockSendMut
    cases checkUnblockSend s dst <;> rfl
  | threadSwitch src dst => rfl

end

/-- **Main result**: the answer of an attempt is the verdict of its checks. -/
theorem answer_eq (s : State) (p : Path) (t : Step) : answer s (p, t) = t.verdict p s := by
  cases p with
  | cloning =>
    show (t.execute s).map _ = _
    cases t with
    | pluginInternal pid pi =>
      show (executePluginInternal s pid pi).map _ = pi.checkAll s pid
      unfold executePluginInternal
      cases pi.checkAll s pid <;> rfl
    | hostCall hc auth res =>
      show (checkHostCall s hc auth >>= fun _ => hc.function.execute s hc res).map _ = _
      rw [guard_answer, function_answer]
      rfl
    | kernelInternal op => exact op_answer op
    | memFree caller addr => exact free_answer addr .stateError
    | capRevoke caller c => exact revoke_answer c
  | inPlace =>
    show (t.executeMut s).1 = _
    cases t with
    | pluginInternal pid pi =>
      show (executePluginInternalMut s pid pi).1 = pi.checkAll s pid
      unfold executePluginInternalMut
      cases pi.checkAll s pid <;> rfl
    | hostCall hc auth res =>
      show (guardMut (checkHostCall s hc auth) s (hc.function.executeMut s hc res)).1 = _
      rw [guardMut_answer, functionMut_answer]
      rfl
    | kernelInternal op => exact opMut_answer op
    | memFree caller addr => exact freeMut_answer addr .stateError
    | capRevoke caller c => exact revokeMut_answer c

/-- **Main result**: an attempt makes the change of its step if the verdict is positive, and none
otherwise. -/
theorem attempt_eq (s : State) (p : Path) (t : Step) :
    attempt s (p, t) = if t.verdict p s = .ok () then t.change p s else s := by
  rw [← answer_eq]
  by_cases h : answer s (p, t) = .ok ()
  · rw [if_pos h]
    obtain ⟨s', hs'⟩ := (answer_ok_iff s p t).mp h
    rw [hs'.attempt]
    exact hs'.effect.eq_change
  · rw [if_neg h]
    exact attempt_of_refused h

end LionCore
