import LionCore.Interleaving
import LionCore.Spec.Following

/-!
# Runs by either path

A free on the cloning path leaves the status of the address as it was, and does not ask whether the
address was ever given out.  A run can tell the paths apart by the second difference only.

* `State.Alike`          two states that differ in the status of freed addresses only;
* `verdict_alike`        no check sees the difference;
* `FreesLive`            a free that the cloning path accepts is of a live address;
* `paths_agree_iff`      **main result**: the paths give the same answers all along a run exactly
                         if its frees are of live addresses.
-/

namespace LionCore
open Base

/-- the same freed addresses, and the same status for all others -/
structure MetaState.Alike (m m' : MetaState) : Prop where
  freedSet : m.freedSet = m'.freedSet
  domain : ∀ a, m.getStatus a = none ↔ m'.getStatus a = none
  status : ∀ a, m.isFreed a = false → m.getStatus a = m'.getStatus a

/-- two states that differ in the status of freed addresses only -/
structure State.Alike (s s' : State) : Prop where
  rest : s' = s.withGhost s'.ghost
  ghost : s.ghost.Alike s'.ghost

namespace MetaState.Alike
variable {m m' m'' : MetaState}

theorem refl (m : MetaState) : m.Alike m := ⟨rfl, fun _ => Iff.rfl, fun _ _ => rfl⟩

theorem isFreed (h : m.Alike m') (a : MemAddr) : m.isFreed a = m'.isFreed a := by
  unfold MetaState.isFreed
  rw [h.freedSet]

theorem symm (h : m.Alike m') : m'.Alike m where
  freedSet := h.freedSet.symm
  domain a := (h.domain a).symm
  status a ha := (h.status a ((h.isFreed a).trans ha)).symm

theorem trans (h : m.Alike m') (h' : m'.Alike m'') : m.Alike m'' where
  freedSet := h.freedSet.trans h'.freedSet
  domain a := (h.domain a).trans (h'.domain a)
  status a ha := (h.status a ha).trans (h'.status a ((h.isFreed a).symm.trans ha))

theorem isLive (h : m.Alike m') (a : MemAddr) : m.isLive a = m'.isLive a := by
  rw [Bool.eq_iff_iff, isLive_iff, isLive_iff, ← h.isFreed a]
  apply and_congr_left
  intro ha
  rw [h.status a ha]

theorem resourceCount (h : m.Alike m') : m.resourceCount = m'.resourceCount :=
  SortedMap.len_congr h.domain

theorem insert (h : m.Alike m') (addr : MemAddr) (st : ResourceStatus) :
    (⟨m.resources.insert addr st, m.freedSet⟩ : MetaState).Alike
      ⟨m'.resources.insert addr st, m'.freedSet⟩ where
  freedSet := h.freedSet
  domain a := by
    show (m.resources.insert addr st).get a = none ↔ (m'.resources.insert addr st).get a = none
    rw [SortedMap.get_insert, SortedMap.get_insert]
    split
    · exact Iff.rfl
    · exact h.domain a
  status a ha := by
    show (m.resources.insert addr st).get a = (m'.resources.insert addr st).get a
    rw [SortedMap.get_insert, SortedMap.get_insert]
    split
    · rfl
    · exact h.status a ha

end MetaState.Alike

/-- either way to free a live address -/
theorem alike_freed (p : Path) {m : MetaState} (hm : Increasing m.freedSet) {addr : MemAddr}
    (hlive : m.isLive addr = true) : (m.free addr).Alike (p.freed m addr) := by
  cases p with
  | cloning => exact .refl _
  | inPlace =>
    have hget : ∀ a, (m.resources.insert addr .freed).get a =
        if a = addr then some .freed else m.getStatus a :=
      fun a => m.resources.get_insert addr a .freed
    refine ⟨rfl, fun a => ?_, fun a ha => ?_⟩
    · show m.getStatus a = none ↔ (m.resources.insert addr .freed).get a = none
      rw [hget]
      split
      · rename_i he
        obtain ⟨⟨owner, hst⟩, _⟩ := (m.isLive_iff addr).mp hlive
        simp [he, hst]
      · exact Iff.rfl
    · show m.getStatus a = (m.resources.insert addr .freed).get a
      rw [hget, if_neg]
      rintro rfl
      have hself := freed_isFreed .cloning hm a a
      rw [decide_eq_true rfl, Bool.true_or] at hself
      cases hself.symm.trans ha

theorem alike_free {m m' : MetaState} (h : m.Alike m') (addr : MemAddr)
    (hm : Increasing m.freedSet) : (m.free addr).Alike (m'.free addr) where
  freedSet := congrArg (insertKey · addr) h.freedSet
  domain := h.domain
  status a ha := by
    have hold : m.isFreed a = false := by
      have hf := freed_isFreed .cloning hm addr a
      rw [show (Path.freed .cloning m addr).isFreed a = false from ha] at hf
      exact (Bool.or_eq_false_iff.mp hf.symm).2
    exact h.status a hold

namespace State.Alike
variable {s s' s'' : State}

theorem refl (s : State) : s.Alike s := ⟨rfl, .refl _⟩

theorem symm (h : s.Alike s') : s'.Alike s := by
  refine ⟨?_, h.ghost.symm⟩
  rw [h.rest]
  rfl

theorem trans (h : s.Alike s') (h' : s'.Alike s'') : s.Alike s'' := by
  refine ⟨?_, h.ghost.trans h'.ghost⟩
  rw [h'.rest, h.rest]
  rfl

end State.Alike

/-! ## the same path from two states -/

section
variable {s s' : State} {t : Step}

theorem validate_alike (h : s.Alike s') (auth : Authorized) :
    auth.validate s = auth.validate s' := by
  obtain ⟨hrest, hghost⟩ := h
  rw [hrest]
  have hlive := hghost.isLive (asU64 auth.action.target)
  unfold Authorized.validate
  show (do
    auth.checkCapability s
    auth.checkPolicy s
    auth.checkValidity s
    auth.checkLiveness s
    auth.checkConfinement
    auth.checkBiba s) = do
      auth.checkCapability s
      auth.checkPolicy s
      auth.checkValidity s
      auth.checkLiveness (s.withGhost s'.ghost)
      auth.checkConfinement
      auth.checkBiba (s.withGhost s'.ghost)
  have hck : auth.checkLiveness (s.withGhost s'.ghost) = auth.checkLiveness s := by
    unfold Authorized.checkLiveness
    show (if !s'.ghost.isLive _ then _ else _) = if !s.ghost.isLive _ then _ else _
    rw [hlive]
  rw [hck]
  -- behind the check of liveness the status of the target is the same
  cases hl : auth.checkLiveness s with
  | error e => rfl
  | ok u =>
    obtain ⟨_, hfreed⟩ := (s.ghost.isLive_iff _).mp ((auth.checkLiveness_ok_iff s).mp hl)
    have hst := hghost.status _ hfreed
    have hbiba : auth.checkBiba (s.withGhost s'.ghost) = auth.checkBiba s := by
      have hint : resourceIntegrity (s.withGhost s'.ghost) (asU64 auth.action.target) =
          resourceIntegrity s (asU64 auth.action.target) := by
        unfold resourceIntegrity
        rw [show (s.withGhost s'.ghost).ghost = s'.ghost from rfl, ← hst]
        rfl
      unfold Authorized.checkBiba bibaWriteOk
      rw [hint]
      rfl
    rw [hbiba]

theorem checkHostCall_alike (h : s.Alike s') (hc : HostCall) (auth : Authorized) :
    checkHostCall s hc auth = checkHostCall s' hc auth := by
  have hpre : hc.checkPreconditions s = hc.checkPreconditions s' := by
    rw [h.rest]
    rfl
  unfold checkHostCall
  rw [validate_alike h, hpre]

theorem freeVerdict_alike (h : s.Alike s') (p : Path) (addr : MemAddr)
    (wrap : StateError → StepError) :
    freeVerdict p s addr wrap = freeVerdict p s' addr wrap := by
  have hck : checkFree s addr = checkFree s' addr := by
    unfold checkFree
    rw [h.ghost.isFreed addr, h.rest]
    rfl
  unfold freeVerdict
  rw [hck]
  cases p with
  | cloning => rfl
  | inPlace =>
    have hlive := h.ghost.isLive addr
    congr 1
    funext _
    rcases s.ghost.freeMut_cases addr with ⟨hl, e⟩ | ⟨hl, _, e⟩ <;>
      rcases s'.ghost.freeMut_cases addr with ⟨hl', e'⟩ | ⟨hl', _, e'⟩ <;>
      simp_all

theorem verdict_alike (h : s.Alike s') (p : Path) (t : Step) : t.verdict p s = t.verdict p s' := by
  cases t with
  | pluginInternal pid pi =>
    rw [h.rest]
    rfl
  | hostCall hc auth res =>
    have hf : hc.function.verdict p s hc res = hc.function.verdict p s' hc res := by
      cases hc.function with
      | memFree =>
        show (hc.firstArg .noAddress >>= fun addr => freeVerdict p s addr freeFailed) =
          (hc.firstArg .noAddress >>= fun addr => freeVerdict p s' addr freeFailed)
        congr 1
        funext addr
        exact freeVerdict_alike h p addr freeFailed
      | capSend =>
        show checkCapSend s hc res = checkCapSend s' hc res
        unfold checkCapSend
        have hmsgs : checkMessages s hc res.newMsgs = checkMessages s' hc res.newMsgs := by
          apply checkMessages_congr
          intro m _
          rw [h.rest]
          show s.getActor m.dst = (s.withGhost _).getActor m.dst
          rfl
        rw [hmsgs]
      | _ =>
        rw [h.rest]
        rfl
    show (checkHostCall s hc auth >>= fun _ => hc.function.verdict p s hc res) =
      (checkHostCall s' hc auth >>= fun _ => hc.function.verdict p s' hc res)
    rw [checkHostCall_alike h, hf]
  | kernelInternal op =>
    rw [h.rest]
    rfl
  | memFree caller addr => exact freeVerdict_alike h p addr .stateError
  | capRevoke caller c =>
    rw [h.rest]
    rfl

theorem change_alike (hs : Increasing s.ghost.freedSet) (h : s.Alike s') (t : Step) :
    (t.change .cloning s).Alike (t.change .cloning s') := by
  have free : ∀ addr, (s.withGhost (s.ghost.free addr)).Alike
      (s'.withGhost (s'.ghost.free addr)) := by
    intro addr
    refine ⟨?_, alike_free h.ghost addr hs⟩
    rw [h.rest]
    rfl
  -- what does not touch the record
  have other : ∀ f : State → State, (∀ g, f (s.withGhost g) = (f s).withGhost g) →
      (f s).ghost = s.ghost → (f s).Alike (f s') := by
    intro f hf hg
    have e : f s' = (f s).withGhost s'.ghost := by
      rw [← hf, ← h.rest]
    refine ⟨?_, ?_⟩
    · rw [e]
      rfl
    · rw [e, hg]
      exact h.ghost
  cases t with
  | pluginInternal pid pi =>
    apply other fun s => pi.consume s pid
    · intro g
      simp only [consume_eq]
      split <;> rfl
    · show (pi.consume s pid).ghost = s.ghost
      rw [consume_eq]
      split <;> rfl
  | hostCall hc auth res =>
    show (hc.function.change .cloning s hc).Alike (hc.function.change .cloning s' hc)
    cases hc.function with
    | kernelAlloc =>
      refine ⟨?_, ?_⟩
      · show (State.updatePlugin _ _ _) = _
        rw [h.rest]
        rfl
      · show (s.ghost.alloc (asU64 s.ghost.resourceCount) hc.caller).Alike
          (s'.ghost.alloc (asU64 s'.ghost.resourceCount) hc.caller)
        rw [h.ghost.resourceCount]
        exact h.ghost.insert _ _
    | memFree => exact free _
    | capRevoke =>
      exact other (fun s => s.withRevocation (s.kernel.revocation.revokeTransitive _))
        (fun _ => rfl) rfl
    | declassify => exact other (fun s => s.updatePlugin _ _) (fun _ => rfl) rfl
    | capCall | capSend | threadCreate | threadConfigure | threadResume | threadSuspend
    | threadDestroy => exact h
  | kernelInternal op =>
    cases op with
    | routeOne dst => exact other (fun s => s.updateActor dst _) (fun _ => rfl) rfl
    | unblockSend dst => exact other (fun s => s.updateActor dst _) (fun _ => rfl) rfl
    | timeTick =>
      exact other (fun s => { s with kernel := { s.kernel with now := s.kernel.now + 1 } })
        (fun _ => rfl) rfl
    | workflowTick | threadSwitch => exact h
  | memFree caller addr => exact free addr
  | capRevoke caller c =>
    exact other (fun s => s.withRevocation (s.kernel.revocation.revokeTransitive c))
      (fun _ => rfl) rfl

end

/-! ## both paths from the same state -/

/-- a free that the cloning path accepts is of a live address -/
def FreesLive (s : State) (t : Step) : Prop :=
  ∀ addr, t.frees = some addr → answer s (.cloning, t) = .ok () → s.ghost.isLive addr = true

section
variable {s s' : State} {t : Step}

theorem freeVerdict_path (p : Path) (s : State) (addr : MemAddr) (wrap : StateError → StepError)
    (hlive : freeVerdict .cloning s addr wrap = .ok () → s.ghost.isLive addr = true) :
    freeVerdict p s addr wrap = freeVerdict .cloning s addr wrap := by
  cases p with
  | cloning => rfl
  | inPlace =>
    unfold freeVerdict at *
    cases hck : checkFree s addr with
    | error e => rfl
    | ok u =>
      rw [hck] at hlive
      rcases s.ghost.freeMut_cases addr with ⟨_, e⟩ | ⟨hl, _⟩
      · simp only [e]
      · cases hl.symm.trans (hlive rfl)

/-- the free in place of an address that is not live is refused -/
theorem freeVerdict_not_live {addr : MemAddr} (wrap : StateError → StepError)
    (hl : s.ghost.isLive addr = false) : freeVerdict .inPlace s addr wrap ≠ .ok () := by
  intro h
  obtain ⟨_, h⟩ := check_bind_ok_iff.mp h
  rcases s.ghost.freeMut_cases addr with ⟨hl', _⟩ | ⟨_, _, e⟩
  · cases hl.symm.trans hl'
  · rw [e] at h
    cases h

theorem revokeVerdict_path (hr : s.kernel.revocation.DocumentedInvariants) (p : Path)
    (c : CapId) : revokeVerdict p s c = revokeVerdict .cloning s c := by
  cases p with
  | cloning => rfl
  | inPlace =>
    unfold revokeVerdict
    cases hck : checkRevoke s c with
    | error e => rfl
    | ok u =>
      have hfast := hr.revokeTransitiveFastMut_eq ((checkRevoke_ok_iff s c).mp hck)
      show (s.kernel.revocation.revokeTransitiveFastMut c).1.mapError _ = _
      rw [hfast]
      rfl

/-- **The checks are those of the cloning path.** -/
theorem verdict_path (hr : s.kernel.revocation.DocumentedInvariants) (hl : FreesLive s t)
    (p : Path) : t.verdict p s = t.verdict .cloning s := by
  unfold FreesLive at hl
  simp only [answer_eq] at hl
  cases t with
  | pluginInternal | kernelInternal => rfl
  | memFree caller addr => exact freeVerdict_path p s addr .stateError (hl addr rfl)
  | capRevoke caller c => exact revokeVerdict_path hr p c
  | hostCall hc auth res =>
    show (checkHostCall s hc auth >>= fun _ => hc.function.verdict p s hc res) =
      (checkHostCall s hc auth >>= fun _ => hc.function.verdict .cloning s hc res)
    cases hgate : checkHostCall s hc auth with
    | error e => rfl
    | ok u =>
      show hc.function.verdict p s hc res = hc.function.verdict .cloning s hc res
      cases hf : hc.function with
      | memFree =>
        show (hc.firstArg .noAddress >>= fun addr => freeVerdict p s addr freeFailed) =
          (hc.firstArg .noAddress >>= fun addr => freeVerdict .cloning s addr freeFailed)
        cases harg : hc.firstArg .noAddress with
        | error e => rfl
        | ok addr =>
          apply freeVerdict_path
          intro hv
          apply hl addr
          · exact (if_pos hf).trans ((hc.firstArg_ok_iff _ _).mp harg)
          · show (checkHostCall s hc auth >>= fun _ => hc.function.verdict .cloning s hc res) = _
            rw [hgate, hf]
            show (hc.firstArg .noAddress >>= fun addr =>
              freeVerdict .cloning s addr freeFailed) = _
            rw [harg]
            exact hv
      | capRevoke =>
        show (hc.firstArg .noCapabilityId >>= fun c => revokeVerdict p s c) =
          (hc.firstArg .noCapabilityId >>= fun c => revokeVerdict .cloning s c)
        congr 1
        funext c
        exact revokeVerdict_path hr p c
      | _ => rfl

/-- what is accepted leaves the same, but for the status of a freed address -/
theorem change_path (hr : s.kernel.revocation.DocumentedInvariants)
    (hs : Increasing s.ghost.freedSet) (hl : FreesLive s t)
    (hok : t.verdict .cloning s = .ok ()) (p : Path) :
    (t.change .cloning s).Alike (t.change p s) := by
  have free : ∀ addr, t.frees = some addr →
      (s.withGhost (s.ghost.free addr)).Alike (s.withGhost (p.freed s.ghost addr)) := by
    intro addr ht
    exact ⟨rfl, alike_freed p hs (hl addr ht ((answer_eq ..).trans hok))⟩
  have revoke : ∀ c, s.kernel.revocation.get c ≠ none →
      (s.withRevocation (s.kernel.revocation.revokeTransitive c)).Alike
        (s.withRevocation (p.revoked s.kernel.revocation c)) := by
    intro c hc
    have e : p.revoked s.kernel.revocation c = s.kernel.revocation.revokeTransitive c := by
      cases p with
      | cloning => rfl
      | inPlace => exact congrArg Prod.snd (hr.revokeTransitiveFastMut_eq hc)
    rw [e]
    exact .refl _
  cases t with
  | pluginInternal | kernelInternal => exact .refl _
  | memFree caller addr => exact free addr rfl
  | capRevoke caller c =>
    apply revoke
    exact (checkRevoke_ok_iff s c).mp (check_bind_ok_iff.mp hok).1
  | hostCall hc auth res =>
    obtain ⟨_, hok⟩ := check_bind_ok_iff.mp hok
    show (hc.function.change .cloning s hc).Alike (hc.function.change p s hc)
    cases hf : hc.function with
    | memFree =>
      rw [hf] at hok
      obtain ⟨addr, harg, _⟩ := bind_ok_iff.mp hok
      show (s.withGhost (s.ghost.free hc.firstOrZero)).Alike
        (s.withGhost (p.freed s.ghost hc.firstOrZero))
      rw [HostCall.firstOrZero_of harg]
      exact free addr ((if_pos hf).trans ((hc.firstArg_ok_iff _ _).mp harg))
    | capRevoke =>
      rw [hf] at hok
      obtain ⟨c, harg, hck⟩ := bind_ok_iff.mp hok
      show (s.withRevocation (s.kernel.revocation.revokeTransitive hc.firstOrZero)).Alike
        (s.withRevocation (p.revoked s.kernel.revocation hc.firstOrZero))
      rw [HostCall.firstOrZero_of harg]
      apply revoke
      exact (checkRevoke_ok_iff s c).mp (check_bind_ok_iff.mp hck).1
    | _ => exact .refl _

theorem FreesLive.alike (h : s.Alike s') (hl : FreesLive s t) : FreesLive s' t := by
  intro addr ht hok
  rw [← h.ghost.isLive addr]
  apply hl addr ht
  rw [answer_eq] at hok ⊢
  exact (verdict_alike h .cloning t).trans hok

/-- **One step.**  From two states that are alike, by any path. -/
theorem attempt_alike (hr : s.Ready) (hl : FreesLive s t) (h : s.Alike s') (p : Path) :
    answer s (.cloning, t) = answer s' (p, t) ∧
      (attempt s (.cloning, t)).Alike (attempt s' (p, t)) := by
  have hverdict : t.verdict .cloning s = t.verdict .cloning s' := verdict_alike h .cloning t
  have hr' : s'.kernel.revocation.DocumentedInvariants := by
    rw [h.rest]
    exact hr.table
  have hpath : t.verdict p s' = t.verdict .cloning s' := verdict_path hr' (hl.alike h) p
  rw [answer_eq, answer_eq, attempt_eq, attempt_eq, hpath, hverdict]
  refine ⟨rfl, ?_⟩
  by_cases hok : t.verdict .cloning s' = .ok ()
  · rw [if_pos hok, if_pos hok]
    have hs' : Increasing s'.ghost.freedSet := h.ghost.freedSet ▸ hr.ghost.freed
    exact (change_alike hr.ghost.freed h t).trans (change_path hr' hs' (hl.alike h) hok p)
  · rw [if_neg hok, if_neg hok]
    exact h

theorem attempt_ready (hr : s.Ready) (a : Path × Step) : (attempt s a).Ready := by
  rcases attempt_cases s a.1 a.2 with h | h
  · exact h.effect.ready hr
  · have e : attempt s a = s := h
    rw [e]
    exact hr

end

/-! ## runs -/

/-- the attempt at the same step on the cloning path -/
def asCloning (a : Path × Step) : Path × Step := (.cloning, a.2)

theorem answers_cons (s : State) (a : Path × Step) (as : List (Path × Step)) :
    answers s (a :: as) = answer s a :: answers (attempt s a) as := rfl

/-- along a run of frees of live addresses, any paths do what the cloning path does -/
theorem run_alike {s s' : State} (hr : s.Ready) (h : s.Alike s') (as : List (Path × Step))
    (hok : Along attempt (fun s a => FreesLive s a.2) s (as.map asCloning)) :
    answers s (as.map asCloning) = answers s' as ∧
      (run attempt s (as.map asCloning)).Alike (run attempt s' as) := by
  induction as generalizing s s' with
  | nil => exact ⟨rfl, h⟩
  | cons a as ih =>
    obtain ⟨hanswer, halike⟩ := attempt_alike hr hok.1 h a.1
    obtain ⟨hanswers, hrun⟩ := ih (attempt_ready hr (asCloning a)) halike hok.2
    refine ⟨?_, hrun⟩
    rw [List.map_cons, answers_cons, answers_cons, hanswers]
    congr 1

/-- what the cloning path accepts and the other one refuses -/
theorem answer_ne_of_not_freesLive {s : State} {t : Step} (h : ¬ FreesLive s t) :
    answer s (.cloning, t) ≠ answer s (.inPlace, t) := by
  unfold FreesLive at h
  simp only [not_forall, Bool.not_eq_true] at h
  obtain ⟨addr, ht, hok, hl⟩ := h
  rw [hok, answer_eq]
  intro e
  rcases Step.frees_cases ht with ⟨caller, rfl⟩ | ⟨hc, auth, res, rfl, hf, harg⟩
  · exact freeVerdict_not_live .stateError hl e.symm
  · obtain ⟨_, hfun⟩ := check_bind_ok_iff.mp e.symm
    rw [hf] at hfun
    obtain ⟨addr', harg', hfree⟩ := bind_ok_iff.mp hfun
    obtain rfl := Except.ok.inj (harg'.symm.trans harg)
    exact freeVerdict_not_live freeFailed hl hfree

/-- if no answer tells the paths apart, the frees are of live addresses -/
theorem freesLive_of_answers {s : State} (ts : List Step)
    (h : ∀ as bs : List (Path × Step), as.map Prod.snd = ts → bs.map Prod.snd = ts →
      answers s as = answers s bs) :
    Along attempt (fun s a => FreesLive s a.2) s (ts.map fun t => (.cloning, t)) := by
  induction ts generalizing s with
  | nil => trivial
  | cons t ts ih =>
    have hsteps : ∀ p : Path, (ts.map fun t => (p, t)).map Prod.snd = ts := by
      intro p
      rw [List.map_map]
      exact List.map_id ts
    constructor
    · by_contra hn
      have hne := answer_ne_of_not_freesLive hn
      have hrest := hsteps .cloning
      have e := h ((.cloning, t) :: ts.map fun t => (.cloning, t))
        ((.inPlace, t) :: ts.map fun t => (.cloning, t))
        (congrArg (t :: ·) hrest) (congrArg (t :: ·) hrest)
      rw [answers_cons, answers_cons] at e
      exact hne (List.cons.inj e).1
    · apply ih
      intro as bs has hbs
      have e := h ((.cloning, t) :: as) ((.cloning, t) :: bs) (congrArg (t :: ·) has)
        (congrArg (t :: ·) hbs)
      rw [answers_cons, answers_cons] at e
      exact (List.cons.inj e).2

/-- **Main result**: whatever calls have led to a state, if what came in below an entry had the
larger id and a valid parent, then it makes no difference to the answers to a list of steps by which
path each of them is executed, exactly if every free among them that the cloning path accepts is of
an address that is live at that point; and then the final states differ in the status of freed
addresses at most. -/
theorem paths_agree_iff (hmac : Hmac) (key : Key) (policy : PolicyState) (cs : List Call)
    (hok : Along (Call.exec hmac) KeepsReady (.initial key policy) cs) (ts : List Step) :
    let s := runCalls hmac (.initial key policy) cs
    let live := Along attempt (fun s a => FreesLive s a.2) s (ts.map fun t => (.cloning, t))
    ((∀ as bs : List (Path × Step), as.map Prod.snd = ts → bs.map Prod.snd = ts →
        answers s as = answers s bs) ↔ live) ∧
      (live → ∀ as bs : List (Path × Step), as.map Prod.snd = ts → bs.map Prod.snd = ts →
        (run attempt s as).Alike (run attempt s bs)) := by
  intro s live
  have hr : s.Ready := runCalls_ready hmac key policy cs hok
  have hcloning : ∀ as : List (Path × Step), as.map Prod.snd = ts →
      as.map asCloning = ts.map fun t => (.cloning, t) := by
    rintro as rfl
    rw [List.map_map]
    rfl
  have hlive : live → ∀ as : List (Path × Step), as.map Prod.snd = ts →
      answers s (ts.map fun t => (.cloning, t)) = answers s as ∧
        (run attempt s (ts.map fun t => (.cloning, t))).Alike (run attempt s as) := by
    intro h as has
    rw [← hcloning as has]
    apply run_alike hr (.refl s)
    rw [hcloning as has]
    exact h
  refine ⟨⟨freesLive_of_answers ts, fun h as bs has hbs => ?_⟩, fun h as bs has hbs => ?_⟩
  · exact (hlive h as has).1.symm.trans (hlive h bs hbs).1
  · exact (hlive h as has).2.symm.trans (hlive h bs hbs).2

/-- the capabilities on address 0 are revoked and the address is freed, by one path or the other -/
theorem paths_agree_iff_sample :
    let s := runCalls sampleMac (.initial .empty .permitAll) sampleLineage
    let ts : List Step := [.capRevoke 1 0, .memFree 1 0]
    let live := Along attempt (fun s a => FreesLive s a.2) s (ts.map fun t => (.cloning, t))
    ((∀ as bs : List (Path × Step), as.map Prod.snd = ts → bs.map Prod.snd = ts →
        answers s as = answers s bs) ↔ live) ∧
      (live → ∀ as bs : List (Path × Step), as.map Prod.snd = ts → bs.map Prod.snd = ts →
        (run attempt s as).Alike (run attempt s bs)) :=
  paths_agree_iff sampleMac .empty .permitAll sampleLineage sampleLineage_ready _

end LionCore
