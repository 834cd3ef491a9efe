import LionCore.Security.History

/-!
# How long a token lives

A token is issued in one state and presented in a later one, with any calls in between.

* `Call.freed`            the addresses that a call frees;
* `runCalls_isFreed_iff`  over a run the freed set grows by these, and by nothing else;
* `runCalls_kept`         a run keeps policy, handles and regions of a plugin;
* `Authorized.good_later_iff`   what is left of the checks of a token;
* `token_life`            **main result**: a token dies by a revocation above its capability or by
                          a free of the address that it names, and by nothing else.
-/

namespace LionCore
open Base RevocationState

/-! ## what a run frees -/

/-- the address that a call frees, if it goes through -/
def Call.freed (s : State) : Call → List MemAddr
  | .free addr =>
    match (Kernel.free s addr).1 with
    | .ok () => [addr]
    | .error _ => []
  | .execute t => if answer s (.cloning, t) = .ok () then t.frees.toList else []
  | .executeMut t => if answer s (.inPlace, t) = .ok () then t.frees.toList else []
  | _ => []

/-- the freed set has grown by the addresses `as` -/
def Freed (as : List MemAddr) (m m' : MetaState) : Prop :=
  ∀ a, m'.isFreed a = true ↔ a ∈ as ∨ m.isFreed a = true

theorem Freed.nil {m m' : MetaState} (h : m'.freedSet = m.freedSet) : Freed [] m m' := by
  intro a
  unfold MetaState.isFreed
  rw [h]
  simp

theorem Freed.append {as bs : List MemAddr} {m m' m'' : MetaState} (h : Freed as m m')
    (h' : Freed bs m' m'') : Freed (as ++ bs) m m'' := by
  intro a
  rw [h' a, h a, List.mem_append]
  tauto

theorem Freed.frees {m m' : MetaState} {p : Path} {addr : MemAddr} (w : m.Sound)
    (h : p.frees m addr m') : Freed [addr] m m' := by
  intro a
  rw [MetaState.frees_isFreed w h a, List.mem_singleton]

theorem Effect.freed {p : Path} {s s' : State} {t : Step} (w : s.ghost.Sound)
    (h : Effect p s t s') : Freed t.frees.toList s.ghost s'.ghost := by
  have other : ∀ {hc : HostCall} {auth : Authorized} {res : HostResult},
      hc.function ≠ .memFree → (Step.hostCall hc auth res).frees.toList = [] := by
    intro hc auth res hf
    rw [show (Step.hostCall hc auth res).frees = none from if_neg hf]
    rfl
  cases h with
  | @compute pid pi _ =>
    obtain ⟨actors, e⟩ := pi.consume_frame s pid
    rw [e]
    exact .nil rfl
  | use _ hck =>
    rw [other]
    · exact .nil rfl
    · rcases hck with ⟨hf, _⟩ | ⟨hf, _⟩ <;> simp [hf]
  | alloc _ hf _ | declassify _ hf _ =>
    rw [other (by simp [hf])]
    exact .nil rfl
  | free _ ht _ hg =>
    rw [ht]
    exact .frees w hg
  | revoke _ ht _ _ =>
    rcases Step.revokes_cases ht with ⟨_, rfl⟩ | ⟨hc, auth, res, rfl, hf, _⟩
    · exact .nil rfl
    · rw [other (by simp [hf])]
      exact .nil rfl
  | route | workflow | tick | unblock => exact .nil rfl

theorem attempt_freed {s : State} (w : s.ghost.Sound) (a : Path × Step) :
    Freed (if answer s a = .ok () then a.2.frees.toList else []) s.ghost (attempt s a).ghost := by
  by_cases h : answer s a = .ok ()
  · rw [if_pos h]
    obtain ⟨s', hex⟩ := (answer_ok_iff s a.1 a.2).mp h
    have e : attempt s a = s' := Exec.attempt hex
    rw [e]
    exact (Exec.effect hex).freed w
  · rw [if_neg h]
    have e : attempt s a = s := attempt_of_refused h
    rw [e]
    exact .nil rfl

theorem Call.ghost_freed (hmac : Hmac) {s : State} (w : s.ghost.Sound) (cl : Call) :
    Freed (cl.freed s) s.ghost (cl.exec hmac s).ghost := by
  have idle : ∀ cl : Call, cl.frees = none → Freed [] s.ghost (cl.exec hmac s).ghost := by
    intro cl hc
    have h := cl.ghostStep hmac s
    generalize (cl.exec hmac s).ghost = g at h
    cases h with
    | same | alloc => exact .nil rfl
    | free _ hc' _ _ => cases hc'.symm.trans hc
  cases cl with
  | free addr =>
    simp only [Call.freed, Call.exec, Kernel.free]
    rcases applyFreeMut_cases s addr with ⟨g, hg, h⟩ | ⟨e, h⟩
    · rw [h]
      exact Freed.frees (p := .inPlace) w hg
    · rw [h]
      exact .nil rfl
  | execute t =>
    have ha : (StateOp.call (.execute t)).attempts = some (.cloning, t) := rfl
    have e : (Call.execute t).exec hmac s = attempt s (.cloning, t) :=
      (StateOp.exec_of_attempts hmac s ha).2
    rw [e]
    exact attempt_freed w (.cloning, t)
  | executeMut t => exact attempt_freed w (.inPlace, t)
  | _ => exact idle _ rfl

/-- **Over a run the freed set grows by the addresses that it frees, and by nothing else.** -/
theorem runCalls_isFreed_iff (hmac : Hmac) {s : State} (w : s.ghost.Sound) (cs : List Call) :
    Freed (outputs (Call.exec hmac) Call.freed s cs) s.ghost (runCalls hmac s cs).ghost := by
  have h := @run_outputs _ _ _ (Call.exec hmac) Call.freed Call.freed
    (fun as _ s t => s.ghost.Sound → t.ghost.Sound ∧ Freed as s.ghost t.ghost)
    (fun s w => ⟨w, .nil rfl⟩)
    (fun hst htu w => ⟨(htu (hst w).1).1, (hst w).2.append (htu (hst w).1).2⟩)
    (fun s cl w => ⟨cl.sound hmac w, cl.ghost_freed hmac w⟩) s cs w
  exact h.2

/-! ## live addresses -/

/-- the address is allocated, as far as the map knows, or it has been freed -/
def MetaState.Taken (m : MetaState) (a : MemAddr) : Prop :=
  (∃ owner, m.getStatus a = some (.allocated owner)) ∨ m.isFreed a = true

theorem GhostStep.taken {s : State} {cl : Call} {g : MetaState} (h : GhostStep s cl g)
    (w : s.ghost.Sound) {a : MemAddr} (ha : s.ghost.Taken a) : g.Taken a := by
  cases h with
  | same => exact ha
  | alloc owner =>
    refine ha.imp_left fun ⟨owner', hst⟩ => ?_
    -- beyond the width of an address the entry of another owner may be written over
    have e := s.ghost.resources.get_insert (asU64 s.ghost.resourceCount) a (.allocated owner)
    by_cases hk : a = asU64 s.ghost.resourceCount
    · exact ⟨owner, e.trans (if_pos hk)⟩
    · exact ⟨owner', (e.trans (if_neg hk)).trans hst⟩
  | @free p addr _ _ _ _ hf =>
    rcases ha with ⟨owner, hst⟩ | ha
    · rcases MetaState.frees_getStatus hf a with e | ⟨rfl, _⟩
      · exact Or.inl ⟨owner, e.trans hst⟩
      · exact Or.inr ((MetaState.frees_isFreed w hf a).mpr (Or.inl rfl))
    · exact Or.inr ((MetaState.frees_isFreed w hf a).mpr (Or.inr ha))

/-- a live address stays live until it is freed -/
theorem runCalls_isLive_iff (hmac : Hmac) {s : State} (w : s.ghost.Sound) (cs : List Call)
    {a : MemAddr} (ha : s.ghost.isLive a = true) :
    (runCalls hmac s cs).ghost.isLive a = true ↔
      a ∉ outputs (Call.exec hmac) Call.freed s cs := by
  obtain ⟨hst, hnf⟩ := (s.ghost.isLive_iff a).mp ha
  have hfreed := runCalls_isFreed_iff hmac w cs a
  rw [hnf, or_iff_left Bool.false_ne_true] at hfreed
  have htaken := (run_invariant (f := Call.exec hmac)
    (P := fun s : State => s.ghost.Sound ∧ s.ghost.Taken a)
    (fun s cl h => ⟨cl.sound hmac h.1, (cl.ghostStep hmac s).taken h.1 h.2⟩) cs
    ⟨w, Or.inl hst⟩).2
  rw [← hfreed, MetaState.isLive_iff]
  constructor
  · intro h hf
    exact ne_false_of_eq_true hf h.2
  · intro h
    exact ⟨htaken.resolve_right h, eq_false_of_ne_true h⟩

/-! ## what stays -/

theorem Call.policy (hmac : Hmac) (s : State) (cl : Call) :
    (cl.exec hmac s).kernel.policy = s.kernel.policy := by
  have h := cl.leaves hmac s
  generalize cl.exec hmac s = s' at h
  cases h with
  | delegation h => cases h <;> rfl
  | execute h | executeMut h =>
    cases h with
    | @compute pid pi _ =>
      obtain ⟨actors, e⟩ := pi.consume_frame s pid
      rw [e]
    | _ => rfl
  | _ => rfl

theorem PluginState.after_holdsCap {q : PluginState} (hq : Increasing q.heldCaps)
    (es : List PluginEvent) {c : CapId} (h : q.holdsCap c = true) :
    (q.after es).holdsCap c = true := by
  have keep : ∀ ids ks : List CapId, Increasing ks → c ∈ ks →
      has (ids.foldl insertKey ks) c = true := by
    intro ids
    induction ids with
    | nil => exact fun ks hks hc => (has_iff hks c).mpr hc
    | cons id ids ih =>
      intro ks hks hc
      exact ih _ (hks.insertKey id) ((mem_insertKey ks id c).mpr (Or.inr hc))
  exact keep _ _ hq ((has_iff hq c).mp h)

/-- **A run keeps the policy, and a plugin keeps its handles and its memory.** -/
theorem runCalls_kept (hmac : Hmac) {s : State} (hs : s.plugins.Sorted) (cs : List Call)
    {pid : PluginId} {q : PluginState} (hq : s.getPlugin pid = some q) :
    (runCalls hmac s cs).kernel.policy = s.kernel.policy ∧
      ∃ es, (runCalls hmac s cs).getPlugin pid = some (q.after es) := by
  constructor
  · exact run_invariant (f := Call.exec hmac) (P := fun t => t.kernel.policy = s.kernel.policy)
      (fun t cl h => (cl.policy hmac t).trans h) cs rfl
  · have h := run_invariant (f := Call.exec hmac)
      (P := fun t => t.plugins.Sorted ∧ ∃ es, t.getPlugin pid = some (q.after es))
      (fun t cl h => by
        obtain ⟨es, ht⟩ := h.2
        have hrec := (StateOp.call cl).recorded hmac h.1 pid _ ht
        rw [← PluginState.after_append] at hrec
        exact ⟨((StateOp.call cl).pluginStep hmac t).sorted h.1, _, hrec.1⟩) cs
      ⟨hs, [], hq⟩
    exact h.2

/-! ## tokens -/

theorem Authorized.Good.handle {t : Authorized} {s : State} (h : t.Good s) :
    ∃ q, s.getPlugin t.action.subject = some q ∧ q.holdsCap t.cap.id = true := by
  have hheld := h.held
  unfold State.pluginHolds at hheld
  cases hq : s.getPlugin t.action.subject with
  | none =>
    rw [hq] at hheld
    cases hheld
  | some q =>
    rw [hq] at hheld
    exact ⟨q, rfl, hheld⟩

/-- **What is left of the checks of a token** that was good, when its capability is in the table and
no right to write is asked for: that nothing above has been revoked, and the address not freed. -/
theorem Authorized.good_later_iff (hmac : Hmac) {s : State} (hr : s.Ready)
    (hs : s.Ordered) (cs : List Call) (hok : Along (Call.exec hmac) KeepsReady s cs)
    {t : Authorized} {k : CapId} (hk : s.getCap k = some t.cap) (hg : t.Good s)
    (hw : t.action.rights.contains .write = false) :
    t.Good (runCalls hmac s cs) ↔
      (∀ c ∈ outputs (Call.exec hmac) Call.revoked s cs, ¬ s.kernel.revocation.Under c k) ∧
        asU64 t.action.target ∉ outputs (Call.exec hmac) Call.freed s cs := by
  have hid : t.cap.id = k := hr.table.wellFormed.keyed k t.cap hk
  have hvalid : t.cap.valid = true := by
    obtain ⟨cap, hcap, hv⟩ := isValid_iff.mp hg.entry
    rw [hid] at hcap
    rwa [Option.some.inj (hk.symm.trans hcap)]
  obtain ⟨cap', hk', hfate⟩ := runCalls_fate hmac hr cs hok hk
  have hentry : (runCalls hmac s cs).capIsValid t.cap.id = true ↔
      ∀ c ∈ outputs (Call.exec hmac) Call.revoked s cs, ¬ s.kernel.revocation.Under c k := by
    rw [hid]
    refine Iff.trans ?_ (hfate.valid.trans (and_iff_right hvalid))
    refine isValid_iff.trans ⟨fun ⟨c, hc, hv⟩ => ?_, fun hv => ⟨cap', hk', hv⟩⟩
    rwa [Option.some.inj (hk'.symm.trans hc)]
  have hlive := runCalls_isLive_iff hmac hr.ghost cs hg.live
  constructor
  · intro h
    exact ⟨hentry.mp h.entry, hlive.mp h.live⟩
  rintro ⟨hcs, hfs⟩
  have hready := run_invariant_of (fun _ cl h hcl => cl.ready hmac h hcl) cs hr hok
  obtain ⟨q, hq, hhas⟩ := hg.handle
  obtain ⟨hpolicy, es, hq'⟩ := runCalls_kept hmac hs.plugins cs hq
  refine ⟨hg.holder, hg.target, hg.rights, ?_, ?_, hentry.mpr hcs, fun p hp => ?_, hlive.mpr hfs,
    ?_⟩
  · unfold State.pluginHolds
    rw [hq']
    exact PluginState.after_holdsCap (hs.held _ q hq) es hhas
  · rw [hpolicy]
    exact hg.policy
  · -- the parent of a valid entry is valid, in the later state too
    apply hready.parents t.cap.id p (hentry.mpr hcs)
    show ((runCalls hmac s cs).kernel.revocation.get t.cap.id).bind _ = some p
    rw [hid, show (runCalls hmac s cs).kernel.revocation.get k = some cap' from hk', hfate.fields]
    exact hp
  · unfold bibaWriteOk
    rw [hw]
    rfl

/-- **Main result**: let calls have led to a state in which a token is issued for a host call, and
let more calls follow; what came in below an entry had the larger id and a valid parent, and plugins
came in with their handles in order.  The token is then good in the later state exactly if none of
the ids that were revoked meanwhile is its capability's own or one above it, and the address that it
names was not freed meanwhile.  By either path the call is then executed exactly if the token is
still good, its regions were in bounds when it was issued, and its function accepts. -/
theorem token_life (hmac : Hmac) (key : Key) (policy : PolicyState) (before after : List Call)
    (hok : Along (Call.exec hmac) KeepsReady (.initial key policy) (before ++ after))
    {hc : HostCall} {k : CapId} {ctx : PolicyContext} {res : HostResult} {t : Step}
    (hin : ∀ cl ∈ before, (StateOp.call cl).InsertsOrdered)
    (issued : Step.hostCallAtomic (runCalls hmac (.initial key policy) before) hc k ctx res =
      .ok t) :
    let s := runCalls hmac (.initial key policy) before
    let s' := runCalls hmac s after
    ∃ auth, t = .hostCall hc auth res ∧
      (auth.validate s' = .ok () ↔
        (∀ c ∈ outputs (Call.exec hmac) Call.revoked s after,
          ¬ s.kernel.revocation.Under c k) ∧
        asU64 auth.action.target ∉ outputs (Call.exec hmac) Call.freed s after) ∧
      ∀ p, answer s' (p, t) = .ok () ↔ auth.validate s' = .ok () ∧
        hc.checkPreconditions s = .ok () ∧ hc.function.verdict p s' hc res = .ok () := by
  intro s s'
  obtain ⟨hbefore, hafter⟩ := (along_append before after).mp hok
  have hr : s.Ready := runCalls_ready hmac key policy before hbefore
  have hs : s.Ordered := by
    have step : ∀ s cl, State.Ordered s → (StateOp.call cl).InsertsOrdered →
        (Call.exec hmac s cl).Ordered := fun _ cl h hop => h.exec (.call cl) hop
    exact run_invariant_of step before (.initial key policy) (along_of_forall before hin _)
  obtain ⟨cap, action, hk, hg, ha, rfl⟩ := hostCallAtomic_good issued
  have hreq := HostCall.required ha
  have hsub : action.subject = hc.caller := hreq.subject
  refine ⟨⟨cap, action, ctx⟩, rfl, ?_, fun p => ?_⟩
  · rw [Authorized.validate_ok_iff]
    exact Authorized.good_later_iff hmac hr hs after hafter hk hg hreq.no_write
  · have hpre : hc.checkPreconditions s' = hc.checkPreconditions s := by
      obtain ⟨q, hq, _⟩ := hg.handle
      have hcaller : s.getPlugin hc.caller = some q := hsub ▸ hq
      obtain ⟨_, es, hq'⟩ := runCalls_kept hmac hs.plugins after hcaller
      unfold HostCall.checkPreconditions HostCall.findOobRead HostCall.findOobWrite
      rw [show s'.getPlugin hc.caller = _ from hq', hcaller]
      rfl
    rw [answer_eq]
    show (checkHostCall s' hc _ >>= _) = _ ↔ _
    rw [check_bind_ok_iff, checkHostCall_ok_iff, Authorized.validate_ok_iff, hpre]
    constructor
    · rintro ⟨⟨_, _, hgood, hck⟩, hv⟩
      exact ⟨hgood, hck, hv⟩
    · rintro ⟨hgood, hck, hv⟩
      exact ⟨⟨hsub, ha, hgood, hck⟩, hv⟩

/-- a token of plugin 3 for reading address 0 with a child; the root above the child is revoked -/
theorem token_life_sample :
    let hc : HostCall := ⟨3, .capCall, [0], [], []⟩
    let s := runCalls sampleMac (.initial .empty .permitAll) sampleLineage
    let after : List Call := [.alloc 1 8, .free 1, .executeMut (.capRevoke 1 0)]
    let t : Step :=
      .hostCall hc ⟨sampleChild, ⟨3, 0, .singleton .read, "cap_call"⟩, ⟨0, none⟩⟩ .empty
    Step.hostCallAtomic s hc 1 ⟨0, none⟩ .empty = .ok t ∧
      ∃ auth, t = .hostCall hc auth .empty ∧ auth.validate s = .ok () ∧
        auth.validate (runCalls sampleMac s after) ≠ .ok () ∧
        ∀ p, answer (runCalls sampleMac s after) (p, t) ≠ .ok () := by
  intro hc s after t
  have issued : Step.hostCallAtomic s hc 1 ⟨0, none⟩ .empty = .ok t := by decide
  have hok : Along (Call.exec sampleMac) KeepsReady (.initial .empty .permitAll)
      (sampleLineage ++ after) :=
    (along_append sampleLineage after).mpr
      ⟨sampleLineage_ready, And.intro trivial (And.intro trivial (And.intro trivial trivial))⟩
  have hin : ∀ cl ∈ sampleLineage, (StateOp.call cl).InsertsOrdered := by
    intro cl hcl
    simp only [sampleLineage, List.mem_cons, List.not_mem_nil, or_false] at hcl
    rcases hcl with rfl | rfl | rfl | rfl | rfl | rfl <;> exact trivial
  obtain ⟨auth, ht, hgood, hanswer⟩ :=
    token_life sampleMac .empty .permitAll sampleLineage after hok hin issued
  have hbad : auth.validate (runCalls sampleMac s after) ≠ .ok () := by
    intro h
    exact (hgood.mp h).1 0 (by decide) sampleLineage_under
  refine ⟨issued, auth, ht, ?_, hbad, fun p h => hbad ((hanswer p).mp h).1⟩
  obtain ⟨_, rfl, _⟩ := Step.hostCall.inj ht
  decide

end LionCore
