import LionCore.Base.Run
import LionCore.Step.Effect

/-!
# What a step leaves alone

* `Frame`              the components that a step may touch, and how;
* `Effect.frame`       every effect keeps within it;
* `attempt`            one attempt at a step, which may fail; it never touches a plugin that is
                       not the subject;
* `step_frame`         **main result**: both paths, one step and any run.
-/

namespace LionCore
open Base

/-! ## the documented order of the tables -/

/-- every table, every set of handles and the freed set are sorted without duplicates -/
structure State.SortedTables (s : State) : Prop where
  caps : s.kernel.revocation.caps.Sorted
  index : s.kernel.revocation.childrenIndex.Sorted
  plugins : s.plugins.Sorted
  actors : s.actors.Sorted
  resources : s.resources.Sorted
  workflows : s.workflows.Sorted
  held : ∀ pid p, s.getPlugin pid = some p → Increasing p.heldCaps
  freed : Increasing s.ghost.freedSet

theorem State.SortedTables.empty : State.empty.SortedTables where
  caps := List.Pairwise.nil
  index := List.Pairwise.nil
  plugins := List.Pairwise.nil
  actors := List.Pairwise.nil
  resources := List.Pairwise.nil
  workflows := List.Pairwise.nil
  held pid p h := by cases h
  freed := List.Pairwise.nil

/-! ## the parts of a state -/

namespace State
section
variable (s : State) (q a : Nat)

theorem getPlugin_updatePlugin (pid : PluginId) (f : PluginState → PluginState) :
    (s.updatePlugin pid f).getPlugin q =
      if q = pid then (s.getPlugin q).map f else s.getPlugin q :=
  Table.find_modify s.plugins pid q f

theorem keys_updatePlugin (pid : PluginId) (f : PluginState → PluginState) :
    (s.updatePlugin pid f).plugins.keys = s.plugins.keys :=
  Table.keys_modify s.plugins pid f

theorem getActor_updateActor (aid : ActorId) (f : ActorRuntime → ActorRuntime) :
    (s.updateActor aid f).getActor a =
      if a = aid then (s.getActor a).map f else s.getActor a :=
  Table.find_modify s.actors aid a f

end
end State

/-! ## the frame -/

/-- the only actor that the step may change -/
def Step.actor : Step → Option ActorId
  | .pluginInternal pid pi => if pi.consumeMailbox then some pid else none
  | .kernelInternal (.routeOne dst) => some dst
  | .kernelInternal (.unblockSend dst) => some dst
  | _ => none

/-- what a step may do to its own subject -/
def PluginChange (t : Step) (p p' : PluginState) : Prop :=
  p' = p ∨
    (∃ hc auth res n, t = .hostCall hc auth res ∧ hc.function = .kernelAlloc ∧
      p' = { p with memoryUsed := n }) ∨
    (t.isDeclassify = true ∧ ∃ l ≤ p.level, p' = { p with level := l })

/-- what a step may do to the actor it is about -/
def ActorChange (t : Step) (a a' : ActorRuntime) : Prop :=
  match t with
  | .kernelInternal (.routeOne _) => a' = a.deliverMut.2
  | .kernelInternal (.unblockSend _) => a' = a.unblockMut
  | .pluginInternal _ _ => a' = { a with mailbox := a.mailbox.tail }
  | _ => a' = a

structure Frame (s : State) (t : Step) (s' : State) : Prop where
  others : ∀ q, t.subject ≠ some q → s'.getPlugin q = s.getPlugin q
  registered : s'.plugins.keys = s.plugins.keys
  subject : ∀ q p', t.subject = some q → s'.getPlugin q = some p' →
    ∃ p, s.getPlugin q = some p ∧ PluginChange t p p'
  otherActors : ∀ a, t.actor ≠ some a → s'.getActor a = s.getActor a
  actorKeys : s'.actors.keys = s.actors.keys
  actor : ∀ a ar', t.actor = some a → s'.getActor a = some ar' →
    ∃ ar, s.getActor a = some ar ∧ ActorChange t ar ar'
  resources : s'.resources = s.resources
  workflows : s'.workflows = s.workflows
  keyState : s'.kernel.keyState = s.kernel.keyState
  policy : s'.kernel.policy = s.kernel.policy
  nextCapId : s'.kernel.nextCapId = s.kernel.nextCapId
  clock : s'.kernel.now =
    if t = .kernelInternal .timeTick then s.kernel.now + 1 else s.kernel.now
  caps : t.revokes = none → s'.kernel.revocation = s.kernel.revocation
  entries : ∃ S, s.kernel.revocation.CutBy S s'.kernel.revocation

/-! ## every effect keeps within the frame -/

/-- a step that touches neither plugins nor actors -/
theorem Frame.onKernel {s : State} {t : Step} {k : KernelState} {g : MetaState}
    (ha : t.actor = none) (hk : k.keyState = s.kernel.keyState) (hp : k.policy = s.kernel.policy)
    (hn : k.nextCapId = s.kernel.nextCapId)
    (hclock : k.now = if t = .kernelInternal .timeTick then s.kernel.now + 1 else s.kernel.now)
    (hcaps : t.revokes = none → k.revocation = s.kernel.revocation)
    (hcut : ∃ S, s.kernel.revocation.CutBy S k.revocation) :
    Frame s t { s with kernel := k, ghost := g } where
  others _ _ := rfl
  registered := rfl
  subject _ p' _ h := ⟨p', h, Or.inl rfl⟩
  otherActors _ _ := rfl
  actorKeys := rfl
  actor _ _ h _ := by
    rw [ha] at h
    cases h
  resources := rfl
  workflows := rfl
  keyState := hk
  policy := hp
  nextCapId := hn
  clock := hclock
  caps := hcaps
  entries := hcut

/-- a step that changes nothing -/
theorem Frame.same {s : State} {t : Step} (ht : t ≠ .kernelInternal .timeTick)
    (ha : t.actor = none) : Frame s t s :=
  Frame.onKernel (k := s.kernel) (g := s.ghost) ha rfl rfl rfl (if_neg ht).symm (fun _ => rfl)
    ⟨_, .refl _⟩

/-- a step that changes its one actor -/
theorem Frame.onActor {s : State} {t : Step} {aid : ActorId} {f : ActorRuntime → ActorRuntime}
    (ht : t ≠ .kernelInternal .timeTick) (ha : t.actor = some aid)
    (hf : ∀ ar, ActorChange t ar (f ar)) : Frame s t (s.updateActor aid f) where
  others _ _ := rfl
  registered := rfl
  subject _ p' _ h := ⟨p', h, Or.inl rfl⟩
  otherActors a hne := by
    rw [State.getActor_updateActor, if_neg]
    rintro rfl
    exact hne ha
  actorKeys := Table.keys_modify _ _ _
  actor a ar' h hget := by
    rw [ha] at h
    cases h
    rw [State.getActor_updateActor, if_pos rfl] at hget
    obtain ⟨ar, har, rfl⟩ := Option.map_eq_some_iff.mp hget
    exact ⟨ar, har, hf ar⟩
  resources := rfl
  workflows := rfl
  keyState := rfl
  policy := rfl
  nextCapId := rfl
  clock := (if_neg ht).symm
  caps _ := rfl
  entries := ⟨_, .refl _⟩

/-- a step of `pid` that changes `pid`'s state and, if it allocates, the ghost record -/
theorem Frame.onSubject {s : State} {t : Step} {pid : PluginId} {g : MetaState}
    {f : PluginState → PluginState} (ht : t ≠ .kernelInternal .timeTick)
    (hs : t.subject = some pid) (ha : t.actor = none)
    (hf : ∀ p, s.getPlugin pid = some p → PluginChange t p (f p)) :
    Frame s t ((s.withGhost g).updatePlugin pid f) where
  others q hne := by
    rw [State.getPlugin_updatePlugin, if_neg]
    · rfl
    · rintro rfl
      exact hne hs
  registered := State.keys_updatePlugin _ _ _
  subject q p' h hget := by
    rw [hs] at h
    cases h
    rw [State.getPlugin_updatePlugin, if_pos rfl] at hget
    obtain ⟨p, hp, rfl⟩ := Option.map_eq_some_iff.mp hget
    exact ⟨p, hp, hf p hp⟩
  otherActors _ _ := rfl
  actorKeys := rfl
  actor a ar' h _ := by
    rw [ha] at h
    cases h
  resources := rfl
  workflows := rfl
  keyState := rfl
  policy := rfl
  nextCapId := rfl
  clock := (if_neg ht).symm
  caps _ := rfl
  entries := ⟨_, .refl _⟩

theorem consume_eq (pi : PluginInternal) (s : State) (pid : PluginId) :
    pi.consume s pid = if pi.consumeMailbox then
      s.updateActor pid fun a => { a with mailbox := a.mailbox.tail } else s := by
  have e : (fun a : ActorRuntime => a.consumeMut.2) =
      fun a => { a with mailbox := a.mailbox.tail } := by
    funext a
    unfold ActorRuntime.consumeMut
    cases h : a.mailbox with
    | nil => cases a; cases h; rfl
    | cons m ms => rfl
  unfold PluginInternal.consume
  rw [e]

theorem Step.ne_tick_of_subject {t : Step} {q : PluginId} (h : t.subject = some q) :
    t ≠ .kernelInternal .timeTick := by
  rintro rfl
  cases h

theorem Step.of_frees {t : Step} {addr : MemAddr} (h : t.frees = some addr) :
    (∃ q, t.subject = some q) ∧ t.actor = none ∧ t.revokes = none := by
  rcases Step.frees_cases h with ⟨caller, rfl⟩ | ⟨hc, auth, res, rfl, hf, _⟩
  · exact ⟨⟨caller, rfl⟩, rfl, rfl⟩
  · exact ⟨⟨hc.caller, rfl⟩, rfl, if_neg (by rw [hf]; nofun)⟩

theorem Step.of_revokes {t : Step} {c : CapId} (h : t.revokes = some c) :
    (∃ q, t.subject = some q) ∧ t.actor = none := by
  rcases Step.revokes_cases h with ⟨caller, rfl⟩ | ⟨hc, auth, res, rfl, _⟩
  · exact ⟨⟨caller, rfl⟩, rfl⟩
  · exact ⟨⟨hc.caller, rfl⟩, rfl⟩

/-- both ways to revoke are cuts -/
theorem Path.revokes_cutBy {p : Path} {r r' : RevocationState} {c : CapId} (hs : r.caps.Sorted)
    (h : p.revokes r c r') : ∃ S, r.CutBy S r' := by
  cases p with
  | cloning =>
    obtain rfl : r' = r.revokeTransitive c := h
    exact ⟨_, r.cutBy_revokeTransitive c⟩
  | inPlace =>
    change r.revokeTransitiveFastMut c = (.ok (), r') at h
    rcases r.revokeTransitiveFastMut_cases hs c with ⟨_, e⟩ | ⟨_, e⟩
    · rw [e] at h
      cases h
    · rw [e] at h
      exact (Prod.mk.inj h).2 ▸ ⟨_, r.cutBy_revokeTransitiveFast c⟩

theorem Effect.frame {p : Path} {s s' : State} {t : Step} (hs : s.kernel.revocation.caps.Sorted)
    (h : Effect p s t s') : Frame s t s' := by
  cases h with
  | @compute pid pi hck =>
    rw [consume_eq]
    cases hm : pi.consumeMailbox with
    | true => exact Frame.onActor nofun (if_pos hm) fun _ => rfl
    | false => exact Frame.same nofun (if_neg (by rw [hm]; nofun))
  | use hgate hck => exact Frame.same nofun rfl
  | @alloc hc auth res hgate hf hck =>
    exact Frame.onSubject nofun rfl rfl fun p _ => Or.inr (Or.inl ⟨hc, auth, res, _, rfl, hf, rfl⟩)
  | @declassify hc auth res l hgate hf hck =>
    obtain ⟨_, p, hp, hle⟩ := (checkDeclassify_ok_iff _ _ _).mp hck
    refine Frame.onSubject (g := s.ghost) nofun rfl rfl fun p' hp' => ?_
    obtain rfl : p = p' := Option.some.inj (hp.symm.trans hp')
    exact Or.inr (Or.inr ⟨decide_eq_true hf, l, hle, rfl⟩)
  | free hgate ht hck hg =>
    obtain ⟨⟨q, hq⟩, ha, _⟩ := Step.of_frees ht
    exact Frame.onKernel (k := s.kernel) ha rfl rfl rfl (if_neg (Step.ne_tick_of_subject hq)).symm
      (fun _ => rfl) ⟨_, .refl _⟩
  | revoke hgate ht hck hr =>
    obtain ⟨⟨q, hq⟩, ha⟩ := Step.of_revokes ht
    exact Frame.onKernel (g := s.ghost) ha rfl rfl rfl (if_neg (Step.ne_tick_of_subject hq)).symm
      (fun h => by rw [ht] at h; cases h) (Path.revokes_cutBy hs hr)
  | route hck => exact Frame.onActor nofun rfl fun _ => rfl
  | workflow hck => exact Frame.same nofun rfl
  | tick hlt =>
    exact Frame.onKernel (g := s.ghost) rfl rfl rfl rfl (if_pos rfl).symm (fun _ => rfl)
      ⟨_, .refl _⟩
  | unblock hck => exact Frame.onActor nofun rfl fun _ => rfl

/-! ## attempts and runs of them -/

/-- the state that an attempt at a step leaves -/
def attempt (s : State) (a : Path × Step) : State :=
  match a.1 with
  | .cloning =>
    match a.2.execute s with
    | .ok s' => s'
    | .error _ => s
  | .inPlace => (a.2.executeMut s).2

/-- an attempt succeeds, or changes nothing -/
theorem attempt_cases (s : State) (p : Path) (t : Step) :
    Exec p t s (attempt s (p, t)) ∨ attempt s (p, t) = s := by
  cases p with
  | cloning =>
    cases h : t.execute s with
    | ok s' =>
      have e : attempt s (.cloning, t) = s' := by simp only [attempt, h]
      rw [e]
      exact Or.inl h
    | error e =>
      have e : attempt s (.cloning, t) = s := by simp only [attempt, h]
      exact Or.inr e
  | inPlace =>
    rcases h : t.executeMut s with ⟨res, s'⟩
    cases res with
    | ok u =>
      refine Or.inl ?_
      show t.executeMut s = (.ok (), (t.executeMut s).2)
      rw [h]
    | error e =>
      refine Or.inr ?_
      show (t.executeMut s).2 = s
      rw [h]
      exact executeMut_error h

theorem Effect.others {p : Path} {s s' : State} {t : Step} (h : Effect p s t s') {q : PluginId}
    (hq : t.subject ≠ some q) : s'.getPlugin q = s.getPlugin q := by
  have change : ∀ (s : State) (pid : PluginId) (f : PluginState → PluginState), q ≠ pid →
      (s.updatePlugin pid f).getPlugin q = s.getPlugin q := fun s pid f hne => by
    rw [State.getPlugin_updatePlugin, if_neg hne]
  cases h with
  | @compute pid pi hck =>
    obtain ⟨actors, e⟩ := pi.consume_frame s pid
    rw [e]
    rfl
  | alloc hgate hf hck => exact change _ _ _ fun e => hq (congrArg some e.symm)
  | declassify hgate hf hck => exact change _ _ _ fun e => hq (congrArg some e.symm)
  | use | free | revoke | route | workflow | tick | unblock => rfl

theorem run_attempt_others (q : PluginId) (ts : List (Path × Step)) (s : State)
    (hq : ∀ a ∈ ts, a.2.subject ≠ some q) : (run attempt s ts).getPlugin q = s.getPlugin q := by
  induction ts generalizing s with
  | nil => rfl
  | cons a ts ih =>
    rw [run_cons, ih _ fun b hb => hq b (List.mem_cons_of_mem a hb)]
    rcases attempt_cases s a.1 a.2 with h | h
    · exact h.effect.others (hq a List.mem_cons_self)
    · exact congrArg (State.getPlugin · q) h

/-- **Main result**: a step that succeeds, by either path, keeps within its frame; and a run of
attempts without `q` as subject leaves `q`'s whole state as it was. -/
theorem step_frame (s : State) (hs : s.SortedTables) :
    (∀ p t s', Exec p t s s' → Frame s t s') ∧
      ∀ q ts, (∀ a ∈ ts, a.2.subject ≠ some q) →
        (run attempt s ts).getPlugin q = s.getPlugin q :=
  ⟨fun _ _ _ h => h.effect.frame hs.caps, fun q ts hq => run_attempt_others q ts s hq⟩

/-- plugin 1 holds a capability and has received a message, plugin 2 holds a capability below -/
def sampleBusy : State :=
  let s := (State.empty.insertPlugin 1 (.empty .Public 8)).2
  let s := (s.insertPlugin 2 (.empty .Secret 8)).2
  let s := (s.insertActor 1 ⟨[], [⟨0, 2, 1, .Public, []⟩], 4, none, none⟩).2
  let s := (s.applyCapDelegateMut ⟨100, 1, 0, .singleton .read, none, 0, true, .empty⟩ 1).2
  (s.applyCapDelegateMut ⟨101, 2, 0, .singleton .read, some 100, 0, true, .empty⟩ 2).2

theorem sampleBusy_sorted : sampleBusy.SortedTables where
  caps := by decide
  index := by decide
  plugins := by decide
  actors := by decide
  resources := by decide
  workflows := by decide
  held := by
    intro pid p h
    have hall : ∀ e ∈ sampleBusy.plugins, e.2.heldCaps.Pairwise (· < ·) := by decide
    exact hall (pid, p) (Table.mem_of_find h)
  freed := List.Pairwise.nil

/-- the message is consumed and the capabilities are revoked, and plugin 2 is as it was -/
theorem step_frame_sample :
    let t : Step := .pluginInternal 1 ⟨[], [], true⟩
    ∃ s', Exec .inPlace t sampleBusy s' ∧ s' ≠ sampleBusy ∧ Frame sampleBusy t s' ∧
      (run attempt sampleBusy [(.inPlace, t), (.cloning, .capRevoke 1 100)]).getPlugin 2 =
        sampleBusy.getPlugin 2 := by
  obtain ⟨hone, hrun⟩ := step_frame sampleBusy sampleBusy_sorted
  have hexec : Exec .inPlace (.pluginInternal 1 ⟨[], [], true⟩) sampleBusy
      ((Step.pluginInternal 1 ⟨[], [], true⟩).executeMut sampleBusy).2 := by decide
  exact ⟨_, hexec, by decide, hone _ _ _ hexec, hrun 2 _ (by decide)⟩

end LionCore
