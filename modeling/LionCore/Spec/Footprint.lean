import LionCore.Interleaving
import LionCore.Spec.Following

/-!
# The specification's footprints

The specification gives every step a footprint, and asks that steps with disjoint footprints
commute.

* `Spec.Footprint`, `Spec.stepFootprint`   the footprints of the specification;
* `writes_within`, `uses_within`           what they say of the cells: a send reads mailboxes that
                                           are not in its footprint;
* `disjoint_steps_commute`                 **main result**: the code's steps commute.
-/

namespace LionCore
open Base

namespace Spec

/-- what a step may affect -/
structure Footprint where
  kernel : Bool
  policy : Bool
  workflows : Bool
  plugins : Finset PluginId
  actors : Finset ActorId

namespace Footprint

def empty : Footprint := ⟨false, false, false, ∅, ∅⟩

def disjoint (f g : Footprint) : Prop :=
  (f.kernel = false ∨ g.kernel = false) ∧
  (f.policy = false ∨ g.policy = false) ∧
  (f.workflows = false ∨ g.workflows = false) ∧
  Disjoint f.plugins g.plugins ∧
  Disjoint f.actors g.actors

instance (f g : Footprint) : Decidable (f.disjoint g) :=
  inferInstanceAs (Decidable (_ ∧ _ ∧ _ ∧ _ ∧ _))

end Footprint

def stepFootprint : Label → Footprint
  | .pluginInternal pid _ => { Footprint.empty with plugins := {pid}, actors := {pid} }
  | .hostCall hc _ _ _ _ =>
    { Footprint.empty with
      kernel := true, policy := true, plugins := {hc.caller}, actors := {hc.caller} }
  | .kernelInternal op =>
    match op with
    | .timeTick => { Footprint.empty with kernel := true }
    | .workflowTick _ => { Footprint.empty with kernel := true, workflows := true }
    | .routeOne dst => { Footprint.empty with kernel := true, actors := {dst} }
    | .unblockSend dst => { Footprint.empty with kernel := true, actors := {dst} }

end Spec

/-! ## the cells of a footprint -/

/-- the cells that a footprint speaks of -/
def Spec.Footprint.Covers (f : Spec.Footprint) : Cell → Prop
  | .plugin pid => pid ∈ f.plugins
  | .actor aid => aid ∈ f.actors
  | .table | .address _ | .clock => f.kernel = true
  | .fixed => False

theorem Spec.Footprint.disjoint.not_covers {f g : Spec.Footprint} (h : f.disjoint g) {c : Cell}
    (hf : f.Covers c) : ¬ g.Covers c := by
  obtain ⟨hkernel, _, _, hplugins, hactors⟩ := h
  intro hg
  have hk : ¬ (f.kernel = true ∧ g.kernel = true) := by
    intro ⟨hf, hg⟩
    rcases hkernel with e | e
    · rw [e] at hf
      cases hf
    · rw [e] at hg
      cases hg
  cases c with
  | plugin pid => exact Finset.disjoint_left.mp hplugins hf hg
  | actor aid => exact Finset.disjoint_left.mp hactors hf hg
  | table | address | clock => exact hk ⟨hf, hg⟩
  | fixed => exact hf

theorem Spec.Footprint.disjoint.symm {f g : Spec.Footprint} (h : f.disjoint g) : g.disjoint f := by
  obtain ⟨hkernel, hpolicy, hworkflows, hplugins, hactors⟩ := h
  exact ⟨hkernel.symm, hpolicy.symm, hworkflows.symm, hplugins.symm, hactors.symm⟩

/-- the actors whose mailboxes a send reads -/
def Step.sendsTo : Step → Set ActorId
  | .hostCall hc _ res => {aid | hc.function = .capSend ∧ ∃ m ∈ res.newMsgs, aid = m.dst}
  | _ => ∅

section
variable {t : Step} {l : Spec.Label}

theorem footprint_of_hostCall {hc : HostCall} {auth : Authorized} {res : HostResult}
    (hl : (Step.hostCall hc auth res).label = some l) :
    Spec.stepFootprint l = ⟨true, true, false, {hc.caller}, {hc.caller}⟩ := by
  obtain ⟨hc', hhc, rfl⟩ := Option.map_eq_some_iff.mp hl
  obtain ⟨f', _, rfl⟩ := Option.map_eq_some_iff.mp hhc
  rfl

theorem writes_within (hl : t.label = some l) {c : Cell} (hc : c ∈ t.writes) :
    (Spec.stepFootprint l).Covers c := by
  cases t with
  | pluginInternal pid pi =>
    cases hl
    obtain ⟨_, rfl⟩ := hc
    exact Finset.mem_singleton_self pid
  | hostCall hc' auth res =>
    rw [footprint_of_hostCall hl]
    change c ∈ hc'.function.writes hc' at hc
    cases hf : hc'.function with
    | kernelAlloc =>
      rw [hf] at hc
      rcases hc with rfl | ⟨addr, rfl⟩
      · exact Finset.mem_singleton_self _
      · rfl
    | memFree | capRevoke =>
      rw [hf] at hc
      obtain rfl := Set.mem_singleton_iff.mp hc
      rfl
    | declassify =>
      rw [hf] at hc
      obtain rfl := Set.mem_singleton_iff.mp hc
      exact Finset.mem_singleton_self _
    | capCall | capSend | threadCreate | threadConfigure | threadResume | threadSuspend
    | threadDestroy =>
      rw [hf] at hc
      exact False.elim hc
  | kernelInternal op =>
    cases op with
    | routeOne dst | unblockSend dst =>
      cases hl
      obtain rfl := Set.mem_singleton_iff.mp hc
      exact Finset.mem_singleton_self dst
    | timeTick =>
      cases hl
      obtain rfl := Set.mem_singleton_iff.mp hc
      rfl
    | workflowTick | threadSwitch => exact False.elim hc
  | memFree caller addr => cases hl
  | capRevoke caller c' => cases hl

theorem uses_within (hl : t.label = some l) {c : Cell} (hc : c ∈ t.uses) :
    (Spec.stepFootprint l).Covers c ∨ c = .fixed ∨ ∃ aid ∈ t.sendsTo, c = .actor aid := by
  cases t with
  | pluginInternal pid pi =>
    cases hl
    refine Or.inl ?_
    rcases hc with rfl | rfl
    · exact Finset.mem_singleton_self pid
    · exact Finset.mem_singleton_self pid
  | hostCall hc' auth res =>
    rw [footprint_of_hostCall hl]
    rcases hc with (rfl | rfl | rfl | rfl) | hc
    · exact Or.inl (Finset.mem_singleton_self _)
    · exact Or.inl rfl
    · exact Or.inl rfl
    · exact Or.inr (Or.inl rfl)
    · cases hf : hc'.function with
      | capSend =>
        rw [hf] at hc
        obtain ⟨m, hm, rfl⟩ := hc
        exact Or.inr (Or.inr ⟨m.dst, ⟨hf, m, hm, rfl⟩, rfl⟩)
      | kernelAlloc =>
        rw [hf] at hc
        obtain ⟨addr, rfl⟩ := hc
        exact Or.inl rfl
      | memFree =>
        rw [hf] at hc
        obtain rfl := Set.mem_singleton_iff.mp hc
        exact Or.inl rfl
      | capCall | capRevoke | declassify | threadCreate | threadConfigure | threadResume
      | threadSuspend | threadDestroy =>
        rw [hf] at hc
        exact False.elim hc
  | kernelInternal op =>
    cases op with
    | routeOne dst | unblockSend dst =>
      cases hl
      obtain rfl := Set.mem_singleton_iff.mp hc
      exact Or.inl (Finset.mem_singleton_self dst)
    | timeTick =>
      cases hl
      obtain rfl := Set.mem_singleton_iff.mp hc
      exact Or.inl rfl
    | workflowTick wid => exact Or.inr (Or.inl hc)
    | threadSwitch src dst => exact False.elim hc
  | memFree caller addr => cases hl
  | capRevoke caller c' => cases hl

end

/-! ## steps with disjoint footprints -/

section
variable {t u : Step} {l m : Spec.Label}

/-- a step does not write what a step with a disjoint footprint uses, unless that one sends to an
actor that it writes -/
theorem disjoint_writes_uses (ht : t.label = some l) (hu : u.label = some m)
    (hd : (Spec.stepFootprint l).disjoint (Spec.stepFootprint m))
    (hsend : ∀ aid ∈ u.sendsTo, aid ∉ (Spec.stepFootprint l).actors) :
    ∀ c ∈ t.writes, c ∉ u.uses := by
  intro c hw huse
  have hc := writes_within ht hw
  rcases uses_within hu huse with h | rfl | ⟨aid, haid, rfl⟩
  · exact hd.not_covers hc h
  · exact hc
  · exact hsend aid haid hc

/-- a send leaves the state as it is -/
theorem attempt_send {hc : HostCall} {auth : Authorized} {res : HostResult} (s : State) (p : Path)
    (hf : hc.function = .capSend) : attempt s (p, .hostCall hc auth res) = s := by
  rw [attempt_eq]
  split
  · show hc.function.change p s hc = s
    rw [hf]
    rfl
  · rfl

theorem sendsTo_empty_or (t : Step) :
    t.sendsTo = ∅ ∨ ∀ s p, attempt s (p, t) = s := by
  cases t with
  | hostCall hc auth res =>
    by_cases hf : hc.function = .capSend
    · exact Or.inr fun s p => attempt_send s p hf
    · refine Or.inl (Set.eq_empty_iff_forall_notMem.mpr fun aid h => hf h.1)
  | pluginInternal | kernelInternal | memFree | capRevoke => exact Or.inl rfl

theorem commute_of_independent {s : State} (hs : s.Sorted) (p q : Path)
    (h : (∀ c ∈ t.writes, c ∉ u.uses) ∧ ∀ c ∈ u.writes, c ∉ t.uses) :
    attempt (attempt s (p, t)) (q, u) = attempt (attempt s (q, u)) (p, t) := by
  let s₀ : SortedState := ⟨s, hs⟩
  have hapart : SortedState.footprint.Apart [(true, (p, t)), (false, (q, u))] := by
    intro x hx y hy hne
    rcases List.mem_pair.mp hx with rfl | rfl <;> rcases List.mem_pair.mp hy with rfl | rfl
    · exact absurd rfl hne
    · exact h
    · exact h.symm
    · exact absurd rfl hne
  let s₁ := (SortedState.attempt (SortedState.attempt s₀ (p, t)).2 (q, u)).2
  let s₂ := (SortedState.attempt (SortedState.attempt s₀ (q, u)).2 (p, t)).2
  have hparty : ∀ b, party b [(true, (p, t)), (false, (q, u))] =
      party b [(false, (q, u)), (true, (p, t))] := by
    intro b
    cases b <;> rfl
  exact State.Sorted.ext s₁.2 s₂.2 (SortedState.footprint.interleaved hapart hparty s₀).2

theorem answer_of_disjoint {s : State} (hs : s.Sorted) (p q : Path)
    (h : ∀ c ∈ t.writes, c ∉ u.uses) : answer (attempt s (p, t)) (q, u) = answer s (q, u) := by
  let s₀ : SortedState := ⟨s, hs⟩
  apply SortedState.footprint.answer (SortedState.attempt s₀ (p, t)).2 s₀ (q, u)
  exact SortedState.footprint.unseen (a := (p, t)) (b := (q, u)) h s₀

end

/-- **Main result**: from whatever state calls have led to, two steps with disjoint footprints leave
the same state in either order, each by either path and whether it succeeds or fails; and a step
gives the same answer after the other as before, unless it sends to an actor of the other. -/
theorem disjoint_steps_commute (hmac : Hmac) (key : Key) (policy : PolicyState) (cs : List Call)
    {t u : Step} {l m : Spec.Label} (ht : t.label = some l) (hu : u.label = some m)
    (hd : (Spec.stepFootprint l).disjoint (Spec.stepFootprint m)) (p q : Path) :
    let s := runCalls hmac (.initial key policy) cs
    attempt (attempt s (p, t)) (q, u) = attempt (attempt s (q, u)) (p, t) ∧
      ((∀ aid ∈ t.sendsTo, aid ∉ (Spec.stepFootprint m).actors) →
        answer (attempt s (q, u)) (p, t) = answer s (p, t)) := by
  intro s
  have hs : s.Sorted := runCalls_cellsSorted hmac key policy cs
  constructor
  · rcases sendsTo_empty_or t with het | het
    · rcases sendsTo_empty_or u with heu | heu
      · apply commute_of_independent hs p q
        refine ⟨disjoint_writes_uses ht hu hd ?_, disjoint_writes_uses hu ht hd.symm ?_⟩
        · rw [heu]
          exact fun aid h => False.elim h
        · rw [het]
          exact fun aid h => False.elim h
      · rw [heu, heu]
    · rw [het, het]
  · intro hsend
    exact answer_of_disjoint hs q p (disjoint_writes_uses hu ht hd.symm hsend)

/-- plugin 1 may send, and the mailbox of plugin 2 is full -/
def sampleFullMailbox : List Call :=
  [.alloc 1 8, .registerPlugin 1 .Public 8, .registerPlugin 2 .Public 8,
    .insertCapRaw { sampleRoot with rights := .singleton .send } 1,
    .insertActor 2 ⟨[], [⟨0, 1, 2, .Public, []⟩], 1, none, none⟩]

/-- plugin 1 sends to plugin 2 -/
def sampleSendStep : Step :=
  .hostCall ⟨1, .capSend, [], [], []⟩
    ⟨{ sampleRoot with rights := .singleton .send }, ⟨1, 0, .singleton .send, "cap_send"⟩,
      ⟨0, none⟩⟩ ⟨[], [⟨1, 1, 2, .Public, []⟩]⟩

/-- plugin 2 takes a message out of its mailbox -/
def sampleReceiveStep : Step := .pluginInternal 2 ⟨[], [], true⟩

theorem disjoint_steps_commute_sample :
    let s := runCalls sampleMac (.initial .empty .permitAll) sampleFullMailbox
    attempt (attempt s (.inPlace, sampleReceiveStep)) (.cloning, sampleSendStep) =
        attempt (attempt s (.cloning, sampleSendStep)) (.inPlace, sampleReceiveStep) ∧
      answer (attempt s (.cloning, sampleSendStep)) (.inPlace, sampleReceiveStep) =
        answer s (.inPlace, sampleReceiveStep) := by
  intro s
  have h := disjoint_steps_commute sampleMac .empty .permitAll sampleFullMailbox
    (t := sampleReceiveStep) (u := sampleSendStep) rfl rfl (by decide) .inPlace .cloning
  exact ⟨h.1, h.2 fun aid haid => False.elim haid⟩

/-- their footprints are disjoint, but the send goes through only after the other step -/
example :
    let s := runCalls sampleMac (.initial .empty .permitAll) sampleFullMailbox
    answer (attempt s (.inPlace, sampleReceiveStep)) (.inPlace, sampleSendStep) = .ok () ∧
      answer s (.inPlace, sampleSendStep) =
        .error (.hostCallPreconditionFailed .mailboxFull) := by
  decide

end LionCore
