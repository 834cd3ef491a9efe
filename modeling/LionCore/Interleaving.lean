import LionCore.Calls
import LionCore.Security.SlowRevocation
import LionCore.Step.Footprint

/-!
# Interleavings of several parties

Each party makes attempts, by either path, and these are interleaved into one run.

* `runCalls_cellsSorted`  calls reach states whose tables are sorted;
* `Step.Independent`      neither step writes what the other uses;
* `answersTo`             the answers that one party gets in a run;
* `interleavings_agree`   **main result**: independent parties do not see how they are interleaved.
-/

namespace LionCore
open Base

/-! ## the states that calls reach -/

theorem State.Sorted.updatePlugin {s : State} (h : s.Sorted) (pid : PluginId)
    (f : PluginState → PluginState) : (s.updatePlugin pid f).Sorted :=
  ⟨h.plugins.modify pid f, h.actors, h.freed⟩

theorem Call.cellsSorted (hmac : Hmac) {s : State} (cl : Call) (hs : s.Sorted) :
    (cl.exec hmac s).Sorted := by
  have h := cl.leaves hmac s
  generalize cl.exec hmac s = s' at h
  cases h with
  | same => exact hs
  | plugin _ h => exact ⟨hs.plugins.add h, hs.actors, hs.freed⟩
  | actor h => exact ⟨hs.plugins, hs.actors.add h, hs.freed⟩
  | resource | workflow | revoke | alloc | tick => exact ⟨hs.plugins, hs.actors, hs.freed⟩
  | @raw cap target r _ =>
    have h : (s.withRevocation r).Sorted := ⟨hs.plugins, hs.actors, hs.freed⟩
    exact h.updatePlugin target _
  | delegation h =>
    cases h with
    | refused => exact hs
    | unminted | collision => exact ⟨hs.plugins, hs.actors, hs.freed⟩
    | @minted cap r _ _ _ =>
      have h : (s.nextId.withRevocation r).Sorted := ⟨hs.plugins, hs.actors, hs.freed⟩
      exact h.updatePlugin _ _
  | @free addr _ _ h =>
    obtain ⟨_, rfl⟩ := MetaState.freeMut_ok h
    exact ⟨hs.plugins, hs.actors, hs.freed.insertKey addr⟩
  | execute h =>
    rw [h.eq_change]
    exact hs.change _ _
  | executeMut h =>
    rw [h.eq_change]
    exact hs.change _ _

theorem runCalls_cellsSorted (hmac : Hmac) (key : Key) (policy : PolicyState) (cs : List Call) :
    (runCalls hmac (.initial key policy) cs).Sorted :=
  run_invariant (P := State.Sorted) (fun _ cl h => cl.cellsSorted hmac h) cs
    ⟨List.Pairwise.nil, List.Pairwise.nil, List.Pairwise.nil⟩

/-! ## parties -/

def Step.Independent (t u : Step) : Prop :=
  (∀ c ∈ t.writes, c ∉ u.uses) ∧ ∀ c ∈ u.writes, c ∉ t.uses

/-- the answers to the attempts of a run -/
def answers (s : State) (as : List (Path × Step)) : List (Except StepError Unit) :=
  outputs attempt (fun s a => [answer s a]) s as

/-- the state after an attempt of some party -/
def attemptOf {P : Type} (s : State) (x : P × Path × Step) : State := attempt s x.2

theorem run_val {P : Type} (xs : List (P × Path × Step)) (s : SortedState) :
    (run (after SortedState.attempt) s xs).1 = run attemptOf s.1 xs := by
  induction xs generalizing s with
  | nil => rfl
  | cons x xs ih => exact ih _

section
variable {P : Type} [DecidableEq P]

/-- the answers to the attempts of party `p`, in a run of several parties -/
def answersTo (p : P) (s : State) (xs : List (P × Path × Step)) : List (Except StepError Unit) :=
  outputs attemptOf (fun s x => if x.1 = p then [answer s x.2] else []) s xs

theorem answersTo_val (p : P) (xs : List (P × Path × Step)) (s : SortedState) :
    outputs (after SortedState.attempt) (answerTo SortedState.attempt p) s xs =
      answersTo p s.1 xs := by
  induction xs generalizing s with
  | nil => rfl
  | cons x xs ih =>
    show answerTo SortedState.attempt p s x ++ _ =
      (if x.1 = p then [answer s.1 x.2] else []) ++ _
    rw [ih]
    rfl

theorem answersTo_party (p : P) (xs : List (P × Path × Step)) (s : State) :
    answersTo p s (party p xs) = answers s ((party p xs).map Prod.snd) := by
  have hall : ∀ x ∈ party p xs, x.1 = p := fun x hx => (mem_party.mp hx).2
  generalize party p xs = ys at hall
  induction ys generalizing s with
  | nil => rfl
  | cons y ys ih =>
    have hy : y.1 = p := hall y List.mem_cons_self
    have hrest := ih (attempt s y.2) fun x hx => hall x (List.mem_cons_of_mem y hx)
    show (if y.1 = p then [answer s y.2] else []) ++ answersTo p (attempt s y.2) ys =
      [answer s y.2] ++ answers (attempt s y.2) (ys.map Prod.snd)
    rw [if_pos hy, hrest]

/-- **Main result**: let steps of different parties be independent.  Then, from whatever state calls
have led to, two interleavings of the same attempts, each party's in its own order, end in the same
state; and each party gets, to the last error, the answers that it gets when it runs alone. -/
theorem interleavings_agree (hmac : Hmac) (key : Key) (policy : PolicyState) (cs : List Call)
    {xs ys : List (P × Path × Step)}
    (hapart : ∀ x ∈ xs, ∀ y ∈ xs, x.1 ≠ y.1 → x.2.2.Independent y.2.2)
    (hparty : ∀ p, party p xs = party p ys) :
    let s := runCalls hmac (.initial key policy) cs
    run attemptOf s xs = run attemptOf s ys ∧
      ∀ p, answersTo p s xs = answersTo p s ys ∧
        answersTo p s xs = answers s ((party p xs).map Prod.snd) := by
  intro s
  let s₀ : SortedState := ⟨s, runCalls_cellsSorted hmac key policy cs⟩
  have h : SortedState.footprint.Apart xs := hapart
  obtain ⟨hanswers, hcells⟩ := SortedState.footprint.interleaved h hparty s₀
  refine ⟨?_, fun p => ⟨?_, ?_⟩⟩
  · have hx := run_val xs s₀
    have hy := run_val ys s₀
    rw [← hx, ← hy]
    exact State.Sorted.ext (Subtype.property _) (Subtype.property _) hcells
  · have e := hanswers p
    rwa [answersTo_val, answersTo_val] at e
  · have e := (SortedState.footprint.alone_of_apart h p s₀).1
    rw [answersTo_val, answersTo_val] at e
    rw [e, answersTo_party]

end

/-- a computation that takes nothing from its mailbox is independent of what leaves its plugin and
its actor alone -/
theorem independent_compute {pid : PluginId} {pi : PluginInternal} {u : Step}
    (hpi : pi.consumeMailbox = false) (hplugin : .plugin pid ∉ u.writes)
    (hactor : .actor pid ∉ u.writes) : Step.Independent (.pluginInternal pid pi) u := by
  constructor
  · intro c hc
    exact absurd (hpi.symm.trans hc.1) Bool.false_ne_true
  · intro c hw hc
    rcases hc with rfl | rfl
    · exact hplugin hw
    · exact hactor hw

/-- plugins 1 and 2, and a root capability of plugin 1 -/
def sampleTwoPlugins : List Call :=
  [.registerPlugin 1 .Public 8, .registerPlugin 2 .Public 8, .insertCapRaw sampleRoot 1]

/-- plugin 2 computes -/
def sampleComputeAttempt : Path × Step := (.inPlace, .pluginInternal 2 ⟨[(0, 8)], [], false⟩)

/-- plugin 1 revokes its root -/
def sampleRevokeAttempt : Path × Step := (.cloning, .capRevoke 1 100)

theorem interleavings_agree_sample :
    let s := runCalls sampleMac (.initial .empty .permitAll) sampleTwoPlugins
    let c := (true, sampleComputeAttempt)
    let r := (false, sampleRevokeAttempt)
    let xs := [c, r, c]
    let ys := [c, c, r]
    run attemptOf s xs = run attemptOf s ys ∧
      ∀ p, answersTo p s xs = answersTo p s ys ∧
        answersTo p s xs = answers s ((party p xs).map Prod.snd) := by
  have h : sampleComputeAttempt.2.Independent sampleRevokeAttempt.2 :=
    independent_compute rfl (fun e => nomatch e) fun e => nomatch e
  apply interleavings_agree
  · intro x hx y hy hne
    have hmem : ∀ z ∈ [(true, sampleComputeAttempt), (false, sampleRevokeAttempt),
        (true, sampleComputeAttempt)],
        z = (true, sampleComputeAttempt) ∨ z = (false, sampleRevokeAttempt) := by decide
    rcases hmem x hx with rfl | rfl
    · rcases hmem y hy with rfl | rfl
      · exact absurd rfl hne
      · exact h
    · rcases hmem y hy with rfl | rfl
      · exact And.symm h
      · exact absurd rfl hne
  · decide

end LionCore
