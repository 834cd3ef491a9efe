import LionCore.Step.Frame

/-!
# Noninterference

An observer of level `l` sees the plugins and the resources of level at most `l`, so what a state
is for that observer is a part of two tables.

* `lowEquivalent_iff`      low equivalence is equality of the two parts;
* `Effect.lowPlugins`      what a step does to the part depends on the step alone;
* `lowPlugins_of_hidden`   a step above `l` does nothing to it;
* `noninterference`        **main result**, by unwinding.
-/

namespace LionCore
open Base

/-! ## what an observer sees -/

section
variable (l : SecurityLevel)

def lowPlugins (s : State) : PluginId → Option PluginState :=
  s.plugins.part fun p => decide (p.level ≤ l)

def lowResources (s : State) : ResourceId → Option ResourceInfo :=
  s.resources.part fun r => decide (r.level ≤ l)

/-- a test of the entries of level at most `l` -/
theorem all_low_iff {V : Type} (lev : V → SecurityLevel) (t : Table Nat V)
    (test : Nat × V → Bool) : (t.all fun e => if lev e.2 > l then true else test e) = true ↔
      ∀ e ∈ t, decide (lev e.2 ≤ l) = true → test e = true := by
  rw [List.all_eq_true]
  apply forall₂_congr
  intro e _
  by_cases h : lev e.2 > l
  · rw [if_pos h]
    exact iff_of_true rfl fun hle => absurd (of_decide_eq_true hle) (not_le.mpr h)
  · rw [if_neg h]
    exact ⟨fun ht _ => ht, fun ht => ht (decide_eq_true (not_lt.mp h))⟩

theorem pluginsLowEquiv_iff (s₁ s₂ : State) : pluginsLowEquiv l s₁ s₂ = true ↔
    ∀ e ∈ s₁.plugins, decide (e.2.level ≤ l) = true → s₂.plugins.find e.1 = some e.2 := by
  unfold pluginsLowEquiv
  rw [all_low_iff l PluginState.level]
  refine forall₂_congr fun e _ => imp_congr_right fun _ => ?_
  cases s₂.plugins.find e.1 <;> simp [eq_comm]

theorem resourcesLowEquiv_iff (s₁ s₂ : State) : resourcesLowEquiv l s₁ s₂ = true ↔
    ∀ e ∈ s₁.resources, decide (e.2.level ≤ l) = true → s₂.resources.find e.1 = some e.2 := by
  unfold resourcesLowEquiv
  rw [all_low_iff l ResourceInfo.level]
  refine forall₂_congr fun e _ => imp_congr_right fun _ => ?_
  cases s₂.resources.find e.1 <;> simp [eq_comm]

theorem lowEquivalent_iff {s₁ s₂ : State} (hp₁ : s₁.plugins.Sorted) (hr₁ : s₁.resources.Sorted)
    (hp₂ : s₂.plugins.Sorted) (hr₂ : s₂.resources.Sorted) :
    lowEquivalent l s₁ s₂ = true ↔
      lowPlugins l s₁ = lowPlugins l s₂ ∧ lowResources l s₁ = lowResources l s₂ := by
  unfold lowEquivalent lowEquivalentLeft lowPlugins lowResources
  rw [Bool.and_eq_true, Bool.and_eq_true, Bool.and_eq_true, pluginsLowEquiv_iff,
    pluginsLowEquiv_iff, resourcesLowEquiv_iff, resourcesLowEquiv_iff,
    Table.part_eq_iff hp₁ hp₂, Table.part_eq_iff hr₁ hr₂]
  exact and_and_and_comm

end

/-! ## one step -/

/-- what a step that does not declassify does to a plugin: an allocation is charged to the caller,
nothing else happens -/
def Step.onPlugin (t : Step) (q : PluginId) (p : PluginState) : PluginState :=
  match t with
  | .hostCall hc _ _ =>
    if hc.function = .kernelAlloc ∧ q = hc.caller then p.charge hc.firstOrZero else p
  | _ => p

theorem Step.level_onPlugin (t : Step) (q : PluginId) (p : PluginState) :
    (t.onPlugin q p).level = p.level := by
  unfold Step.onPlugin
  split
  · split <;> rfl
  · rfl

theorem Step.onPlugin_of_subject {t : Step} {q : PluginId} (hq : t.subject ≠ some q) :
    t.onPlugin q = id := by
  funext p
  unfold Step.onPlugin
  split
  · rw [if_neg]
    · rfl
    · rintro ⟨_, rfl⟩
      exact hq rfl
  · rfl

section
variable {p : Path} {s s' : State} {t : Step}

theorem Step.onPlugin_of_not_alloc
    (h : ∀ hc auth res, t = .hostCall hc auth res → hc.function ≠ .kernelAlloc) (q : PluginId) :
    t.onPlugin q = id := by
  funext p
  unfold Step.onPlugin
  split
  · rename_i hc auth res
    exact if_neg fun hf => h hc auth res rfl hf.1
  · rfl

theorem Effect.getPlugin (h : Effect p s t s') (hd : t.isDeclassify = false) (q : PluginId) :
    s'.getPlugin q = (s.getPlugin q).map (t.onPlugin q) := by
  have same : s'.plugins = s.plugins →
      (∀ hc auth res, t = .hostCall hc auth res → hc.function ≠ .kernelAlloc) →
      s'.getPlugin q = (s.getPlugin q).map (t.onPlugin q) := fun e ht => by
    rw [Step.onPlugin_of_not_alloc ht, Option.map_id, State.getPlugin, e]
    rfl
  cases h with
  | @compute pid pi hck =>
    obtain ⟨actors, e⟩ := pi.consume_frame s pid
    exact same (by rw [e]) fun _ _ _ h => nomatch h
  | use hgate hck =>
    refine same rfl ?_
    rintro hc auth res ⟨⟩ hf
    rcases hck with ⟨h, _⟩ | ⟨h, _⟩
    · exact nomatch h.symm.trans hf
    · exact nomatch h.symm.trans hf
  | @alloc hc auth res hgate hf hck =>
    rw [State.getPlugin_updatePlugin]
    by_cases hq : q = hc.caller
    · have e : (Step.hostCall hc auth res).onPlugin q = (·.charge hc.firstOrZero) := by
        funext p
        exact if_pos ⟨hf, hq⟩
      rw [if_pos hq, e]
      rfl
    · have hne : (Step.hostCall hc auth res).subject ≠ some q :=
        fun e => hq (Option.some.inj e).symm
      rw [if_neg hq, Step.onPlugin_of_subject hne, Option.map_id]
      rfl
  | declassify hgate hf hck => exact absurd hf (of_decide_eq_false hd)
  | @free t addr g hgate ht hck hg =>
    refine same rfl ?_
    rintro hc auth res rfl hf
    rcases Step.frees_cases ht with ⟨_, e⟩ | ⟨_, _, _, ⟨⟩, hf', _⟩
    · cases e
    · exact nomatch hf'.symm.trans hf
  | @revoke t c r hgate ht hck hr =>
    refine same rfl ?_
    rintro hc auth res rfl hf
    rcases Step.revokes_cases ht with ⟨_, e⟩ | ⟨_, _, _, ⟨⟩, hf', _⟩
    · cases e
    · exact nomatch hf'.symm.trans hf
  | route | workflow | tick | unblock => exact same rfl fun _ _ _ h => nomatch h

/-- the part that an observer sees after a step is a function of the part before it -/
theorem Effect.lowPlugins (h : Effect p s t s') (hd : t.isDeclassify = false)
    (l : SecurityLevel) (q : PluginId) :
    LionCore.lowPlugins l s' q = (LionCore.lowPlugins l s q).map (t.onPlugin q) := by
  show (s'.getPlugin q).filter _ = ((s.getPlugin q).filter _).map _
  rw [h.getPlugin hd]
  cases s.getPlugin q with
  | none => rfl
  | some x =>
    by_cases hx : x.level ≤ l <;> simp [Option.filter, Step.level_onPlugin, hx]

/-- a step above `l` has no subject, or one that the observer does not see -/
theorem lowPlugins_of_hidden {l : SecurityLevel} (h : Effect p s t s')
    (hd : t.isDeclassify = false) (hl : ¬ t.level s ≤ l) :
    LionCore.lowPlugins l s' = LionCore.lowPlugins l s := by
  funext q
  rw [h.lowPlugins hd]
  by_cases hq : t.subject = some q
  · have hnone : LionCore.lowPlugins l s q = none := by
      show (s.getPlugin q).filter _ = none
      unfold Step.level at hl
      rw [hq] at hl
      cases hp : s.getPlugin q with
      | none => rfl
      | some x =>
        have hx : ¬ x.level ≤ l := by
          simpa [State.pluginLevel, hp] using hl
        simp [Option.filter, hx]
    rw [hnone]
    rfl
  · rw [Step.onPlugin_of_subject hq, Option.map_id]
    rfl

theorem Effect.tables (h : Effect p s t s') :
    s'.resources = s.resources ∧ s'.plugins.keys = s.plugins.keys := by
  cases h with
  | @compute pid pi hck =>
    obtain ⟨actors, e⟩ := pi.consume_frame s pid
    rw [e]
    exact ⟨rfl, rfl⟩
  | alloc | declassify => exact ⟨rfl, State.keys_updatePlugin _ _ _⟩
  | use | free | revoke | route | workflow | tick | unblock => exact ⟨rfl, rfl⟩

end

/-! ## two runs -/

/-- `t` is executed by either path, and it does not declassify -/
def Executes (s : State) (t : Step) (s' : State) : Prop :=
  t.isDeclassify = false ∧ ∃ p, Exec p t s s'

/-- the step is of level at most `l` in the state in which it runs -/
def Low (l : SecurityLevel) (s : State) (t : Step) : Prop := t.level s ≤ l

instance (l : SecurityLevel) (s : State) (t : Step) : Decidable (Low l s t) :=
  inferInstanceAs (Decidable (t.level s ≤ l))

/-- **Main result**: two traces of successful steps from low equivalent states, with the same low
steps, end in low equivalent states. -/
theorem noninterference (l : SecurityLevel) (s₁ s₂ s₁' s₂' : State) (ts₁ ts₂ vs : List Step)
    (hp₁ : s₁.plugins.Sorted) (hr₁ : s₁.resources.Sorted) (hp₂ : s₂.plugins.Sorted)
    (hr₂ : s₂.resources.Sorted) (h : lowEquivalent l s₁ s₂ = true)
    (tr₁ : Trace Executes (Low l) s₁ ts₁ vs s₁') (tr₂ : Trace Executes (Low l) s₂ ts₂ vs s₂') :
    lowEquivalent l s₁' s₂' = true := by
  have sorted : ∀ s t s', s.plugins.Sorted ∧ s.resources.Sorted → Executes s t s' →
      s'.plugins.Sorted ∧ s'.resources.Sorted := by
    rintro s t s' ⟨hp, hr⟩ ⟨_, p, hx⟩
    obtain ⟨er, ek⟩ := hx.effect.tables
    exact ⟨hp.of_keys ek, er ▸ hr⟩
  have h₁ := tr₁.invariant sorted ⟨hp₁, hr₁⟩
  have h₂ := tr₂.invariant sorted ⟨hp₂, hr₂⟩
  rw [lowEquivalent_iff l h₁.1 h₁.2 h₂.1 h₂.2]
  rw [lowEquivalent_iff l hp₁ hr₁ hp₂ hr₂] at h
  have res : ∀ {s t s'}, Executes s t s' → lowResources l s' = lowResources l s := by
    rintro s t s' ⟨_, p, hx⟩
    unfold lowResources
    rw [hx.effect.tables.1]
  have hidden : ∀ {s t s'}, ¬ Low l s t → Executes s t s' → lowPlugins l s' = lowPlugins l s :=
    fun hn ⟨hd, _, hx⟩ => lowPlugins_of_hidden hx.effect hd hn
  refine Trace.unwinding
    (R := fun s t => lowPlugins l s = lowPlugins l t ∧ lowResources l s = lowResources l t)
    ?left ?right ?both h tr₁ tr₂
  case left =>
    intro s s' t a hR hn hx
    exact ⟨(hidden hn hx).trans hR.1, (res hx).trans hR.2⟩
  case right =>
    intro s t t' a hR hn hx
    exact ⟨hR.1.trans (hidden hn hx).symm, hR.2.trans (res hx).symm⟩
  case both =>
    intro s s' t t' a hR _ _ hx hx'
    refine ⟨funext fun q => ?_, ((res hx).trans hR.2).trans (res hx').symm⟩
    obtain ⟨hd, _, hx⟩ := hx
    obtain ⟨_, _, hx'⟩ := hx'
    rw [hx.effect.lowPlugins hd, hx'.effect.lowPlugins hd, hR.1]

/-- a public plugin 1 and a secret plugin 2, which has `size` bytes of memory -/
def sampleSecret (size : Size) : State :=
  ((State.empty.insertPlugin 1 (.empty .Public 8)).2.insertPlugin 2 (.empty .Secret size)).2

/-- a computation of a plugin that writes its first byte -/
def sampleWrite (pid : PluginId) : Step := .pluginInternal pid ⟨[], [(0, 1)], false⟩

/-- the secret plugin runs in one trace, the clock in the other -/
theorem noninterference_sample :
    lowEquivalent .Internal (sampleSecret 8)
      (attempt (sampleSecret 64) (.cloning, .kernelInternal .timeTick)) = true := by
  have run : ∀ s pid, (sampleWrite pid).execute s = .ok s → Executes s (sampleWrite pid) s :=
    fun s pid h => ⟨rfl, .cloning, h⟩
  have tick : Executes (sampleSecret 64) (.kernelInternal .timeTick)
      (attempt (sampleSecret 64) (.cloning, .kernelInternal .timeTick)) :=
    ⟨rfl, .cloning, by decide⟩
  exact noninterference .Internal (sampleSecret 8) (sampleSecret 64) _ _
    [sampleWrite 2, sampleWrite 1] [.kernelInternal .timeTick, sampleWrite 1] [sampleWrite 1]
    (by decide) (by decide) (by decide) (by decide) (by decide)
    (.hidden (by decide) (run _ 2 (by decide))
      (.visible (by decide) (run _ 1 (by decide)) (.nil _)))
    (.hidden (by decide) tick (.visible (by decide) (run _ 1 (by decide)) (.nil _)))

end LionCore
