import LionCore.Security.SlowRevocation

/-!
# Tokens and operations

The action of a host call names its caller, its function and, for three functions, its first
argument.  The size of an allocation and the level of a declassification are not in it.

* `HostCall.Required.function`   the action tells the function;
* `HostEffect.unique`            caller, function and first argument tell the new state;
* `token_bound_iff`              **main result**: one token carries out two different operations
                                 exactly if both allocate or both declassify, with different
                                 arguments;
* `token_spent_twice`            a token for an allocation of 0 bytes allocates 8.
-/

namespace LionCore
open Base

/-! ## what an action tells about its call -/

/-- the function behind the kind of an action -/
def kindFunction (kind : String) : Option HostFunction :=
  if kind = "cap_call" then some .capCall
  else if kind = "cap_send" then some .capSend
  else if kind = "kernel_alloc" then some .kernelAlloc
  else if kind = "mem_free" then some .memFree
  else if kind = "cap_revoke" then some .capRevoke
  else if kind = "declassify" then some .declassify
  else none

/-- the action of these functions names the first argument -/
def HostFunction.Named (f : HostFunction) : Prop := f = .capCall ∨ f = .memFree ∨ f = .capRevoke

namespace HostCall

theorem Required.function {hc : HostCall} {a : Action} (h : hc.Required a) :
    kindFunction a.kind = some hc.function := by
  cases h with
  | capCall hf | capSend hf | kernelAlloc hf | memFree hf | capRevoke hf | declassify hf =>
    simp [kindFunction, hf]

theorem firstOrZero_of_firstArg {hc : HostCall} {m : HostCallPrecondition} {n : Nat}
    (h : hc.firstArg m = .ok n) : hc.firstOrZero = n := by
  obtain ⟨v, hv, rfl⟩ := Option.map_eq_some_iff.mp ((hc.firstArg_ok_iff m n).mp h)
  unfold HostCall.firstOrZero
  rw [hv]
  rfl

theorem Required.argument {hc : HostCall} {a : Action} (h : hc.Required a)
    (hn : hc.function.Named) : hc.firstOrZero = a.target := by
  cases h with
  | capCall _ ha | memFree _ ha | capRevoke _ ha => exact firstOrZero_of_firstArg ha
  | capSend hf | kernelAlloc hf | declassify hf =>
    rw [hf] at hn
    rcases hn with e | e | e <;> cases e

end HostCall

/-- two calls that one token admits have caller, function and named argument in common -/
structure SameOperation (hc₁ hc₂ : HostCall) : Prop where
  caller : hc₁.caller = hc₂.caller
  function : hc₁.function = hc₂.function
  argument : hc₁.function.Named → hc₁.firstOrZero = hc₂.firstOrZero

theorem sameOperation {s : State} {auth : Authorized} {hc₁ hc₂ : HostCall}
    (h₁ : checkHostCall s hc₁ auth = .ok ()) (h₂ : checkHostCall s hc₂ auth = .ok ()) :
    SameOperation hc₁ hc₂ := by
  obtain ⟨hs₁, ha₁, _⟩ := (checkHostCall_ok_iff s hc₁ auth).mp h₁
  obtain ⟨hs₂, ha₂, _⟩ := (checkHostCall_ok_iff s hc₂ auth).mp h₂
  have r₁ := HostCall.required ha₁
  have r₂ := HostCall.required ha₂
  have hf : hc₁.function = hc₂.function := Option.some.inj (r₁.function.symm.trans r₂.function)
  exact ⟨hs₁.symm.trans hs₂, hf, fun hn => (r₁.argument hn).trans (r₂.argument (hf ▸ hn)).symm⟩

/-! ## caller, function and argument tell the new state -/

theorem Path.frees_unique {p : Path} {m m₁ m₂ : MetaState} {a : MemAddr} (h₁ : p.frees m a m₁)
    (h₂ : p.frees m a m₂) : m₁ = m₂ := by
  cases p with
  | cloning => exact Eq.trans h₁ (Eq.symm h₂)
  | inPlace => exact (Prod.mk.inj (Eq.trans (Eq.symm h₁) h₂)).2

theorem Path.revokes_unique {p : Path} {r r₁ r₂ : RevocationState} {c : CapId}
    (h₁ : p.revokes r c r₁) (h₂ : p.revokes r c r₂) : r₁ = r₂ := by
  cases p with
  | cloning => exact Eq.trans h₁ (Eq.symm h₂)
  | inPlace => exact (Prod.mk.inj (Eq.trans (Eq.symm h₁) h₂)).2

theorem HostEffect.unique {p : Path} {s s₁ s₂ : State} {hc₁ hc₂ : HostCall} {res : HostResult}
    {f : HostFunction} (hcaller : hc₁.caller = hc₂.caller)
    (hn : f ≠ .capSend → hc₁.firstOrZero = hc₂.firstOrZero)
    (h₁ : HostEffect p s hc₁ res f s₁) (h₂ : HostEffect p s hc₂ res f s₂) : s₁ = s₂ := by
  cases h₁ with
  | capCall | capSend =>
    cases h₂
    rfl
  | kernelAlloc =>
    cases h₂
    rw [hcaller, hn nofun]
  | @memFree addr g harg _ hg =>
    cases h₂ with
    | @memFree addr' g' harg' _ hg' =>
      have e := hn nofun
      rw [HostCall.firstOrZero_of_firstArg harg, HostCall.firstOrZero_of_firstArg harg'] at e
      have hgg : g = g' := Path.frees_unique (e ▸ hg) hg'
      rw [hgg]
  | @capRevoke c r harg _ hr =>
    cases h₂ with
    | @capRevoke c' r' harg' _ hr' =>
      have e := hn nofun
      rw [HostCall.firstOrZero_of_firstArg harg, HostCall.firstOrZero_of_firstArg harg'] at e
      have hrr : r = r' := Path.revokes_unique (e ▸ hr) hr'
      rw [hrr]
  | declassify hck =>
    cases h₂ with
    | declassify hck' =>
      have hl := ((checkDeclassify_ok_iff _ _ _).mp hck).1
      rw [hn nofun] at hl
      rw [hcaller, Option.some.inj (hl.symm.trans ((checkDeclassify_ok_iff _ _ _).mp hck').1)]

/-! ## what the action leaves out -/

/-- the call allocates within the quota of its caller -/
def HostCall.Allocates (hc : HostCall) (s : State) : Prop :=
  hc.function = .kernelAlloc ∧
    ∃ q, s.getPlugin hc.caller = some q ∧ q.canAllocMemory hc.firstOrZero = true

/-- the call sets a level that is not above its caller's -/
def HostCall.SetsLevel (hc : HostCall) (s : State) : Prop :=
  hc.function = .declassify ∧ ∃ q l, s.getPlugin hc.caller = some q ∧
    SecurityLevel.fromU8 hc.firstOrZero = some l ∧ l ≤ q.level

/-- two calls that both allocate or both declassify with the token have the same argument -/
def ArgumentsAgree (s : State) (auth : Authorized) (hc₁ hc₂ : HostCall) : Prop :=
  checkHostCall s hc₁ auth = .ok () → checkHostCall s hc₂ auth = .ok () →
    (hc₁.Allocates s ∧ hc₂.Allocates s) ∨ (hc₁.SetsLevel s ∧ hc₂.SetsLevel s) →
    hc₁.firstOrZero = hc₂.firstOrZero

/-- the two calls lead to the same state, whenever both are carried out -/
def Bound (s : State) (auth : Authorized) (res : HostResult) (hc₁ hc₂ : HostCall) : Prop :=
  ∀ p s₁ s₂, Exec p (.hostCall hc₁ auth res) s s₁ → Exec p (.hostCall hc₂ auth res) s s₂ → s₁ = s₂

theorem canAllocMemory_lt {q : PluginState} {n : Nat} (h : q.canAllocMemory n = true) :
    q.memoryUsed + n < u64Size := by
  unfold PluginState.canAllocMemory checkedAdd64 at h
  by_contra hn
  rw [if_neg hn] at h
  cases h

theorem charge_injective {q : PluginState} {n₁ n₂ : Nat} (h₁ : q.canAllocMemory n₁ = true)
    (h₂ : q.canAllocMemory n₂ = true) (h : q.charge n₁ = q.charge n₂) : n₁ = n₂ := by
  have hused : min (q.memoryUsed + n₁) (u64Size - 1) = min (q.memoryUsed + n₂) (u64Size - 1) :=
    congrArg PluginState.memoryUsed h
  have hlt₁ := canAllocMemory_lt h₁
  have hlt₂ := canAllocMemory_lt h₂
  omega

theorem fromU8_injective {n₁ n₂ : Nat} {l : SecurityLevel}
    (h₁ : SecurityLevel.fromU8 n₁ = some l) (h₂ : SecurityLevel.fromU8 n₂ = some l) : n₁ = n₂ := by
  have level : ∀ n, SecurityLevel.fromU8 n = some l → n = l.toU8 := by
    intro n h
    unfold SecurityLevel.fromU8 at h
    split at h <;> cases h <;> rfl
  exact (level n₁ h₁).trans (level n₂ h₂).symm

theorem getPlugin_update_inj {s t : State} {c : PluginId} {q : PluginState}
    {f g : PluginState → PluginState} (hs : s.getPlugin c = some q) (ht : t.getPlugin c = some q)
    (h : s.updatePlugin c f = t.updatePlugin c g) : f q = g q := by
  have hf : (s.updatePlugin c f).getPlugin c = some (f q) := by
    rw [State.getPlugin_updatePlugin, if_pos rfl, hs, Option.map_some]
  have hg : (t.updatePlugin c g).getPlugin c = some (g q) := by
    rw [State.getPlugin_updatePlugin, if_pos rfl, ht, Option.map_some]
  rw [h] at hf
  exact Option.some.inj (hf.symm.trans hg)

/-! ## the main result -/

theorem Bound.argumentsAgree {s : State} {auth : Authorized} {res : HostResult}
    {hc₁ hc₂ : HostCall} (h : Bound s auth res hc₁ hc₂) : ArgumentsAgree s auth hc₁ hc₂ := by
  intro hadm₁ hadm₂ hboth
  have hcaller := (sameOperation hadm₁ hadm₂).caller
  rcases hboth with ⟨⟨hf₁, q, hq, hq₁⟩, hf₂, q', hq', hq₂⟩ |
    ⟨⟨hf₁, q, l₁, hq, hl₁, hle₁⟩, hf₂, q', l₂, hq', hl₂, hle₂⟩
  · obtain rfl : q' = q := Option.some.inj (hq'.symm.trans (hcaller ▸ hq))
    have e := h .cloning _ _
      (Effect.alloc hadm₁ hf₁ ((checkAlloc_ok_iff s hc₁).mpr ⟨q', hq, hq₁⟩)).exec
      (Effect.alloc hadm₂ hf₂ ((checkAlloc_ok_iff s hc₂).mpr ⟨q', hq', hq₂⟩)).exec
    rw [← hcaller] at e hq'
    exact charge_injective hq₁ hq₂ (getPlugin_update_inj
      (s := s.applyAlloc hc₁.caller hc₁.firstOrZero) (t := s.applyAlloc hc₁.caller hc₂.firstOrZero)
      hq hq' e)
  · obtain rfl : q' = q := Option.some.inj (hq'.symm.trans (hcaller ▸ hq))
    have e := h .cloning _ _
      (Effect.declassify hadm₁ hf₁ ((checkDeclassify_ok_iff s hc₁ l₁).mpr ⟨hl₁, q', hq, hle₁⟩)).exec
      (Effect.declassify hadm₂ hf₂
        ((checkDeclassify_ok_iff s hc₂ l₂).mpr ⟨hl₂, q', hq', hle₂⟩)).exec
    rw [← hcaller] at e hq'
    have hl : l₁ = l₂ := congrArg PluginState.level (getPlugin_update_inj hq hq' e)
    exact fromU8_injective hl₁ (hl ▸ hl₂)

/-- a function whose action leaves the argument out, or that does not use it -/
theorem HostEffect.asked {p : Path} {s s' : State} {hc : HostCall} {res : HostResult}
    (h : HostEffect p s hc res hc.function s') :
    hc.function.Named ∨ hc.function = .capSend ∨ hc.Allocates s ∨ hc.SetsLevel s := by
  generalize hf : hc.function = f at h
  cases h with
  | capCall => exact Or.inl (Or.inl rfl)
  | capSend => exact Or.inr (Or.inl rfl)
  | kernelAlloc hck => exact Or.inr (Or.inr (Or.inl ⟨hf, (checkAlloc_ok_iff s hc).mp hck⟩))
  | memFree => exact Or.inl (Or.inr (Or.inl rfl))
  | capRevoke => exact Or.inl (Or.inr (Or.inr rfl))
  | @declassify l hck =>
    obtain ⟨hl, q, hq, hle⟩ := (checkDeclassify_ok_iff s hc l).mp hck
    exact Or.inr (Or.inr (Or.inr ⟨hf, q, l, hq, hl, hle⟩))

theorem ArgumentsAgree.bound {s : State} {auth : Authorized} {hc₁ hc₂ : HostCall}
    (h : ArgumentsAgree s auth hc₁ hc₂) (res : HostResult) : Bound s auth res hc₁ hc₂ := by
  intro p s₁ s₂ hx₁ hx₂
  obtain ⟨hadm₁, e₁⟩ := hx₁.effect.hostCall
  obtain ⟨hadm₂, e₂⟩ := hx₂.effect.hostCall
  obtain ⟨hcaller, hfun, harg⟩ := sameOperation hadm₁ hadm₂
  have hask₁ := e₁.asked
  have hask₂ := e₂.asked
  rw [← hfun] at e₂ hask₂
  refine e₁.unique hcaller (fun hsend => ?_) e₂
  by_cases hnamed : hc₁.function.Named
  · exact harg hnamed
  · -- what is left are allocations and declassifications
    have h₁ := (hask₁.resolve_left hnamed).resolve_left hsend
    have h₂ := (hask₂.resolve_left hnamed).resolve_left hsend
    refine h hadm₁ hadm₂ ?_
    rcases h₁ with h₁ | h₁ <;> rcases h₂ with h₂ | h₂
    · exact Or.inl ⟨h₁, h₂⟩
    · exact absurd (h₁.1.symm.trans (hfun.trans h₂.1)) nofun
    · exact absurd (h₁.1.symm.trans (hfun.trans h₂.1)) nofun
    · exact Or.inr ⟨h₁, h₂⟩

/-- **Main result**: two host calls that are carried out with the same token lead to the same
state exactly if they are not two allocations or two declassifications with different arguments. -/
theorem token_bound_iff (s : State) (auth : Authorized) (res : HostResult) (hc₁ hc₂ : HostCall) :
    Bound s auth res hc₁ hc₂ ↔ ArgumentsAgree s auth hc₁ hc₂ :=
  ⟨Bound.argumentsAgree, fun h => h.bound res⟩

/-- a root for allocations, held by plugin 1, which owns the live address 0 -/
def sampleCreator : Capability := ⟨100, 1, 0, .singleton .create, none, 0, true, .empty⟩

def sampleCreating : State :=
  runCalls sampleMac (.initial .empty .permitAll)
    [.alloc 1 8, .registerPlugin 1 .Public 0, .insertCapRaw sampleCreator 1]

/-- a call for `n` bytes -/
def sampleCreate (n : UInt64) : HostCall := ⟨1, .kernelAlloc, [n], [], []⟩

/-- the token that is issued for it, whatever `n` is -/
def sampleToken : Authorized :=
  ⟨sampleCreator, ⟨1, 0, .singleton .create, "kernel_alloc"⟩, ⟨0, none⟩⟩

/-- the token is issued for 0 bytes, and it also allocates 8 -/
theorem token_spent_twice :
    Step.hostCallAtomic sampleCreating (sampleCreate 0) 100 ⟨0, none⟩ .empty =
        .ok (.hostCall (sampleCreate 0) sampleToken .empty) ∧
      ¬ Bound sampleCreating sampleToken .empty (sampleCreate 0) (sampleCreate 8) := by
  refine ⟨by decide, fun h => ?_⟩
  have he := h .inPlace _ _
    (show Exec .inPlace (.hostCall (sampleCreate 0) sampleToken .empty) sampleCreating
      (Step.executeMut (.hostCall (sampleCreate 0) sampleToken .empty) sampleCreating).2 by decide)
    (show Exec .inPlace (.hostCall (sampleCreate 8) sampleToken .empty) sampleCreating
      (Step.executeMut (.hostCall (sampleCreate 8) sampleToken .empty) sampleCreating).2 by decide)
  revert he
  decide

end LionCore
