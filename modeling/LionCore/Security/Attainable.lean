import LionCore.Security.Delegation
import LionCore.Security.Validity

/-!
# What a plugin can ever attain

The question that a table of capabilities has to answer: given a state, can a plugin ever come to
command a target with some rights, if nothing new comes in from outside?

* `Commands`            the plugin holds a valid capability of its own that has the rights;
* `Offered`             some valid entry has the rights, and there is room for a child of it;
* `TableMove`           what an operation can do to the table if no capability comes in;
* `Descends`            so every valid entry is an old one, or its rights were on offer;
* `attainable_iff`      **main result**: a plugin can attain what it commands or what is on offer,
                        and nothing else.
-/

namespace LionCore
open Base RevocationState

/-- the plugin holds a valid capability of its own, for the target and with the rights -/
def Commands (s : State) (p : PluginId) (target : ResourceId) (rights : Rights) : Prop :=
  ∃ k cap, s.getCap k = some cap ∧ cap.valid = true ∧ cap.holder = p ∧ cap.target = target ∧
    rights.isSubsetOf cap.rights = true ∧ s.pluginHolds p k = true

/-- some valid entry has the rights on the target and can have a child, and an id is left for it -/
structure Offered (s : State) (target : ResourceId) (rights : Rights) : Prop where
  entry : ∃ k cap, s.getCap k = some cap ∧ cap.valid = true ∧ k + 1 < u128Size ∧
    cap.target = target ∧ rights.isSubsetOf cap.rights = true
  room : ∃ n, s.kernel.nextCapId ≤ n ∧ n + 1 < u128Size ∧ s.getCap n = none

/-- no capability and no handle comes in from outside -/
def StateOp.Internal : StateOp → Prop
  | .call (.insertCapRaw _ _) | .applyCapDelegate _ _ => False
  | .call (.insertPlugin _ ps) => ps.heldCaps = []
  | _ => True

theorem StateOp.Internal.insertsEmpty {op : StateOp} (h : op.Internal) : op.InsertsEmpty := by
  cases op with
  | call cl =>
    cases cl with
    | insertPlugin id ps => exact h
    | _ => exact trivial
  | _ => exact trivial

/-! ## the table, from inside -/

/-- what an internal operation can do to the table and to the counter of ids -/
inductive TableMove (s s' : State) : Prop
  | cut {S : CapId → Prop} (h : s.kernel.revocation.CutBy S s'.kernel.revocation)
      (hn : s.kernel.nextCapId ≤ s'.kernel.nextCapId)
  | minted {p : CapId} {target : PluginId} {requested : Rights} {parent : Capability}
      {tag : SealedTag} (hm : Mintable s p target requested)
      (hu : UsableParent s p requested parent)
      (h : s.kernel.revocation.Inserted (s.childCap p target requested parent tag)
        s'.kernel.revocation)
      (hn : s.kernel.nextCapId ≤ s'.kernel.nextCapId)

theorem delegateCap_move (hmac : Hmac) (s : State) (p : CapId) (target : PluginId)
    (requested : Rights) : TableMove s (Kernel.delegateCap hmac s p target requested).2 := by
  have hd := Kernel.delegation_end hmac s p target requested
  generalize Kernel.delegateCap hmac s p target requested = d at hd
  cases hd with
  | notFound | revoked | emptyRights | exhausted => exact .cut (.refl _) le_rfl
  | unsealable | invalidHolder | collision => exact .cut (.refl _) (Nat.le_succ _)
  | minted hu hid hp ht _ hi =>
    have hins := inserted_of_insertMut hi
    exact .minted ⟨⟨_, hu⟩, hid, hp, ht, hins.fresh⟩ hu hins (Nat.le_succ _)

theorem Effect.move {p : Path} {s s' : State} {t : Step} (hs : s.kernel.revocation.caps.Sorted)
    (h : Effect p s t s') : TableMove s s' := by
  obtain ⟨S, hcut⟩ := (h.frame hs).entries
  exact .cut hcut (h.frame hs).nextCapId.ge

theorem Leaves.move {hmac : Hmac} {s s' : State} {cl : Call}
    (hs : s.kernel.revocation.caps.Sorted) (hn : ¬ (StateOp.call cl).Delegating)
    (h : Leaves hmac s cl s') : TableMove s s' := by
  cases h with
  | same | plugin | actor | resource | workflow | alloc | free | tick =>
    exact .cut (.refl _) le_rfl
  | raw _ | delegation _ => exact absurd trivial hn
  | revoke _ h =>
    obtain ⟨S, hcut⟩ := Path.revokes_cutBy (p := .inPlace) hs h
    exact .cut hcut le_rfl
  | execute h | executeMut h => exact h.move hs

theorem StateOp.move (hmac : Hmac) {s : State} (hs : s.kernel.revocation.caps.Sorted)
    {op : StateOp} (hop : op.Internal) : TableMove s (op.exec hmac s) := by
  cases op with
  | call cl =>
    by_cases hn : (StateOp.call cl).Delegating
    · cases cl with
      | delegateCap p target requested => exact delegateCap_move hmac s p target requested
      | insertCapRaw _ _ => exact hop.elim
      | _ => exact hn.elim
    · exact (cl.leaves hmac s).move hs hn
  | applyCapDelegate _ _ => exact hop.elim
  | applyRevoke c => exact .cut (s.kernel.revocation.cutBy_revoke c) le_rfl
  | applyCapRevoke c => exact .cut (s.kernel.revocation.cutBy_revokeTransitive c) le_rfl
  | applyAlloc _ _ => exact .cut (.refl _) le_rfl
  | applyFree addr =>
    show TableMove s ((s.applyFree addr).toOption.getD s)
    unfold State.applyFree
    cases s.kernel.revocation.anyValidTargeting addr <;> exact .cut (.refl _) le_rfl

/-! ## nothing beyond the offer -/

theorem Offered.weaken {s : State} {target : ResourceId} {rights rights' : Rights}
    (h : Offered s target rights) (hle : rights'.isSubsetOf rights = true) :
    Offered s target rights' := by
  obtain ⟨k, cap, hk, hv, hlt, ht, hr⟩ := h.entry
  exact ⟨⟨k, cap, hk, hv, hlt, ht, Rights.isSubsetOf_trans hle hr⟩, h.room⟩

/-- `u` has come from `s` without help from outside: its valid entries are old ones, or new ones
whose rights were on offer; the new ids were free, and old handles are for old entries -/
structure Descends (s u : State) : Prop where
  inv : HeldInv u
  counter : s.kernel.nextCapId ≤ u.kernel.nextCapId
  present : ∀ k, u.getCap k = none → s.getCap k = none
  entry : ∀ k cap, u.getCap k = some cap → cap.valid = true →
    s.getCap k = some cap ∨
      (s.getCap k = none ∧ cap.holder ≠ 0 ∧ Offered s cap.target cap.rights)
  handle : ∀ p k, u.pluginHolds p k = true → s.pluginHolds p k = true ∨ s.getCap k = none

theorem Descends.refl {s : State} (h : HeldInv s) : Descends s s where
  inv := h
  counter := le_rfl
  present _ := id
  entry _ _ hk _ := Or.inl hk
  handle _ _ := Or.inl

/-- a usable parent was on offer, and there was room for its child -/
theorem Descends.offered {s u : State} (h : Descends s u) {p : CapId} {target : PluginId}
    {requested : Rights} {parent : Capability} (hm : Mintable u p target requested)
    (hu : UsableParent u p requested parent) : Offered s parent.target parent.rights := by
  rcases h.entry p parent hu.entry hu.valid with hold | ⟨_, _, ho⟩
  · exact ⟨⟨p, parent, hold, hu.valid, hm.successor, rfl, parent.rights.isSubsetOf_refl⟩,
      u.kernel.nextCapId, h.counter, hm.counter, h.present _ hm.fresh⟩
  · exact ho

theorem Descends.exec {hmac : Hmac} {s u : State} (h : Descends s u) {op : StateOp}
    (hop : op.Internal) : Descends s (op.exec hmac u) := by
  have hmove := op.move hmac h.inv.caps hop
  have hheld : ∀ p k, (op.exec hmac u).pluginHolds p k = true →
      s.pluginHolds p k = true ∨ s.getCap k = none := by
    intro p k hk
    rcases (held_step (op.registryStep hmac h.inv.caps hop.insertsEmpty) h.inv.registries p k).mp
      hk with hold | ⟨hd, _⟩
    · exact h.handle p k hold
    · -- the id that is granted is new in the table
      have hdel : op.Delegating := by
        cases op with
        | call cl => cases cl <;> first | exact trivial | cases hd
        | _ => first | exact trivial | cases hd
      rcases op.delegating_cases hmac u hdel with ⟨hd', _⟩ | ⟨target, cap, k', hd', hins, _⟩
      · cases hd.symm.trans hd'
      · obtain ⟨rfl, rfl⟩ := Prod.mk.inj (Option.some.inj (hd.symm.trans hd'))
        exact Or.inr (h.present _ hins.fresh)
  have hinv : HeldInv (op.exec hmac u) := h.inv.exec op hop.insertsEmpty
  generalize op.exec hmac u = u' at hmove hheld hinv
  cases hmove with
  | @cut S hcut hn =>
    refine ⟨hinv, h.counter.trans hn, fun k hk => h.present k (hcut.get_none.mp hk), ?_, hheld⟩
    intro k cap hk hv
    -- what is still valid has not been touched
    obtain ⟨cap₀, hk₀, rfl | rfl⟩ := hcut.of_get hk
    · exact h.entry k cap hk₀ hv
    · cases hv
  | @minted p target requested parent tag hm hu hins hn =>
    have hget := hins.get h.inv.caps
    refine ⟨hinv, h.counter.trans hn, ?_, ?_, hheld⟩
    · intro k hk
      have e := (hget k).symm.trans hk
      split at e
      · cases e
      · exact h.present k e
    · intro k cap hk hv
      have e := (hget k).symm.trans hk
      split at e
      · rename_i hid
        cases e
        subst hid
        have ho := h.offered hm hu
        exact Or.inr ⟨h.present _ hm.fresh, hm.holder,
          ho.weaken (Rights.intersection_le requested parent.rights)⟩
      · exact h.entry k cap e hv

theorem Descends.run {hmac : Hmac} {s : State} (h : HeldInv s) (ops : List StateOp)
    (hops : ∀ op ∈ ops, op.Internal) : Descends s (run (StateOp.exec hmac) s ops) := by
  have step : ∀ u op, Descends s u → StateOp.Internal op → Descends s (op.exec hmac u) :=
    fun _ _ h hop => h.exec hop
  exact run_invariant_of step ops (.refl h) (along_of_forall ops hops s)

theorem Descends.commands {s u : State} (h : Descends s u) {p : PluginId} {target : ResourceId}
    {rights : Rights} (hc : Commands u p target rights) :
    Commands s p target rights ∨ (p ≠ 0 ∧ Offered s target rights) := by
  obtain ⟨k, cap, hk, hv, rfl, rfl, hr, hheld⟩ := hc
  rcases h.entry k cap hk hv with hold | ⟨_, hp, ho⟩
  · rcases h.handle cap.holder k hheld with hs | hnone
    · exact Or.inl ⟨k, cap, hold, hv, rfl, rfl, hr, hs⟩
    · cases hnone.symm.trans hold
  · exact Or.inr ⟨hp, ho.weaken hr⟩

/-! ## everything on offer -/

theorem Rights.intersection_self (r : Rights) : r.intersection r = r :=
  Rights.ext (BitVec.and_self)

theorem Rights.nonempty_of_isSubsetOf {r r' : Rights} (hr : r.isEmpty = false)
    (hle : r.isSubsetOf r' = true) : r'.isEmpty = false := by
  apply eq_false_of_ne_true
  intro h
  have he : r'.bits = 0#16 := beq_iff_eq.mp h
  have hsub : r.bits &&& ~~~r'.bits = 0#16 := beq_iff_eq.mp hle
  have hzero : r.bits = 0#16 := calc
    r.bits = r.bits &&& BitVec.allOnes 16 := BitVec.and_allOnes.symm
    _ = r.bits &&& ~~~r'.bits := by
      rw [he]
      rfl
    _ = 0#16 := beq_iff_eq.mp hle
  rw [show r.isEmpty = true from beq_iff_eq.mpr hzero] at hr
  cases hr

theorem HeldInv.ordered {s : State} (h : HeldInv s) : s.Ordered where
  caps := h.caps
  plugins := h.registries.plugins
  held p _ hq := h.registries.held p _ (congrArg (Option.map _) hq)

/-- a delegation that fails because its id is taken has moved the counter on -/
theorem delegateCap_taken (hmac : Hmac) {s : State} {p : CapId} {target : PluginId}
    {requested : Rights} {parent : Capability} (hu : UsableParent s p requested parent)
    (hid : s.kernel.nextCapId + 1 < u128Size) (hp : p + 1 < u128Size) (ht : target ≠ 0)
    (h : s.getCap s.kernel.nextCapId ≠ none) :
    (Kernel.delegateCap hmac s p target requested).2 = s.nextId := by
  have hd := Kernel.delegation_end hmac s p target requested
  generalize Kernel.delegateCap hmac s p target requested = d at hd
  cases hd with
  | collision => rfl
  | notFound h => exact absurd h hu.present
  | revoked h hv => cases hv.symm.trans (hu.of_entry h).valid
  | emptyRights h hr => cases hr.symm.trans (hu.of_entry h).rights
  | exhausted _ h => exact absurd h (not_le.mpr hid)
  | unsealable _ _ h => exact absurd h (not_le.mpr hp)
  | invalidHolder _ _ _ h => exact absurd h ht
  | minted _ _ _ _ _ hi => exact absurd (inserted_of_insertMut hi).fresh h

/-- delegating all rights of `k` to `p` again and again, until an id is free -/
theorem commands_of_delegations (hmac : Hmac) {k : CapId} {cap : Capability} {p : PluginId}
    (hk : k + 1 < u128Size) (hv : cap.valid = true) (hr : cap.rights.isEmpty = false)
    (hp : p ≠ 0) (d : Nat) {u : State} (hu : HeldInv u) (hreg : u.getPlugin p ≠ none)
    (hcap : u.getCap k = some cap) (hroom : u.kernel.nextCapId + d + 1 < u128Size)
    (hfree : u.getCap (u.kernel.nextCapId + d) = none) :
    ∃ m, Commands (run (StateOp.exec hmac) u
      (List.replicate m (.call (.delegateCap k p cap.rights)))) p cap.target cap.rights := by
  have hparent : UsableParent u k cap.rights cap :=
    ⟨hcap, hv, (congrArg Rights.isEmpty cap.rights.intersection_self).trans hr⟩
  have hid : u.kernel.nextCapId + 1 < u128Size :=
    lt_of_le_of_lt (Nat.succ_le_succ (Nat.le_add_right _ d)) hroom
  by_cases hfresh : u.getCap u.kernel.nextCapId = none
  · refine ⟨1, ?_⟩
    have hm : Mintable u k p cap.rights := ⟨⟨cap, hparent⟩, hid, hk, hp, hfresh⟩
    have hok := (delegateCap_ok_iff hmac u k p cap.rights _).mpr ⟨hm, rfl⟩
    rcases hd : Kernel.delegateCap hmac u k p cap.rights with ⟨o, u'⟩
    rw [hd] at hok
    cases hok
    have hprom := (delegated_iff hu.ordered hd).mpr hreg
    obtain ⟨parent, child, hpar, hchild, _, hvalid, hholder, htarget, _, hrights, _⟩ := hprom.entry
    obtain rfl := Option.some.inj (hcap.symm.trans hpar)
    have e : run (StateOp.exec hmac) u
        (List.replicate 1 (.call (.delegateCap k p cap.rights))) = u' := congrArg Prod.snd hd
    rw [e]
    refine ⟨_, child, hchild, hvalid, hholder, htarget, ?_, hprom.holds⟩
    rw [hrights, cap.rights.intersection_self]
    exact cap.rights.isSubsetOf_refl
  · -- the id is taken: the delegation fails and moves the counter on
    cases d with
    | zero => exact absurd hfree hfresh
    | succ d =>
      have e : StateOp.exec hmac u (.call (.delegateCap k p cap.rights)) = u.nextId :=
        delegateCap_taken hmac hparent hid hk hp hfresh
      have hnext : HeldInv u.nextId := e ▸ hu.exec _ trivial
      have hsum : u.nextId.kernel.nextCapId + d = u.kernel.nextCapId + (d + 1) :=
        Nat.succ_add_eq_add_succ u.kernel.nextCapId d
      obtain ⟨m, hm⟩ := commands_of_delegations hmac hk hv hr hp d hnext hreg hcap
        (hsum ▸ hroom) (hsum ▸ hfree)
      refine ⟨m + 1, ?_⟩
      rw [List.replicate_succ, run_cons, e]
      exact hm

theorem Commands.weaken {s : State} {p : PluginId} {target : ResourceId}
    {rights rights' : Rights} (h : Commands s p target rights)
    (hle : rights'.isSubsetOf rights = true) : Commands s p target rights' := by
  obtain ⟨k, cap, hk, hv, hp, ht, hr, hheld⟩ := h
  exact ⟨k, cap, hk, hv, hp, ht, Rights.isSubsetOf_trans hle hr, hheld⟩

/-- what is on offer can be attained: the plugin is registered, if need be, and delegated to -/
theorem attain_offered (hmac : Hmac) {s : State} (hs : HeldInv s) {p : PluginId}
    {target : ResourceId} {rights : Rights} (hr : rights.isEmpty = false) (hp : p ≠ 0)
    (ho : Offered s target rights) : ∃ more, (∀ op ∈ more, StateOp.Internal op) ∧
      Commands (run (StateOp.exec hmac) s more) p target rights := by
  obtain ⟨k, cap, hk, hv, hlt, rfl, hle⟩ := ho.entry
  obtain ⟨n, hn, hroom, hfree⟩ := ho.room
  let register : StateOp := .call (.registerPlugin p .Public 0)
  let u := register.exec hmac s
  have hu : HeldInv u := hs.exec register trivial
  obtain ⟨hreg, hkernel⟩ : u.getPlugin p ≠ none ∧ u.kernel = s.kernel := by
    show (s.insertPlugin p (.empty .Public 0)).2.getPlugin p ≠ none ∧
      (s.insertPlugin p (.empty .Public 0)).2.kernel = s.kernel
    unfold State.insertPlugin
    cases hadd : s.plugins.add p (.empty .Public 0) with
    | none => exact ⟨Table.add_eq_none_iff.mp hadd, rfl⟩
    | some plugins =>
      have hfind := Table.find_add hs.registries.plugins hadd p
      rw [if_pos rfl] at hfind
      exact ⟨fun h => (nomatch hfind.symm.trans h), rfl⟩
  have hd : u.kernel.nextCapId + (n - s.kernel.nextCapId) = n := by
    rw [hkernel]
    exact Nat.add_sub_of_le hn
  have hsame : ∀ c, u.getCap c = s.getCap c := by
    intro c
    show u.kernel.revocation.get c = _
    rw [hkernel]
    rfl
  obtain ⟨m, hm⟩ := commands_of_delegations hmac hlt hv (Rights.nonempty_of_isSubsetOf hr hle) hp
    (n - s.kernel.nextCapId) hu hreg ((hsame k).trans hk) (hd.symm ▸ hroom)
    (hd.symm ▸ (hsame n).trans hfree)
  refine ⟨register :: List.replicate m (.call (.delegateCap k p cap.rights)), ?_, hm.weaken hle⟩
  intro op hop
  rcases List.mem_cons.mp hop with rfl | hop
  · exact trivial
  · rw [List.eq_of_mem_replicate hop]
    exact trivial

/-- **Main result**: in every state that a run reaches in which plugins come in without handles, a
plugin can come to command a target with rights that are not empty, by whatever internal operations,
exactly if it commands it with these rights already, or if it is not the plugin 0 and the rights are
on offer. -/
theorem attainable_iff (hmac : Hmac) (key : Key) (policy : PolicyState) (ops : List StateOp)
    (hops : ∀ op ∈ ops, op.InsertsEmpty) (p : PluginId) (target : ResourceId) (rights : Rights)
    (hr : rights.isEmpty = false) :
    let s := run (StateOp.exec hmac) (.initial key policy) ops
    (∃ more : List StateOp, (∀ op ∈ more, op.Internal) ∧
        Commands (run (StateOp.exec hmac) s more) p target rights) ↔
      Commands s p target rights ∨ (p ≠ 0 ∧ Offered s target rights) := by
  intro s
  have hinv : HeldInv s := by
    have step : ∀ s op, HeldInv s → StateOp.InsertsEmpty op → HeldInv (op.exec hmac s) :=
      fun _ op h hop => h.exec op hop
    exact run_invariant_of step ops (.initial key policy) (along_of_forall ops hops _)
  constructor
  · rintro ⟨more, hmore, hc⟩
    exact (Descends.run hinv more hmore).commands hc
  · rintro (hc | ⟨hp, ho⟩)
    · exact ⟨[], fun _ h => absurd h List.not_mem_nil, hc⟩
    · exact attain_offered hmac hinv hr hp ho

/-- can plugin 2 ever come to read address 0, when plugin 1 holds the root? -/
theorem attainable_iff_sample :
    let s := run (StateOp.exec sampleMac) (.initial .empty .permitAll) sampleGrant
    (∃ more : List StateOp, (∀ op ∈ more, op.Internal) ∧
        Commands (run (StateOp.exec sampleMac) s more) 2 0 (.singleton .read)) ↔
      Commands s 2 0 (.singleton .read) ∨
        ((2 : PluginId) ≠ 0 ∧ Offered s 0 (.singleton .read)) := by
  apply attainable_iff sampleMac .empty .permitAll sampleGrant
  · intro op hop
    simp only [sampleGrant, List.mem_cons, List.not_mem_nil, or_false] at hop
    rcases hop with rfl | rfl
    · exact rfl
    · exact trivial
  · decide

end LionCore
