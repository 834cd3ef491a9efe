import LionCore.Calls
import LionCore.Security.SlowRevocation

/-!
# Fresh ids

Every id of the table should be below the counter, and every parent below its child.  Delegations
keep that, but a raw insertion may bring any id and any parent.

* `FreshIds.discipline`   the two bounds give the rest: no cycle, no collision, no id in use;
* `Call.freshIds_iff`     a call keeps them exactly if it is no raw insertion beyond the bounds;
* `id_discipline_iff`     **main result**: from an empty state they hold along a run exactly if the
                          run makes no raw insertion at all;
* `id_collision`          a root at 0 makes the next delegation collide.
-/

namespace LionCore
open Base RevocationState

/-! ## the discipline -/

/-- ids are below the counter, and parents below their children -/
structure FreshIds (s : State) : Prop where
  below : ∀ k, s.getCap k ≠ none → k < s.kernel.nextCapId
  parent : ∀ k p, s.kernel.revocation.parentOf k = some p → p < k

/-- what the counter is for -/
structure IdDiscipline (hmac : Hmac) (s : State) : Prop extends FreshIds s where
  acyclic : ∀ k, ¬ Above s.kernel.revocation.parentOf k k
  delegate : ∀ p target requested id,
    (Kernel.delegateCap hmac s p target requested).1 ≠ .err (.kernel (.capIdCollision id))
  fresh : ∀ id k, s.kernel.allocCapId = (.ok id, k) → s.getCap id = none

theorem above_lt {par : CapId → Option CapId} (h : ∀ k p, par k = some p → p < k) {a k : CapId}
    (ha : Above par a k) : a < k := by
  induction ha using Relation.TransGen.head_induction_on with
  | single hp => exact h _ _ hp
  | head hp _ ih => exact lt_trans ih (h _ _ hp)

theorem FreshIds.discipline {s : State} (h : FreshIds s) (hmac : Hmac) : IdDiscipline hmac s := by
  have unused : s.getCap s.kernel.nextCapId = none :=
    not_not.mp fun hne => absurd (h.below _ hne) (lt_irrefl _)
  refine ⟨h, fun k ha => lt_irrefl k (above_lt h.parent ha), ?_, ?_⟩
  · intro p target requested id
    have hd := Kernel.delegation hmac s p target requested
    generalize Kernel.delegateCap hmac s p target requested = d at hd ⊢
    cases hd with
    | refused he => exact fun e => he id (Outcome.err.inj e)
    | unminted _ ho =>
      rintro rfl
      rcases ho with e | ⟨_, e⟩ <;> cases e
    | collision _ hc => exact absurd unused hc
    | minted _ _ _ => nofun
  · intro id k hid
    rcases allocCapId_cases s.kernel with e | e
    · rw [e] at hid
      cases hid
    · rw [e] at hid
      cases hid
      exact unused

/-! ## what calls do to ids -/

/-- a raw insertion that is accepted has an id below the counter and a parent below its id -/
def Call.RawBelow (s : State) : Call → Prop
  | .insertCapRaw cap _ => s.getCap cap.id = none →
      cap.id < s.kernel.nextCapId ∧ ∀ p, cap.parent = some p → p < cap.id
  | _ => True

theorem FreshIds.of_cut {s s' : State} (h : FreshIds s) {S : CapId → Prop}
    (hcut : s.kernel.revocation.CutBy S s'.kernel.revocation)
    (hn : s'.kernel.nextCapId = s.kernel.nextCapId) : FreshIds s' where
  below k hk := hn ▸ h.below k (mt hcut.get_none.mpr hk)
  parent k p hp := h.parent k p (hcut.parentOf ▸ hp)

theorem FreshIds.inserted {s s' : State} (h : FreshIds s) (hs : s.kernel.revocation.caps.Sorted)
    {cap : Capability} (hi : s.kernel.revocation.Inserted cap s'.kernel.revocation)
    (hle : s.kernel.nextCapId ≤ s'.kernel.nextCapId) (hid : cap.id < s'.kernel.nextCapId)
    (hp : ∀ p, cap.parent = some p → p < cap.id) : FreshIds s' where
  below k hk := by
    by_cases e : k = cap.id
    · exact e ▸ hid
    · refine lt_of_lt_of_le (h.below k fun hn => hk ?_) hle
      exact (hi.get hs k).trans ((if_neg e).trans hn)
  parent k p hk := by
    rw [hi.parentOf hs] at hk
    split at hk
    · rename_i e
      exact e ▸ hp p hk
    · exact h.parent k p hk

theorem Call.freshIds (hmac : Hmac) {s : State} (cl : Call)
    (hs : s.kernel.revocation.caps.Sorted) (h : FreshIds s) (hok : cl.RawBelow s) :
    FreshIds (cl.exec hmac s) := by
  have hl := cl.leaves hmac s
  generalize cl.exec hmac s = s' at hl ⊢
  cases hl with
  | same | plugin | actor | resource | workflow | alloc | free | tick => exact ⟨h.below, h.parent⟩
  | raw hi =>
    have hins := inserted_of_insertMut hi
    obtain ⟨hid, hp⟩ := hok hins.fresh
    exact h.inserted hs hins le_rfl hid hp
  | delegation hd =>
    cases hd with
    | refused => exact h
    | unminted | collision => exact ⟨fun k hk => Nat.lt_succ_of_lt (h.below k hk), h.parent⟩
    | @minted cap r hc _ hi =>
      have hid : cap.id < s.nextId.kernel.nextCapId := hc.id ▸ Nat.lt_succ_self _
      refine h.inserted hs (inserted_of_insertMut hi) (Nat.le_succ _) hid fun p hp => ?_
      -- the parent is an entry of the table, and the child takes the counter as its id
      obtain ⟨pc, hpc, _⟩ := hc.entry
      obtain rfl := Option.some.inj (hc.parent.symm.trans hp)
      rw [hc.id]
      exact h.below _ (by rw [hpc]; nofun)
  | revoke _ hr =>
    obtain ⟨S, hcut⟩ := Path.revokes_cutBy (p := .inPlace) hs hr
    exact h.of_cut hcut rfl
  | execute he | executeMut he =>
    obtain ⟨S, hcut⟩ := (he.frame hs).entries
    exact h.of_cut hcut (he.frame hs).nextCapId

/-- **A call keeps the bounds exactly if it is no raw insertion outside of them.** -/
theorem Call.freshIds_iff (hmac : Hmac) {s : State} (cl : Call)
    (hs : s.kernel.revocation.caps.Sorted) (h : FreshIds s) :
    FreshIds (cl.exec hmac s) ↔ cl.RawBelow s := by
  refine ⟨fun h' => ?_, cl.freshIds hmac hs h⟩
  cases cl with
  | insertCapRaw cap target =>
    intro hnew
    obtain ⟨r, hins, hx⟩ := Call.exec_insertCapRaw hmac target hnew
    rw [hx] at h'
    constructor
    · refine h'.below cap.id fun hnone => ?_
      have hget : r.get cap.id = some cap := (hins.get hs cap.id).trans (if_pos rfl)
      exact Option.some_ne_none cap (hget.symm.trans hnone)
    · intro p hp
      exact h'.parent cap.id p ((hins.parentOf hs cap.id).trans ((if_pos rfl).trans hp))
  | registerPlugin _ _ _ | insertPlugin _ _ | insertActor _ _ | insertResource _ _
  | insertWorkflow _ _ | delegateCap _ _ _ | revokeCap _ | alloc _ _ | free _ | tick
  | execute _ | executeMut _ => trivial

/-! ## an empty table -/

def Call.isRaw : Call → Bool
  | .insertCapRaw _ _ => true
  | _ => false

/-- no capability, and no id handed out -/
def Untouched (s : State) : Prop :=
  s.kernel.revocation.caps = [] ∧ s.kernel.nextCapId = 0

theorem Untouched.getCap {s : State} (h : Untouched s) (k : CapId) : s.getCap k = none := by
  show s.kernel.revocation.caps.find k = none
  rw [h.1]
  rfl

theorem Call.untouched (hmac : Hmac) {s : State} (cl : Call) (hraw : cl.isRaw = false)
    (h : Untouched s) : Untouched (cl.exec hmac s) := by
  have hl := cl.leaves hmac s
  generalize cl.exec hmac s = s' at hl ⊢
  cases hl with
  | same | plugin | actor | resource | workflow | alloc | free | tick => exact h
  | raw _ => cases hraw
  | delegation hd =>
    cases hd with
    | refused => exact h
    | unminted hp _ | collision hp _ => exact absurd (h.getCap _) hp
    | minted hc _ _ =>
      obtain ⟨pc, hpc, _⟩ := hc.entry
      rw [h.getCap] at hpc
      cases hpc
  | revoke hpres _ => exact absurd (h.getCap _) hpres
  | execute he | executeMut he =>
    have hs : s.kernel.revocation.caps.Sorted := h.1 ▸ .nil
    obtain ⟨S, hcut⟩ := (he.frame hs).entries
    have hkeys := hcut.keys
    rw [h.1] at hkeys
    exact ⟨List.map_eq_nil_iff.mp hkeys, (he.frame hs).nextCapId.trans h.2⟩

/-- from an empty table, the first raw insertion is outside of the bounds -/
theorem along_rawBelow_iff (hmac : Hmac) {s : State} (cs : List Call) (h : Untouched s) :
    Along (Call.exec hmac) Call.RawBelow s cs ↔ ∀ cl ∈ cs, cl.isRaw = false := by
  induction cs generalizing s with
  | nil => exact ⟨fun _ _ hm => absurd hm List.not_mem_nil, fun _ => trivial⟩
  | cons cl cs ih =>
    rw [List.forall_mem_cons]
    constructor
    · rintro ⟨hok, hrest⟩
      have hraw : cl.isRaw = false := by
        cases cl with
        | insertCapRaw cap target =>
          have hlt := (hok (h.getCap cap.id)).1
          rw [h.2] at hlt
          exact absurd hlt (Nat.not_lt_zero _)
        | _ => rfl
      exact ⟨hraw, (ih (cl.untouched hmac hraw h)).mp hrest⟩
    · rintro ⟨hraw, hrest⟩
      refine ⟨?_, (ih (cl.untouched hmac hraw h)).mpr hrest⟩
      cases cl with
      | insertCapRaw cap target => cases hraw
      | _ => trivial

/-! ## the main result -/

/-- **Main result**: the discipline holds in every state of a run exactly if every raw insertion
that is accepted stays within the bounds; from an empty state this means that there is none. -/
theorem id_discipline_iff (hmac : Hmac) :
    (∀ (key : Key) (policy : PolicyState) (cs : List Call),
      (∀ n, IdDiscipline hmac (runCalls hmac (.initial key policy) (cs.take n))) ↔
        ∀ cl ∈ cs, cl.isRaw = false) ∧
    ∀ (s : State) (cs : List Call), s.kernel.revocation.caps.Sorted → IdDiscipline hmac s →
      ((∀ n, IdDiscipline hmac (runCalls hmac s (cs.take n))) ↔
        Along (Call.exec hmac) Call.RawBelow s cs) := by
  have general : ∀ (s : State) (cs : List Call), s.kernel.revocation.caps.Sorted → FreshIds s →
      ((∀ n, IdDiscipline hmac (runCalls hmac s (cs.take n))) ↔
        Along (Call.exec hmac) Call.RawBelow s cs) := by
    intro s cs hs h
    have discipline : ∀ t, IdDiscipline hmac t ↔ FreshIds t :=
      fun t => ⟨fun hd => hd.toFreshIds, fun hf => hf.discipline hmac⟩
    have keep : ∀ (s : State) (cl : Call), s.kernel.revocation.caps.Sorted →
        (cl.exec hmac s).kernel.revocation.caps.Sorted := fun _ cl hs => cl.sorted hmac hs
    rw [← prefixes_iff_along keep (fun _ cl => cl.freshIds_iff hmac) cs hs h]
    exact forall_congr' fun n => discipline _
  refine ⟨fun key policy cs => ?_, fun s cs hs h => general s cs hs h.toFreshIds⟩
  have hempty : Untouched (.initial key policy) := ⟨rfl, rfl⟩
  have hfresh : FreshIds (.initial key policy) :=
    ⟨fun k hk => absurd (hempty.getCap k) hk, fun k p hp => nomatch hp⟩
  exact (general (.initial key policy) cs .nil hfresh).trans (along_rawBelow_iff hmac cs hempty)

/-- a root at 0: the next delegation takes 0 from the counter and collides with it -/
theorem id_collision :
    let s := runCalls sampleMac Kernel.new
      [.insertCapRaw ⟨0, 1, 0, .singleton .read, none, 0, true, .empty⟩ 1]
    ¬ IdDiscipline sampleMac s ∧ s.kernel.nextCapId = 0 ∧
      (Kernel.delegateCap sampleMac s 0 3 (.singleton .read)).1 =
        .err (.kernel (.capIdCollision 0)) := by
  have hd : (Kernel.delegateCap sampleMac (runCalls sampleMac Kernel.new
      [.insertCapRaw ⟨0, 1, 0, .singleton .read, none, 0, true, .empty⟩ 1]) 0 3
        (.singleton .read)).1 = .err (.kernel (.capIdCollision 0)) := by
    decide
  exact ⟨fun h => h.delegate 0 3 (.singleton .read) 0 hd, by decide, hd⟩

end LionCore
