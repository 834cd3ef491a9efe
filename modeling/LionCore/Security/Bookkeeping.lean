import LionCore.Base.Clamp
import LionCore.Security.Quotas

/-!
# What a plugin's record says of its past

Handles are granted and taken back, memory is charged and given back, on the record or on a clone.

* `PluginOp`, `PluginOp.exec`   the operations on a plugin's own record;
* `PluginOp.handle`             what an operation says about a handle;
* `PluginOp.amounts`            what it adds to the memory in use;
* `bookkeeping`                 **main result**: the handles are those granted last, and the memory
                                in use is the largest balance of a last part of the run.
-/

namespace LionCore
open Base

inductive PluginOp
  | grantCap (capId : CapId)
  | grantCapMut (capId : CapId)
  | revokeCap (capId : CapId)
  | revokeCapMut (capId : CapId)
  | allocMemory (size : Nat)
  | freeMemory (size : Nat)
  deriving DecidableEq, Repr

namespace PluginOp

def exec (p : PluginState) : PluginOp → PluginState
  | .grantCap capId => p.grantCap capId
  | .grantCapMut capId => p.grantCapMut capId
  | .revokeCap capId => p.revokeCap capId
  | .revokeCapMut capId => p.revokeCapMut capId
  | .allocMemory size => (p.allocMemory size).2
  | .freeMemory size => p.freeMemory size

/-- is the handle held from now on, or not, or does the operation leave it as it is? -/
def handle (c : CapId) : PluginOp → Option Bool
  | .grantCap capId | .grantCapMut capId => if c = capId then some true else none
  | .revokeCap capId | .revokeCapMut capId => if c = capId then some false else none
  | .allocMemory _ | .freeMemory _ => none

/-- only an allocation that is granted counts -/
def amounts (p : PluginState) : PluginOp → List ℤ
  | .allocMemory size => if (p.allocMemory size).1 = true then [(size : ℤ)] else []
  | .freeMemory size => [-(size : ℤ)]
  | _ => []

section
variable {p : PluginState}

/-- an allocation is granted, without overflow, or refused without effect -/
theorem allocMemory_cases (p : PluginState) (n : Nat) :
    (p.memoryUsed + n ≤ p.memoryQuota ∧
        p.allocMemory n = (true, { p with memoryUsed := p.memoryUsed + n })) ∨
      p.allocMemory n = (false, p) := by
  unfold PluginState.allocMemory
  cases h : p.canAllocMemory n with
  | true =>
    obtain ⟨hlt, hle⟩ := (p.canAllocMemory_iff n).mp h
    have hsum : saturatingAdd64 p.memoryUsed n = p.memoryUsed + n := by
      unfold saturatingAdd64
      omega
    rw [hsum]
    exact Or.inl ⟨hle, rfl⟩
  | false => exact Or.inr rfl

/-- an operation changes the handles or the memory in use -/
theorem exec_eq (p : PluginState) (op : PluginOp) :
    op.exec p = { p with
      heldCaps := (op.exec p).heldCaps
      memoryUsed := (op.exec p).memoryUsed } := by
  cases op with
  | allocMemory n =>
    show (p.allocMemory n).2 = _
    rw [exec]
    rcases allocMemory_cases p n with ⟨_, h⟩ | h
    · rw [h]
    · rw [h]
  | _ => rfl

/-- the clone gets the handles that the record would get -/
theorem exec_heldCaps (p : PluginState) (op : PluginOp) :
    (∃ c, (op.exec p).heldCaps = insertKey p.heldCaps c ∧
        ∀ c', op.handle c' = if c' = c then some true else none) ∨
      (∃ c, (op.exec p).heldCaps = removeKey p.heldCaps c ∧
        ∀ c', op.handle c' = if c' = c then some false else none) ∨
      (op.exec p).heldCaps = p.heldCaps ∧ ∀ c', op.handle c' = none := by
  cases op with
  | grantCap c | grantCapMut c => exact Or.inl ⟨c, rfl, fun _ => rfl⟩
  | revokeCap c | revokeCapMut c => exact Or.inr (Or.inl ⟨c, rfl, fun _ => rfl⟩)
  | allocMemory n =>
    refine Or.inr (Or.inr ⟨?_, fun _ => rfl⟩)
    show (p.allocMemory n).2.heldCaps = _
    rcases allocMemory_cases p n with ⟨_, h⟩ | h
    · rw [h]
    · rw [h]
  | freeMemory n => exact Or.inr (Or.inr ⟨rfl, fun _ => rfl⟩)

theorem exec_increasing (hp : Increasing p.heldCaps) (op : PluginOp) :
    Increasing (op.exec p).heldCaps := by
  rcases op.exec_heldCaps p with ⟨c, he, _⟩ | ⟨c, he, _⟩ | ⟨he, _⟩
  · rw [he]
    exact hp.insertKey c
  · rw [he]
    exact hp.removeKey c
  · rwa [he]

theorem exec_holdsCap (hp : Increasing p.heldCaps) (op : PluginOp) (c : CapId) :
    (op.exec p).holdsCap c = (op.handle c).getD (p.holdsCap c) := by
  have hp' := exec_increasing hp op
  unfold PluginState.holdsCap
  rcases op.exec_heldCaps p with ⟨c', he, hh⟩ | ⟨c', he, hh⟩ | ⟨he, hh⟩
  · rw [hh, he, has_insertKey hp]
    by_cases hc : c = c' <;> simp [hc]
  · rw [he] at hp' ⊢
    rw [hh, Bool.eq_iff_iff, has_iff hp', mem_removeKey hp]
    by_cases hc : c = c' <;> simp [hc, has_iff hp]
  · rw [hh, he]
    rfl

/-- the counter stops at zero, where a free asks for more than is in use -/
theorem exec_memoryUsed (p : PluginState) (op : PluginOp) :
    (op.exec p).memoryUsed = clamped p.memoryUsed (op.amounts p) := by
  cases op with
  | grantCap | grantCapMut | revokeCap | revokeCapMut => rfl
  | allocMemory n =>
    show (p.allocMemory n).2.memoryUsed =
      clamped p.memoryUsed (if (p.allocMemory n).1 = true then [(n : ℤ)] else [])
    rcases allocMemory_cases p n with ⟨_, h⟩ | h
    · rw [h, if_pos rfl]
      show p.memoryUsed + n = ((p.memoryUsed : ℤ) + n).toNat
      omega
    · rw [h, if_neg nofun]
      rfl
  | freeMemory n =>
    show p.memoryUsed - n = ((p.memoryUsed : ℤ) + -(n : ℤ)).toNat
    omega

theorem exec_memoryUsed_le (p : PluginState) (op : PluginOp) :
    (op.exec p).memoryUsed ≤ max p.memoryUsed p.memoryQuota := by
  cases op with
  | grantCap | grantCapMut | revokeCap | revokeCapMut => exact le_max_left _ _
  | allocMemory n =>
    show (p.allocMemory n).2.memoryUsed ≤ _
    rcases allocMemory_cases p n with ⟨hle, h⟩ | h
    · rw [h]
      exact le_max_of_le_right hle
    · rw [h]
      exact le_max_left _ _
  | freeMemory n => exact (Nat.sub_le _ _).trans (le_max_left _ _)

end

/-! ## runs -/

theorem run_eq (p : PluginState) (ops : List PluginOp) :
    run exec p ops = { p with
      heldCaps := (run exec p ops).heldCaps
      memoryUsed := (run exec p ops).memoryUsed } := by
  induction ops generalizing p with
  | nil => rfl
  | cons op ops ih =>
    rw [run_cons, ih, op.exec_eq p]

theorem run_memoryUsed (p : PluginState) (ops : List PluginOp) :
    (run exec p ops).memoryUsed =
      clamped p.memoryUsed (outputs exec (fun p op => op.amounts p) p ops) := by
  induction ops generalizing p with
  | nil => rfl
  | cons op ops ih =>
    rw [run_cons, ih, op.exec_memoryUsed p, ← clamped_append]
    rfl

theorem run_memoryUsed_le (p : PluginState) (ops : List PluginOp) :
    (run exec p ops).memoryUsed ≤ max p.memoryUsed p.memoryQuota := by
  induction ops generalizing p with
  | nil => exact le_max_left _ _
  | cons op ops ih =>
    have hquota : (op.exec p).memoryQuota = p.memoryQuota := by rw [op.exec_eq p]
    have hrest := ih (op.exec p)
    rw [hquota] at hrest
    exact hrest.trans (max_le (op.exec_memoryUsed_le p) (le_max_right _ _))

end PluginOp

/-- **Main result**: after any run of operations on a plugin's record, on the record itself or on a
clone, a handle is held exactly if the last operation that named it granted it (or none did, and it
was held before), and listed once, in order; the memory in use is the largest balance of granted
allocations and frees over a last part of the run, and the exact balance if and only if no first
part has freed more than there was; it never passes the larger of the quota and the memory in use at
the start; and nothing else has changed. -/
theorem bookkeeping {p : PluginState} (hp : Increasing p.heldCaps) (ops : List PluginOp) :
    let q := run PluginOp.exec p ops
    let ds := outputs PluginOp.exec (fun p op => op.amounts p) p ops
    (Increasing q.heldCaps ∧
      ∀ c, q.holdsCap c = (ops.filterMap (PluginOp.handle c)).getLastD (p.holdsCap c)) ∧
    IsGreatest {s : ℤ | s = p.memoryUsed + ds.sum ∨ ∃ es, es <:+ ds ∧ s = es.sum} q.memoryUsed ∧
    ((q.memoryUsed : ℤ) = p.memoryUsed + ds.sum ↔ ∀ es, es <+: ds → 0 ≤ p.memoryUsed + es.sum) ∧
    q.memoryUsed ≤ max p.memoryUsed p.memoryQuota ∧
    q = { p with
      heldCaps := q.heldCaps
      memoryUsed := q.memoryUsed } := by
  intro q ds
  have keep : ∀ (p : PluginState) (op : PluginOp), Increasing p.heldCaps →
      Increasing (op.exec p).heldCaps := fun _ op hp => PluginOp.exec_increasing hp op
  have hused : q.memoryUsed = clamped p.memoryUsed ds := PluginOp.run_memoryUsed p ops
  refine ⟨⟨?_, fun c => ?_⟩, ?_, ?_, PluginOp.run_memoryUsed_le p ops, PluginOp.run_eq p ops⟩
  · exact run_invariant (P := fun p : PluginState => Increasing p.heldCaps) keep ops hp
  · exact run_last_write (fun p : PluginState => p.holdsCap c) (PluginOp.handle c) keep
      (fun _ op hp => PluginOp.exec_holdsCap hp op c) ops hp
  · rw [hused]
    exact clamped_isGreatest p.memoryUsed ds
  · rw [hused]
    exact clamped_eq_iff p.memoryUsed ds

/-- 8 of 10 bytes are in use when 9 are given back: one of them is lost, and 10 more fit -/
theorem bookkeeping_sample :
    let p : PluginState := .withQuotas .Public 0 10 0 0
    let ops : List PluginOp := [.allocMemory 8, .freeMemory 9, .grantCap 7, .allocMemory 10,
      .revokeCapMut 7]
    (run PluginOp.exec p ops).holdsCap 7 = false ∧ (run PluginOp.exec p ops).memoryUsed = 10 ∧
      ((run PluginOp.exec p ops).memoryUsed : ℤ) ≠
        p.memoryUsed + (outputs PluginOp.exec (fun p op => op.amounts p) p ops).sum := by
  intro p ops
  have h := bookkeeping (p := p) .nil ops
  refine ⟨(h.1.2 7).trans (by decide), by decide, fun e => ?_⟩
  -- the first two amounts add up to less than nothing
  have hfirst := h.2.2.1.mp e [8, -9] ⟨[10], by decide⟩
  revert hfirst
  decide

end LionCore
