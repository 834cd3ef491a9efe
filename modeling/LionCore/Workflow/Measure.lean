import LionCore.Base.Total
import LionCore.Workflow.Counters

/-!
# The termination measure

The measure is a weighted sum that is cut off at the largest `u64`.

* `exactMeasure`               the sum that is not cut off;
* `fall`                       by how much a call lowers it;
* `NodeEffect.exactMeasure`    an effect lowers it by just that;
* `measure_falls_iff`          **main result**: the measure falls exactly where that can be seen
                               below the largest `u64`;
* `measure_stuck`              with a deadline that is never reached it does not fall.
-/

namespace LionCore
open Base

theorem foldl_saturatingAdd64 (l : List Nat) (a : Nat) :
    l.foldl saturatingAdd64 (cap64 a) = cap64 (a + l.sum) := by
  induction l generalizing a with
  | nil => rfl
  | cons x xs ih =>
    rw [List.foldl_cons, saturatingAdd64_eq, cap64_add_left, ih, List.sum_cons, Nat.add_assoc]

namespace WorkflowInstance

/-- the weighted sum without a limit -/
def exactMeasure (w : WorkflowInstance) (now : Time) : Nat :=
  w.timeoutAt - now + 1000 * w.pendingCt + 100 * w.activeCt + 1000 * w.retries.sum

/-- the weight of a node in a state -/
def weight : NodeState → Nat
  | .pending => 1000
  | .active => 100
  | _ => 0

/-- what `saturating_sub(1)` takes from a counter -/
def taken (c : Nat) : Int := c - (c - 1 : Nat)

/-- what `+= 1` adds to a counter that wraps around -/
def added (c : Nat) : Int := ((c + 1) % u32Size : Nat) - c

/-- by how much the weights fall when a node goes from `old` to `new` -/
def weightFall (w : WorkflowInstance) (old new : NodeState) : Int :=
  weight old * taken (w.counter old) - weight new * added (w.counter new)

/-- by how much a call that succeeds lowers the exact sum -/
def fall (w : WorkflowInstance) : NodeOp → Int
  | .start _ => w.weightFall .pending .active
  | .complete _ => w.weightFall .active .completed
  | .fail n =>
    if w.getRetries n > 0 then w.weightFall .active .pending + 1000
    else w.weightFall .active .failed
  | .timeout => 0

section
variable {w w' : WorkflowInstance} {op : NodeOp} {n idx : Nat} {now : Time}

theorem measure_eq (w : WorkflowInstance) (now : Time) :
    w.measure now = cap64 (w.exactMeasure now) := by
  have hretries : w.retries.foldl saturatingAdd64 0 = cap64 w.retries.sum := by
    have h := foldl_saturatingAdd64 w.retries 0
    rwa [Nat.zero_add] at h
  unfold measure exactMeasure
  simp only [hretries, saturatingMul64_eq, saturatingAdd64_eq, cap64_add_left, cap64_add_right,
    cap64_mul_left (Nat.zero_lt_succ 999)]
  congr 1
  omega

/-! ## what an effect does to the exact sum -/

theorem exactMeasure_leave (w : WorkflowInstance) (old : NodeState) (now : Time) :
    ((w.leave old).exactMeasure now : Int) =
      w.exactMeasure now - weight old * taken (w.counter old) := by
  cases old <;> simp only [leave, exactMeasure, weight, taken, counter] <;> omega

theorem exactMeasure_enter (w : WorkflowInstance) (new : NodeState) (now : Time) :
    ((w.enter new).exactMeasure now : Int) =
      w.exactMeasure now + weight new * added (w.counter new) := by
  cases new <;> simp only [enter, exactMeasure, weight, added, counter] <;> omega

theorem exactMeasure_transition {old : NodeState} (hs : w.stateAt idx = old) (new : NodeState)
    (hne : new ≠ old) (now : Time) :
    ((w.transition idx new).exactMeasure now : Int) =
      w.exactMeasure now - w.weightFall old new := by
  have hleave := exactMeasure_leave w old now
  have henter := exactMeasure_enter (w.leave old) new now
  rw [counter_leave, if_neg hne] at henter
  have hsame : (w.transition idx new).exactMeasure now =
      ((w.leave old).enter new).exactMeasure now := by
    unfold transition
    rw [hs]
    rfl
  unfold weightFall
  omega

theorem WellFormed.sum_retries (hw : w.WellFormed) (hidx : w.workflowDef.nodeIndex n = some idx)
    (hr : w.retriesAt idx > 0) :
    (w.retries.set idx (w.retriesAt idx - 1)).sum + 1 = w.retries.sum := by
  have hlt : idx < w.retries.length := hw.retries ▸ hw.faithful.index_lt hidx
  have hat : w.retriesAt idx = w.retries[idx] := by
    unfold retriesAt
    rw [List.getD_eq_getElem?_getD, List.getElem?_eq_getElem hlt]
    rfl
  have hsum := sum_set_add w.retries hlt (w.retriesAt idx - 1)
  omega

theorem NodeEffect.exactMeasure (h : NodeEffect w op w') (hw : w.WellFormed) (now : Time) :
    (w'.exactMeasure now : Int) = w.exactMeasure now - w.fall op := by
  cases h with
  | start hidx hs hdeps => exact exactMeasure_transition hs .active nofun now
  | @complete n idx hidx hs =>
    have hsame : (w.transition idx .completed).updateWorkflowStatus.exactMeasure now =
        (w.transition idx .completed).exactMeasure now := by
      rw [updateWorkflowStatus_eq]
      rfl
    rw [hsame]
    exact exactMeasure_transition hs .completed nofun now
  | @retry n idx hidx hs hr =>
    have hmove := exactMeasure_transition hs .pending nofun now
    have hsum := hw.sum_retries hidx hr
    have hfall : w.fall (.fail n) = w.weightFall .active .pending + 1000 := by
      rw [← getRetries_at hidx] at hr
      exact if_pos hr
    -- the weights as they are after the transition, and a retry less
    unfold WorkflowInstance.exactMeasure at hmove ⊢
    rw [transition_retries] at hmove
    simp only at hmove ⊢
    omega
  | @fail n idx hidx hs hr =>
    have hfall : w.fall (.fail n) = w.weightFall .active .failed := by
      rw [← getRetries_at hidx] at hr
      exact if_neg (Nat.not_lt.mpr hr.le)
    rw [hfall]
    exact exactMeasure_transition hs .failed nofun now
  | timeout => exact (Int.sub_zero _).symm

theorem exactMeasure_succ (h : now < w.timeoutAt) :
    w.exactMeasure (now + 1) + 1 = w.exactMeasure now := by
  have hleft : w.timeoutAt - (now + 1) + 1 = w.timeoutAt - now :=
    Nat.sub_add_cancel (Nat.sub_pos_of_lt h)
  unfold exactMeasure
  rw [← hleft]
  omega

/-- while the nodes can be counted, a node takes its old weight along and brings its new one -/
theorem Sound.weightFall_eq (h : w.Sound) (hsmall : w.workflowDef.nodes.length < u32Size)
    (hidx : w.workflowDef.nodeIndex n = some idx) {old : NodeState} (hs : w.stateAt idx = old)
    (hold : old ≠ .completed) (new : NodeState) (hne : new ≠ old) :
    w.weightFall old new = (weight old : Int) - weight new := by
  subst hs
  have htaken : taken (w.counter (w.stateAt idx)) = 1 := by
    have hpos := h.counter_pos hsmall hidx hold
    unfold taken
    omega
  have hadded : weight new * added (w.counter new) = weight new := by
    by_cases hnew : new = .completed
    · subst hnew
      exact Int.zero_mul _
    · have hroom := h.counter_room hsmall hidx new hnew
      rw [counter_leave, if_neg hne] at hroom
      have hone : added (w.counter new) = 1 := by
        unfold added
        rw [Nat.mod_eq_of_lt hroom]
        omega
      rw [hone, Int.mul_one]
  unfold weightFall
  rw [htaken, hadded, Int.mul_one]

/-- so every call that succeeds lowers the exact sum -/
theorem Sound.fall_pos (h : w.Sound) (hsmall : w.workflowDef.nodes.length < u32Size)
    (heff : NodeEffect w op w') (hop : op ≠ .timeout) : 0 < w.fall op := by
  cases heff with
  | start hidx hs hdeps =>
    show 0 < w.weightFall .pending .active
    rw [h.weightFall_eq hsmall hidx hs nofun .active nofun]
    decide
  | complete hidx hs =>
    show 0 < w.weightFall .active .completed
    rw [h.weightFall_eq hsmall hidx hs nofun .completed nofun]
    decide
  | retry hidx hs hr =>
    -- the node is heavier when it is pending, but not by as much as its retry
    rw [← getRetries_at hidx] at hr
    simp only [fall, if_pos hr, h.weightFall_eq hsmall hidx hs nofun .pending nofun]
    decide
  | fail hidx hs hr =>
    rw [← getRetries_at hidx] at hr
    simp only [fall, if_neg (Nat.not_lt.mpr hr.le),
      h.weightFall_eq hsmall hidx hs nofun .failed nofun]
    decide
  | timeout => exact absurd rfl hop

/-! ## the measure -/

/-- every call that succeeds lowers the measure, and so does time until the deadline -/
def Falls (now : Time) (w : WorkflowInstance) : Prop :=
  (∀ op w', op ≠ .timeout → NodeOp.call w op = (.ok (), w') → w'.measure now < w.measure now) ∧
    (now < w.timeoutAt → w.measure (now + 1) < w.measure now)

/-- the exact sum is lowered, and far enough to be seen below the largest `u64` -/
def Fits (now : Time) (w : WorkflowInstance) : Prop :=
  (∀ op, op ≠ .timeout → (NodeOp.call w op).1 = .ok () →
      0 < w.fall op ∧ w.exactMeasure now < ((u64Size - 1 : Nat) : Int) + w.fall op) ∧
    (now < w.timeoutAt → w.exactMeasure now < u64Size)

theorem WellFormed.falls_iff (hw : w.WellFormed) (now : Time) : w.Falls now ↔ w.Fits now := by
  have hstep : ∀ op w', NodeOp.call w op = (.ok (), w') → (w'.measure now < w.measure now ↔
      0 < w.fall op ∧ w.exactMeasure now < ((u64Size - 1 : Nat) : Int) + w.fall op) := by
    intro op w' hcall
    have hexact := (call_iff.mp hcall).exactMeasure hw now
    rw [measure_eq, measure_eq, cap64_lt_iff]
    omega
  have htick : now < w.timeoutAt →
      (w.measure (now + 1) < w.measure now ↔ w.exactMeasure now < u64Size) := by
    intro hlt
    have hsucc := exactMeasure_succ hlt
    have hpos : 0 < u64Size := Nat.two_pow_pos 64
    rw [measure_eq, measure_eq, cap64_lt_iff]
    omega
  refine and_congr ?_ (forall_congr' htick)
  constructor
  · intro hall op hop hok
    exact (hstep op _ (Prod.ext hok rfl)).mp (hall op _ hop (Prod.ext hok rfl))
  · intro hall op w' hop hcall
    exact (hstep op w' hcall).mpr (hall op hop (congrArg Prod.fst hcall))

/-- a sum that is below the largest `u64` once stays there -/
theorem Sound.fits (h : w.Sound) (hsmall : w.workflowDef.nodes.length < u32Size)
    (hlt : w.exactMeasure now < u64Size) : w.Fits now := by
  refine ⟨fun op hop hok => ?_, fun _ => hlt⟩
  have hpos := h.fall_pos hsmall (call_iff.mp (Prod.ext hok rfl)) hop
  refine ⟨hpos, ?_⟩
  omega

theorem Sound.exec_exactMeasure_le (h : w.Sound)
    (hsmall : w.workflowDef.nodes.length < u32Size) (op : NodeOp) :
    (op.exec w).exactMeasure now ≤ w.exactMeasure now := by
  rcases exec_cases w op with he | he
  · rw [he]
  · by_cases hop : op = .timeout
    · subst hop
      exact le_rfl
    · have hexact := he.exactMeasure h.wellFormed now
      have hpos := h.fall_pos hsmall he hop
      omega

theorem exactMeasure_new (d : WorkflowDef) (timeoutAt : Time) (maxRetries : Nat)
    (hsmall : d.nodes.length < u32Size) (now : Time) :
    (new d timeoutAt maxRetries).exactMeasure now =
      timeoutAt - now + 1000 * (d.nodes.length * (1 + min maxRetries 65535)) := by
  have hr : (if maxRetries > 65535 then 65535 else maxRetries) = min maxRetries 65535 := by
    split <;> omega
  unfold exactMeasure WorkflowInstance.new
  have hsum : (List.replicate d.nodes.length (min maxRetries 65535)).sum =
      d.nodes.length * min maxRetries 65535 := List.sum_replicate_nat
  simp only [hr, Nat.mod_eq_of_lt hsmall, hsum, Nat.mul_add]
  omega

end

/-- **Main result**: in an instance that is reached by any run of calls, every call that succeeds
and every step of time before the deadline lower the measure exactly if the sum that is not cut off
is lowered to less than the largest `u64`; and all of this holds in all runs, as long as the nodes
can be counted, exactly if the sum that the workflow starts with is a `u64`. -/
theorem measure_falls_iff {nodes : List Nat} {edges : List Edge} {d : WorkflowDef}
    (hd : WorkflowDef.validated nodes edges = .ok d) (timeoutAt : Time) (maxRetries : Nat)
    (now : Time) :
    (∀ ops, (run NodeOp.exec (new d timeoutAt maxRetries) ops).Falls now ↔
      (run NodeOp.exec (new d timeoutAt maxRetries) ops).Fits now) ∧
    (d.nodes.length < u32Size →
      ((∀ ops, (run NodeOp.exec (new d timeoutAt maxRetries) ops).Falls now) ↔
        timeoutAt - now + 1000 * (d.nodes.length * (1 + min maxRetries 65535)) < u64Size)) := by
  have hsound := run_sound hd timeoutAt maxRetries
  refine ⟨fun ops => (hsound ops).wellFormed.falls_iff now, fun hsmall => ?_⟩
  have hnew := exactMeasure_new d timeoutAt maxRetries hsmall now
  rw [← hnew]
  constructor
  · intro hall
    rcases Nat.lt_or_ge now timeoutAt with hlt | hge
    · exact ((hsound []).wellFormed.falls_iff now |>.mp (hall [])).2 hlt
    · -- without any time left the sum is far from the largest value
      have hmul : d.nodes.length * (1 + min maxRetries 65535) ≤ u32Size * 65536 :=
        Nat.mul_le_mul hsmall.le (by omega)
      have hsize : 1000 * (u32Size * 65536) < u64Size := by decide
      rw [hnew, Nat.sub_eq_zero_of_le hge, Nat.zero_add]
      exact (Nat.mul_le_mul_left 1000 hmul).trans_lt hsize
  · intro hlt ops
    have hbound : (run NodeOp.exec (new d timeoutAt maxRetries) ops).exactMeasure now ≤
        (new d timeoutAt maxRetries).exactMeasure now :=
      (run_invariant (f := NodeOp.exec)
        (P := fun w => w.Sound ∧ w.workflowDef.nodes.length < u32Size ∧
          w.exactMeasure now ≤ (new d timeoutAt maxRetries).exactMeasure now)
        (fun w op h => ⟨h.1.exec op, exec_workflowDef w op ▸ h.2.1,
          (h.1.exec_exactMeasure_le h.2.1 op).trans h.2.2⟩) ops
        ⟨hsound [], hsmall, le_rfl⟩).2.2
    refine ((hsound ops).wellFormed.falls_iff now).mpr ((hsound ops).fits ?_ ?_)
    · rwa [run_workflowDef]
    · exact lt_of_le_of_lt hbound hlt

theorem measure_falls_iff_sample :
    (run NodeOp.exec (new .sampleChain 10 1) [.start 1, .fail 1]).Falls 0 := by
  have hd : WorkflowDef.validated [2, 1] [⟨1, 2⟩] = .ok .sampleChain := by decide
  exact ((measure_falls_iff hd 10 1 0).2 (by decide)).mpr (by decide) [.start 1, .fail 1]

/-- one node and the largest `u64` as a deadline: neither a start nor time lowers the measure -/
theorem measure_stuck :
    WorkflowDef.validated [1] [] = .ok .sampleSingle ∧
      ((new .sampleSingle (u64Size - 1) 0).startNode 1).1 = .ok () ∧
      ((new .sampleSingle (u64Size - 1) 0).startNode 1).2.measure 0 =
        (new .sampleSingle (u64Size - 1) 0).measure 0 ∧
      (new .sampleSingle (u64Size - 1) 0).measure 1 =
        (new .sampleSingle (u64Size - 1) 0).measure 0 := by
  decide

end WorkflowInstance
end LionCore
