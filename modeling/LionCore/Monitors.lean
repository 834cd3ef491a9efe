import LionCore.Interleaving
import LionCore.Security.History

/-!
# The checks that the code makes of its own runs

Two functions look at a run from outside: one compares the records of the plugins before and after,
the other repeats the run and compares the clocks.

* `State.preservesIsolation`   the records of all plugins but one are what they were;
* `isolated_run_iff`  **main result**: over a run it is true exactly if the others have not had
                      anything written into their records;
* `reachable`         the steps are executed on clones, and the clocks agree;
* `reachable_iff`     **main result**: what it says of a run, and what it does not see.
-/

namespace LionCore
open Base

/-! ## isolation -/

/-- every plugin but `active` is there, with the same record -/
def State.preservesIsolation (s other : State) (active : PluginId) : Bool :=
  s.plugins.all fun e =>
    if e.1 = active then true
    else match other.getPlugin e.1 with
      | some ps => decide (e.2 = ps)
      | none => false

theorem preservesIsolation_iff {s : State} (hs : s.plugins.Sorted) (other : State)
    (active : PluginId) : s.preservesIsolation other active = true ↔
      ∀ pid q, pid ≠ active → s.getPlugin pid = some q → other.getPlugin pid = some q := by
  have entry : ∀ pid q, (if pid = active then true
      else match other.getPlugin pid with
        | some ps => decide (q = ps)
        | none => false) = true ↔ (pid ≠ active → other.getPlugin pid = some q) := by
    intro pid q
    by_cases h : pid = active
    · simp [h]
    · cases other.getPlugin pid <;> simp [h, eq_comm]
  unfold State.preservesIsolation
  rw [List.all_eq_true]
  constructor
  · intro h pid q hne hq
    exact (entry pid q).mp (h (pid, q) (Table.mem_of_find hq)) hne
  · rintro h ⟨pid, q⟩ hmem
    exact (entry pid q).mpr fun hne => h pid q hne (Table.find_of_mem hs hmem)

/-! ### events that change nothing -/

/-- levels that go down and end where they began were never left -/
theorem le_of_descending {l l' : SecurityLevel} {ls : List SecurityLevel}
    (hc : (l :: ls).IsChain (· ≥ ·)) (hlast : l' ≤ ls.getLastD l) : ∀ x ∈ l :: ls, l' ≤ x := by
  induction ls generalizing l with
  | nil =>
    intro x hx
    rw [List.mem_singleton.mp hx]
    exact hlast
  | cons a ls ih =>
    rw [List.isChain_cons_cons] at hc
    rw [List.getLastD_cons] at hlast
    have hall := ih hc.2 hlast
    intro x hx
    rcases List.mem_cons.mp hx with rfl | hx
    · exact (hall a List.mem_cons_self).trans hc.1
    · exact hall x hx

theorem level_kept_iff {l : SecurityLevel} {ls : List SecurityLevel}
    (hc : (l :: ls).IsChain (· ≥ ·)) : ls.getLastD l = l ↔ ∀ x ∈ ls, x = l := by
  constructor
  · intro h x hx
    have hpw := List.isChain_iff_pairwise.mp hc
    apply le_antisymm
    · exact (List.pairwise_cons.mp hpw).1 x hx
    · exact le_of_descending hc h.ge x (List.mem_cons_of_mem l hx)
  · intro h
    rw [List.getLastD_eq_getLast?]
    cases hlast : ls.getLast? with
    | none => rfl
    | some x => exact h x (List.mem_of_getLast? hlast)

/-- an event of a step that leaves the record `q` as it is -/
def PluginEvent.Idle (q : PluginState) (e : PluginEvent) : Prop :=
  e = .charged 0 ∨ e = .lowered q.level

/-- a step grants nothing -/
def PluginEvent.OfStep (e : PluginEvent) : Prop := e.handle = none

theorem PluginState.after_eq_iff {q : PluginState} {es : List PluginEvent}
    (hd : Descending q.level es) (hes : ∀ e ∈ es, e.OfStep) :
    q.after es = q ↔ ∀ e ∈ es, e.Idle q := by
  have hnone : es.filterMap (·.handle) = [] := List.filterMap_eq_nil_iff.mpr hes
  have hafter : q.after es = { q with
      level := (es.filterMap (·.level)).getLastD q.level
      memoryUsed := q.memoryUsed + (es.filterMap (·.size)).sum } := by
    unfold PluginState.after
    rw [hnone]
    rfl
  have hsplit : q.after es = q ↔
      (es.filterMap (·.level)).getLastD q.level = q.level ∧ (es.filterMap (·.size)).sum = 0 := by
    rw [hafter]
    constructor
    · intro h
      have hsum := congrArg PluginState.memoryUsed h
      simp only [Nat.add_eq_left] at hsum
      exact ⟨congrArg PluginState.level h, hsum⟩
    · rintro ⟨hl, hsum⟩
      rw [hl, hsum]
      rfl
  rw [hsplit, level_kept_iff hd, List.sum_eq_zero_iff]
  simp only [List.mem_filterMap]
  constructor
  · rintro ⟨hl, hz⟩ e he
    cases e with
    | granted c => cases hes _ he
    | charged n => exact Or.inl (congrArg PluginEvent.charged (hz n ⟨_, he, rfl⟩))
    | lowered l => exact Or.inr (congrArg PluginEvent.lowered (hl l ⟨_, he, rfl⟩))
  · intro h
    constructor
    · rintro l ⟨e, he, hel⟩
      rcases h e he with rfl | rfl
      · cases hel
      · exact (Option.some.inj hel).symm
    · rintro n ⟨e, he, hen⟩
      rcases h e he with rfl | rfl
      · exact (Option.some.inj hen).symm
      · cases hen

theorem Step.events_ofStep (pid : PluginId) (t : Step) : ∀ e ∈ t.events pid, e.OfStep := by
  intro e he
  cases t with
  | hostCall hc auth res =>
    simp only [Step.events] at he
    split at he
    · split at he
      · obtain rfl := List.mem_singleton.mp he
        rfl
      · obtain ⟨l, _, rfl⟩ := List.mem_map.mp he
        rfl
      · cases he
    · cases he
  | pluginInternal _ _ | kernelInternal _ | memFree _ _ | capRevoke _ _ => cases he

/-! ### runs -/

/-- the events in the record of `pid` of an attempt, if it is accepted -/
def eventsOf (pid : PluginId) (s : State) (a : Path × Step) : List PluginEvent :=
  if answer s a = .ok () then a.2.events pid else []

theorem run_recorded (s : State) (as : List (Path × Step)) (pid : PluginId) :
    Recorded pid (outputs attempt (eventsOf pid) s as) s (run attempt s as) ∧
      ∀ e ∈ outputs attempt (eventsOf pid) s as, e.OfStep := by
  induction as generalizing s with
  | nil => exact ⟨.nil rfl, fun _ he => absurd he List.not_mem_nil⟩
  | cons a as ih =>
    obtain ⟨hrec, hof⟩ := ih (attempt s a)
    refine ⟨(attempt_recorded s a pid).append hrec, fun e he => ?_⟩
    rcases List.mem_append.mp he with he | he
    · unfold eventsOf at he
      split at he
      · exact a.2.events_ofStep pid e he
      · cases he
    · exact hof e he

/-- **Main result**: from whatever state calls have led to, the code's check of isolation passes
over a run of attempts, accepted or not and by any paths, exactly if all that has been written into
the record of another plugin by its own accepted steps are allocations of size zero and
declassifications to the level that it had. -/
theorem isolated_run_iff (hmac : Hmac) (key : Key) (policy : PolicyState) (cs : List Call)
    (as : List (Path × Step)) (active : PluginId) :
    let s := runCalls hmac (.initial key policy) cs
    s.preservesIsolation (run attempt s as) active = true ↔
      ∀ pid q, pid ≠ active → s.getPlugin pid = some q →
        ∀ e ∈ outputs attempt (eventsOf pid) s as, e.Idle q := by
  intro s
  have hs : s.plugins.Sorted :=
    run_invariant (f := Call.exec hmac) (P := fun s : State => s.plugins.Sorted)
      (fun s cl h => ((StateOp.call cl).pluginStep hmac s).sorted h) cs List.Pairwise.nil
  rw [preservesIsolation_iff hs]
  refine forall_congr' fun pid => forall_congr' fun q => imp_congr_right fun _ =>
    imp_congr_right fun hq => ?_
  obtain ⟨hrec, hof⟩ := run_recorded s as pid
  obtain ⟨hq', hdown⟩ := hrec q hq
  rw [hq', Option.some_inj]
  exact PluginState.after_eq_iff hdown hof

/-! ## reachability -/

/-- the steps one after the other, on clones; then the clocks are compared -/
def reachable (start finish : State) (steps : List Step) : Except StepError Bool := do
  let current ← steps.foldlM (fun s t => t.execute s) start
  return decide (current.time = finish.time)

/-- every step is accepted, on clones -/
def Accepted (s : State) (ts : List Step) : Prop :=
  Along attempt (fun s a => answer s a = .ok ()) s (ts.map fun t => (.cloning, t))

theorem execute_eq (s : State) (t : Step) :
    t.execute s = (answer s (.cloning, t)).map fun _ => attempt s (.cloning, t) := by
  unfold answer attempt
  cases t.execute s <;> rfl

theorem attempt_time (s : State) (p : Path) (t : Step) (h : answer s (p, t) = .ok ()) :
    (attempt s (p, t)).time = s.time + if t = .kernelInternal .timeTick then 1 else 0 := by
  obtain ⟨s', hex⟩ := (answer_ok_iff s p t).mp h
  rw [Exec.attempt hex]
  have he := Exec.effect hex
  cases he with
  | @compute pid pi _ =>
    obtain ⟨actors, e⟩ := pi.consume_frame s pid
    rw [e]
    simp [State.time]
  | free _ ht _ _ =>
    rcases Step.frees_cases ht with ⟨_, rfl⟩ | ⟨_, _, _, rfl, _, _⟩ <;>
      simp [State.time, State.withGhost]
  | revoke _ ht _ _ =>
    rcases Step.revokes_cases ht with ⟨_, rfl⟩ | ⟨_, _, _, rfl, _, _⟩ <;>
      simp [State.time, State.withRevocation]
  | tick => rfl
  | use | alloc | declassify | route | workflow | unblock => simp [State.time] <;> rfl

/-- the steps as attempts on clones -/
def onClones (ts : List Step) : List (Path × Step) := ts.map fun t => (.cloning, t)

/-- the steps are carried out up to the first one that is refused -/
theorem foldlM_execute (s : State) (ts : List Step) :
    (Accepted s ts ∧ ts.foldlM (fun s t => t.execute s) s = .ok (run attempt s (onClones ts))) ∨
      ∃ pre t post e, ts = pre ++ t :: post ∧ Accepted s pre ∧
        answer (run attempt s (onClones pre)) (.cloning, t) = .error e ∧
        ts.foldlM (fun s t => t.execute s) s = .error e := by
  induction ts generalizing s with
  | nil => exact Or.inl ⟨trivial, rfl⟩
  | cons t ts ih =>
    rw [List.foldlM_cons, execute_eq]
    cases ha : answer s (.cloning, t) with
    | error e => exact Or.inr ⟨[], t, ts, e, rfl, trivial, ha, rfl⟩
    | ok u =>
      rcases ih (attempt s (.cloning, t)) with ⟨hacc, h⟩ | ⟨pre, t', post, e, rfl, hacc, ha', h⟩
      · exact Or.inl ⟨⟨ha, hacc⟩, h⟩
      · exact Or.inr ⟨t :: pre, t', post, e, rfl, ⟨ha, hacc⟩, ha', h⟩

theorem accepted_time {s : State} {ts : List Step} (h : Accepted s ts) :
    (run attempt s (onClones ts)).time = s.time + ts.count (.kernelInternal .timeTick) := by
  induction ts generalizing s with
  | nil => rfl
  | cons t ts ih =>
    have hrest := ih h.2
    have hfirst := attempt_time s .cloning t h.1
    show (run attempt (attempt s (.cloning, t)) (onClones ts)).time = _
    rw [hrest, hfirst, List.count_cons, beq_eq_decide]
    by_cases ht : t = .kernelInternal .timeTick
    · simp only [if_pos ht, decide_eq_true ht]
      exact Nat.add_right_comm _ 1 _
    · simp only [if_neg ht, decide_eq_false ht]
      rfl

/-- the first step that is refused decides -/
theorem foldlM_refused {s : State} {pre post : List Step} {t : Step} {e : StepError}
    (h : Accepted s pre) (ht : answer (run attempt s (onClones pre)) (.cloning, t) = .error e) :
    (pre ++ t :: post).foldlM (fun s t => t.execute s) s = .error e := by
  induction pre generalizing s with
  | nil =>
    have ha : answer s (.cloning, t) = .error e := ht
    rw [List.nil_append, List.foldlM_cons, execute_eq, ha]
    rfl
  | cons u pre ih =>
    have ha : answer s (.cloning, u) = .ok () := h.1
    rw [List.cons_append, List.foldlM_cons, execute_eq, ha]
    exact ih h.2 ht

theorem Accepted.not_refused {s : State} {pre post : List Step} {t : Step} {e : StepError}
    (h : Accepted s (pre ++ t :: post))
    (ht : answer (run attempt s (onClones pre)) (.cloning, t) = .error e) : False := by
  unfold Accepted at h
  rw [List.map_append, along_append] at h
  cases h.2.1.symm.trans ht

/-- **Main result**: `reachable` gives an answer exactly if every step is accepted, and the answer
is whether the clock of the final state is that of the first plus the number of ticks: it does not
look at anything else.  It gives the error of the first step that is refused, and no other. -/
theorem reachable_iff (s finish : State) (ts : List Step) :
    (∀ b, reachable s finish ts = .ok b ↔ Accepted s ts ∧
      (b = true ↔ finish.time = s.time + ts.count (.kernelInternal .timeTick))) ∧
    ∀ e, reachable s finish ts = .error e ↔ ∃ pre t post, ts = pre ++ t :: post ∧
      Accepted s pre ∧ answer (run attempt s (onClones pre)) (.cloning, t) = .error e := by
  unfold reachable
  rcases foldlM_execute s ts with ⟨hacc, h⟩ | ⟨pre, t, post, e, rfl, hacc, ha, h⟩
  · rw [h]
    constructor
    · intro b
      show Except.ok _ = Except.ok b ↔ _
      rw [accepted_time hacc, and_iff_right hacc, Except.ok.injEq]
      cases b <;> simp [eq_comm]
    · intro e
      refine iff_of_false nofun ?_
      rintro ⟨pre, t, post, rfl, _, ha⟩
      exact hacc.not_refused ha
  · rw [h]
    constructor
    · intro b
      exact iff_of_false nofun fun hb => hb.1.not_refused ha
    · intro e'
      constructor
      · intro he
        cases he
        exact ⟨pre, t, post, rfl, hacc, ha⟩
      · rintro ⟨pre', t', post', hsplit, hacc', ha'⟩
        rw [← h, hsplit, foldlM_refused hacc' ha']
        rfl

end LionCore
