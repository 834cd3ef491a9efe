import LionCore.Memory.Flat
import Mathlib.Data.Set.Card

/-!
# The pages that a plugin's memory holds

A page is there once a byte of it was written, zeros included, and never goes.

* `MemOp.Touches`       the write takes effect and writes into the page;
* `writeBytes_touched`  what a write adds to the pages;
* `eq_of_read`          the pages that are there and the bytes that are read are all of a memory;
* `memory_footprint`    **main result**: how much a run of writes has allocated, and when two runs
                        leave the same memory.
-/

namespace LionCore
open Base

namespace LinearMemory
section
variable (m : LinearMemory)

/-- `pages.len() * PAGE_SIZE` -/
def writtenBytes : Nat := m.pages.len * pageSize

/-- no page was touched -/
def isEmpty : Bool := m.pages.len == 0

/-- the pages that are there -/
def touched : Set Nat := {pg | m.pages.get pg ≠ none}

theorem touched_empty (size : Size) : (empty size).touched = ∅ :=
  Set.eq_empty_of_forall_notMem fun _ h => h rfl

theorem touched_writeMut (addr : MemAddr) (val : UInt8) :
    (m.writeMut addr val).touched = insert (pageOf addr) m.touched := by
  ext pg
  show (m.pages.insert _ _).get pg ≠ none ↔ _ ∨ m.pages.get pg ≠ none
  rw [SortedMap.get_insert]
  by_cases h : pg = pageOf addr <;> simp [h]

theorem writeBytes_touched (addr : MemAddr) (data : List UInt8) (pg : Nat) :
    pg ∈ (m.writeBytes addr data).touched ↔
      pg ∈ m.touched ∨ ∃ i < data.length, pageOf (addr + i) = pg := by
  induction data generalizing m addr with
  | nil => simp [writeBytes]
  | cons b data ih =>
    have hsplit : (∃ i < (b :: data).length, pageOf (addr + i) = pg) ↔
        pageOf addr = pg ∨ ∃ i < data.length, pageOf (addr + 1 + i) = pg := by
      rw [List.length_cons, Nat.exists_lt_succ_left]
      simp only [Nat.add_zero, Nat.add_assoc, Nat.add_comm 1]
    show pg ∈ ((m.writeMut addr b).writeBytes (addr + 1) data).touched ↔ _
    rw [ih, touched_writeMut, hsplit, Set.mem_insert_iff, eq_comm (a := pg), ← or_assoc,
      or_comm (a := pageOf addr = pg)]

theorem touched_finite : m.touched.Finite := by
  apply m.pages.entries.keys.finite_toSet.subset
  intro pg h
  exact (m.pages.get_ne_none_iff pg).mp h

theorem len_eq_ncard : m.pages.len = m.touched.ncard := by
  have hkeys : m.touched = ↑m.pages.entries.keys.toFinset := by
    ext pg
    rw [List.coe_toFinset]
    exact m.pages.get_ne_none_iff pg
  rw [hkeys, Set.ncard_coe_finset, List.toFinset_card_of_nodup m.pages.sorted.nodup]
  unfold Table.keys
  rw [List.length_map]
  rfl

end

/-- **A memory is its pages and its bytes**: the pages that are there, what is read, the bounds. -/
theorem eq_of_read {m m' : LinearMemory} (hb : m.bounds = m'.bounds)
    (ht : m.touched = m'.touched) (hr : m.read = m'.read) : m = m' := by
  have hpages : m.pages = m'.pages := by
    apply SortedMap.ext_get
    intro pg
    have hpg : m.pages.get pg ≠ none ↔ m'.pages.get pg ≠ none := Set.ext_iff.mp ht pg
    cases h : m.pages.get pg with
    | none =>
      rw [h] at hpg
      exact (not_not.mp fun hn => hpg.mpr hn rfl).symm
    | some page =>
      obtain ⟨page', h'⟩ := Option.ne_none_iff_exists'.mp (hpg.mp (by rw [h]; nofun))
      rw [h', Option.some_inj]
      apply Vector.ext
      intro i hi
      obtain ⟨hpage, hoff⟩ : pageOf (pg <<< pageBits + i) = pg ∧
        offsetInPage (pg <<< pageBits + i) = i := page_offset pageBits pg hi
      have hbyte := congrFun hr (pg <<< pageBits + i)
      unfold read at hbyte
      rw [hpage, h, h'] at hbyte
      simp only [hoff] at hbyte
      exact hbyte
  cases m
  cases m'
  cases hpages
  cases hb
  rfl

end LinearMemory

/-! ## runs -/

namespace MemOp

/-- `write_range` writes nothing out of bounds -/
def Lands (size : Size) : MemOp → Prop
  | .writeRange addr data => (MemOp.writeRange addr data).InBounds size
  | _ => True

/-- a byte of the page is written -/
def Touches (size : Size) (op : MemOp) (pg : Nat) : Prop :=
  op.Lands size ∧ ∃ i < op.data.length, pageOf (op.addr + i) = pg

/-- the pages that the writes touch -/
def pages (size : Size) (ops : List MemOp) : Set Nat := {pg | ∃ op ∈ ops, op.Touches size pg}

/-- **A write that goes through adds the pages that it touches.** -/
theorem exec_touched {m m' : LinearMemory} {op : MemOp} (h : op.exec m = some m') :
    m'.bounds = m.bounds ∧
      ∀ pg, pg ∈ m'.touched ↔ pg ∈ m.touched ∨ op.Touches m.bounds pg := by
  have written : ∀ op : MemOp, op.Lands m.bounds → m' = m.writeBytes op.addr op.data →
      m'.bounds = m.bounds ∧
        ∀ pg, pg ∈ m'.touched ↔ pg ∈ m.touched ∨ op.Touches m.bounds pg := by
    intro op hlands e
    subst e
    refine ⟨m.bounds_writeBytes _ _, fun pg => ?_⟩
    rw [m.writeBytes_touched, Touches, and_iff_right hlands]
  cases op with
  | write addr val => exact written (.write addr val) trivial (Option.some.inj h).symm
  | writeMut addr val => exact written (.writeMut addr val) trivial (Option.some.inj h).symm
  | writeRange addr data =>
    by_cases hin : m.addrInBounds addr data.length = true
    · have hib : (MemOp.writeRange addr data).InBounds m.bounds := (m.addrInBounds_iff _ _).mp hin
      apply written (.writeRange addr data) hib
      exact Option.some.inj (h.symm.trans (exec_inBounds hib))
    · have hout : ¬ (MemOp.writeRange addr data).InBounds m.bounds :=
        fun hib => hin ((m.addrInBounds_iff _ _).mpr hib)
      have e : m' = m := by
        simp only [exec, m.writeRange_eq, if_neg hin] at h
        exact (Option.some.inj h).symm
      subst e
      refine ⟨rfl, fun pg => (or_iff_left fun ht => ?_).symm⟩
      exact hout ht.1
  | writeRangeMut addr data =>
    apply written (.writeRangeMut addr data) trivial
    have e := (m.writeRangeMut_eq addr data).symm.trans h
    split at e
    · exact (Option.some.inj e).symm
    · cases e

theorem run_touched {m m' : LinearMemory} {ops : List MemOp}
    (h : runOpt exec m ops = some m') :
    m'.bounds = m.bounds ∧ m'.touched = m.touched ∪ pages m.bounds ops := by
  induction ops generalizing m with
  | nil =>
    obtain rfl := Option.some.inj h
    refine ⟨rfl, (Set.union_eq_self_of_subset_right ?_).symm⟩
    intro pg hpg
    obtain ⟨op, hop, _⟩ := hpg
    cases hop
  | cons op ops ih =>
    rw [runOpt_cons] at h
    obtain ⟨m₁, h₁, h⟩ := Option.bind_eq_some_iff.mp h
    obtain ⟨hb₁, ht₁⟩ := exec_touched h₁
    obtain ⟨hb, ht⟩ := ih h
    refine ⟨hb.trans hb₁, ?_⟩
    rw [ht, hb₁]
    ext pg
    show (pg ∈ m₁.touched ∨ ∃ o ∈ ops, _) ↔ pg ∈ m.touched ∨ ∃ o ∈ op :: ops, _
    rw [ht₁ pg, or_assoc]
    simp

end MemOp

/-- within the bounds there is at most one page for every 4096 bytes begun -/
theorem pages_inBounds {size : Size} {ops : List MemOp} (hops : ∀ op ∈ ops, op.InBounds size) :
    pageSize * (MemOp.pages size ops).ncard < size + pageSize := by
  have hbegun : ∀ x n : Nat, x < n → x / 4096 < (n + 4095) / 4096 := by
    intro x n h
    omega
  have hsub : MemOp.pages size ops ⊆ ↑(Finset.range ((size + 4095) / 4096)) := by
    intro pg hpg
    obtain ⟨op, hop, _, i, hi, rfl⟩ := hpg
    have hlt : op.addr + i < size := lt_of_lt_of_le (Nat.add_lt_add_left hi _) (hops op hop).2
    rw [Finset.coe_range]
    show (op.addr + i) >>> pageBits < _
    rw [Nat.shiftRight_eq_div_pow]
    exact hbegun _ _ hlt
  have hcard := Set.ncard_le_ncard hsub (Finset.finite_toSet _)
  rw [Set.ncard_coe_finset, Finset.card_range] at hcard
  calc pageSize * (MemOp.pages size ops).ncard
      ≤ 4096 * ((size + 4095) / 4096) := Nat.mul_le_mul_left 4096 hcard
    _ ≤ size + 4095 := Nat.mul_div_le _ _
    _ < size + pageSize := Nat.add_lt_add_left (by decide) size

/-- **Main result**: the pages that a run of writes leaves are those that its writes touch, which
gives the number of bytes allocated, and within the bounds a bound on it; and two runs leave the
same memory exactly if they leave the same bytes and have touched the same pages. -/
theorem memory_footprint {size : Size} {ops : List MemOp} {m : LinearMemory}
    (h : runOpt MemOp.exec (.empty size) ops = some m) :
    m.touched = MemOp.pages size ops ∧
      m.writtenBytes = (MemOp.pages size ops).ncard * pageSize ∧
      (m.isEmpty = true ↔ MemOp.pages size ops = ∅) ∧
      ((∀ op ∈ ops, op.InBounds size) → m.writtenBytes < size + pageSize) ∧
      ∀ {ops' m'}, runOpt MemOp.exec (.empty size) ops' = some m' →
        (m = m' ↔ m.read = m'.read ∧ MemOp.pages size ops = MemOp.pages size ops') := by
  have hrun : ∀ {ops m}, runOpt MemOp.exec (.empty size) ops = some m →
      m.bounds = size ∧ m.touched = MemOp.pages size ops := by
    intro ops m h
    obtain ⟨hb, ht⟩ := MemOp.run_touched h
    rw [LinearMemory.touched_empty, Set.empty_union] at ht
    exact ⟨hb, ht⟩
  obtain ⟨hb, ht⟩ := hrun h
  have hbytes : m.writtenBytes = (MemOp.pages size ops).ncard * pageSize := by
    rw [← ht, ← m.len_eq_ncard]
    rfl
  refine ⟨ht, hbytes, ?_, fun hops => ?_, fun {ops' m'} h' => ?_⟩
  · rw [← ht, ← Set.ncard_eq_zero m.touched_finite, ← m.len_eq_ncard]
    exact beq_iff_eq
  · rw [hbytes, Nat.mul_comm]
    exact pages_inBounds hops
  · obtain ⟨hb', ht'⟩ := hrun h'
    constructor
    · rintro rfl
      exact ⟨rfl, ht.symm.trans ht'⟩
    · intro ⟨hread, hpages⟩
      apply LinearMemory.eq_of_read (hb.trans hb'.symm) _ hread
      rw [ht, ht', hpages]

/-- two writes of zeros: nothing is read that was not there, and two pages are -/
theorem memory_footprint_sample :
    ∃ m, runOpt MemOp.exec (.empty 8192) [.writeRange 4094 [0, 0, 0]] = some m ∧
      m.writtenBytes < 8192 + pageSize := by
  have hin : ∀ op ∈ [MemOp.writeRange 4094 [0, 0, 0]], op.InBounds 8192 := by
    intro op hop
    obtain rfl := List.mem_singleton.mp hop
    unfold MemOp.InBounds u64Size
    decide
  obtain ⟨m, hrun, _, _⟩ := MemOp.run_flat [.writeRange 4094 [0, 0, 0]] (m := .empty 8192) hin
  exact ⟨m, hrun, (memory_footprint hrun).2.2.2.1 hin⟩

end LionCore
