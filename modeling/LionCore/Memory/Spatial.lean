import LionCore.Memory.Flat

/-!
# Writes outside the bounds

Of the four ways to write, `write_range` asks for the bounds and the others do not; and the range
loop advances its position before it asks whether anything is left.

* `MemOp.confined_iff`     when a write goes through and leaves zeros outside the bounds;
* `confined_iff_fits`      **main result**: the same for any sequence of writes;
* `write_outside`          a byte outside the bounds, and a range up to the last address.
-/

namespace LionCore
open Base

/-! ## one write -/

/-- outside the bounds, which are `size`, every byte is zero -/
def LinearMemory.Confined (size : Size) (m : LinearMemory) : Prop :=
  m.bounds = size ∧ ∀ a, size ≤ a → m.read a = 0

/-- zeros only are written outside, and the position stays in the address space -/
def MemOp.Fits (size : Size) : MemOp → Prop
  | .write addr val | .writeMut addr val => addr < size ∨ val = 0
  | .writeRange _ _ => True
  | .writeRangeMut addr data => (addr + data.length < u64Size ∨ data = []) ∧
      ∀ i (h : i < data.length), size ≤ addr + i → data[i] = 0

section
variable {size : Size} {m : LinearMemory}

theorem LinearMemory.Confined.writeBytes_iff (h : m.Confined size) (addr : MemAddr)
    (data : List UInt8) : (m.writeBytes addr data).Confined size ↔
      ∀ i (h : i < data.length), size ≤ addr + i → data[i] = 0 := by
  unfold LinearMemory.Confined
  rw [m.bounds_writeBytes, m.read_writeBytes, and_iff_right h.1]
  constructor
  · intro hz i hi ha
    rw [← blit_at m.read addr data hi]
    exact hz (addr + i) ha
  · intro hz a ha
    rcases Nat.lt_or_ge a addr with hlt | hge
    · rw [blit_below m.read addr data hlt]
      exact h.2 a ha
    obtain ⟨i, rfl⟩ := Nat.exists_eq_add_of_le hge
    rcases Nat.lt_or_ge i data.length with hi | hi
    · rw [blit_at m.read addr data hi]
      exact hz i hi ha
    · rw [blit_above m.read addr data (Nat.add_le_add_left hi addr)]
      exact h.2 _ ha

theorem fits_byte_iff (addr : MemAddr) (val : UInt8) :
    (∀ i (h : i < [val].length), size ≤ addr + i → [val][i] = 0) ↔ addr < size ∨ val = 0 := by
  constructor
  · intro h
    rcases Nat.lt_or_ge addr size with hlt | hge
    · exact Or.inl hlt
    · exact Or.inr (h 0 Nat.one_pos hge)
  · intro h i hi ha
    obtain rfl : i = 0 := Nat.lt_one_iff.mp hi
    exact h.resolve_left (not_lt.mpr ha)

/-- **A write goes through and keeps the outside zero exactly if it fits.** -/
theorem MemOp.confined_iff (h : m.Confined size) (op : MemOp) :
    (∃ m', op.exec m = some m' ∧ m'.Confined size) ↔ op.Fits size := by
  have total : ∀ m', op.exec m = some m' →
      ((∃ m', op.exec m = some m' ∧ m'.Confined size) ↔ m'.Confined size) := by
    intro m' e
    rw [e]
    simp
  cases op with
  | write addr val | writeMut addr val =>
    rw [total (m.writeBytes addr [val]) rfl, h.writeBytes_iff]
    exact fits_byte_iff addr val
  | writeRange addr data =>
    refine iff_of_true ?_ trivial
    simp only [exec, m.writeRange_eq]
    by_cases hin : m.addrInBounds addr data.length = true
    · refine ⟨m.writeBytes addr data, by rw [if_pos hin]; rfl, ?_⟩
      have hle := ((m.addrInBounds_iff addr data.length).mp hin).2
      rw [h.1] at hle
      refine (h.writeBytes_iff addr data).mpr fun i hi ha => absurd ha ?_
      exact not_le.mpr (lt_of_lt_of_le (Nat.add_lt_add_left hi addr) hle)
    · exact ⟨m, by rw [if_neg hin]; rfl, h⟩
  | writeRangeMut addr data =>
    by_cases hlt : addr + data.length < u64Size ∨ data = []
    · have e : (MemOp.writeRangeMut addr data).exec m = some (m.writeBytes addr data) :=
        (m.writeRangeMut_eq addr data).trans (if_pos hlt)
      rw [total _ e, h.writeBytes_iff]
      exact (and_iff_right hlt).symm
    · have e : (MemOp.writeRangeMut addr data).exec m = none :=
        (m.writeRangeMut_eq addr data).trans (if_neg hlt)
      rw [e]
      refine iff_of_false ?_ fun hf => hlt hf.1
      rintro ⟨_, hn, _⟩
      cases hn

end

/-! ## any writes -/

/-- **Main result**: from fresh memory, no write of a sequence leaves the address space and no byte
outside the bounds is ever nonzero exactly if every single byte is written within the bounds or is
zero, and every range written in place ends below the end of the address space, with zeros only
outside the bounds. -/
theorem confined_iff_fits (size : Size) (ops : List MemOp) :
    (∀ n, ∃ m, runOpt MemOp.exec (.empty size) (ops.take n) = some m ∧ m.bounds = size ∧
      ∀ a, size ≤ a → m.read a = 0) ↔ ∀ op ∈ ops, op.Fits size :=
  runOpt_prefixes_iff (P := LinearMemory.Confined size) (fun _ op h => op.confined_iff h) ops
    ⟨rfl, fun _ _ => rfl⟩

/-- memory of size 8: a byte at address 9 is written, and a range whose last byte is at the last
address leaves the address space -/
theorem write_outside :
    (∃ m, runOpt MemOp.exec (.empty 8) [.writeMut 9 1] = some m ∧ m.bounds = 8 ∧ m.read 9 = 1) ∧
      runOpt MemOp.exec (.empty 8) [.writeRangeMut (u64Size - 1) [0]] = none := by
  refine ⟨⟨_, rfl, rfl, ?_⟩, ?_⟩
  · rw [LinearMemory.read_writeMut, Function.update_self]
  · rw [runOpt_cons]
    simp only [MemOp.exec, LinearMemory.writeRangeMut_eq]
    rw [if_neg (by decide)]
    rfl

end LionCore
