import LionCore.Base.Run
import LionCore.State.Memory

/-!
# Plugin memory as a flat array of bytes

* `read_writeMut`, `read_writeBytes`   what a write changes, one byte or several one at a time;
* `writeLoop_eq`, `readLoop_eq`        the two loops over pages do what a loop over bytes does;
* `paged_refines_flat`                 **main result**: memory that is written within its bounds is
                                       a total function, which the writes update and the reads list;
* `long_read_overflows`                a range within the bounds can be too long to be read.
-/

namespace LionCore
open Base

/-! ## pages -/

namespace LinearMemory
section
variable (m : LinearMemory)

theorem addrInBounds_iff (addr : MemAddr) (len : Size) :
    m.addrInBounds addr len = true ↔ addr + len < u64Size ∧ addr + len ≤ m.bounds := by
  unfold addrInBounds checkedAdd64
  by_cases h : addr + len < u64Size <;> simp [h]

/-- a page that was not touched reads as zeros -/
theorem read_eq (addr : MemAddr) :
    m.read addr = (m.pageMut (pageOf addr)).get ⟨offsetInPage addr, offsetInPage_lt addr⟩ := by
  unfold read pageMut
  cases m.pages.get (pageOf addr) with
  | none => exact (Vector.getElem_replicate (offsetInPage_lt addr)).symm
  | some page => rfl

theorem pageMut_putPage (pg pg' : Nat) (page : Vector UInt8 pageSize) :
    (m.putPage pg page).pageMut pg' = if pg' = pg then page else m.pageMut pg' := by
  unfold pageMut putPage
  rw [SortedMap.get_insert]
  split <;> rfl

theorem putPage_putPage (pg : Nat) (page page' : Vector UInt8 pageSize) :
    (m.putPage pg page).putPage pg page' = m.putPage pg page' := by
  unfold putPage
  rw [SortedMap.insert_insert]

/-! ## writing byte by byte -/

/-- one byte is written, and no other changes -/
theorem read_writeMut (addr : MemAddr) (val : UInt8) :
    (m.writeMut addr val).read = Function.update m.read addr val := by
  funext x
  unfold writeMut
  rw [read_eq, pageMut_putPage]
  by_cases hx : x = addr
  · subst hx
    rw [if_pos rfl, Function.update_self]
    exact Vector.getElem_set_self (offsetInPage_lt x)
  · rw [Function.update_of_ne hx, read_eq]
    by_cases hp : pageOf x = pageOf addr
    · have ho : offsetInPage addr ≠ offsetInPage x := fun ho => hx (addr_ext pageBits hp ho.symm)
      rw [if_pos hp, hp]
      exact Vector.getElem_set_ne (offsetInPage_lt addr) (offsetInPage_lt x) ho
    · rw [if_neg hp]

end

/-- the bytes are written one at a time with `write_mut` -/
def writeBytes : LinearMemory → MemAddr → List UInt8 → LinearMemory
  | m, _, [] => m
  | m, addr, b :: bs => writeBytes (m.writeMut addr b) (addr + 1) bs

section
variable (m : LinearMemory) (addr : MemAddr)

theorem bounds_writeBytes (data : List UInt8) : (m.writeBytes addr data).bounds = m.bounds := by
  induction data generalizing m addr with
  | nil => rfl
  | cons b data ih => exact ih (m.writeMut addr b) (addr + 1)

theorem read_writeBytes (data : List UInt8) :
    (m.writeBytes addr data).read = blit m.read addr data := by
  induction data generalizing m addr with
  | nil => exact (blit_nil m.read addr).symm
  | cons b data ih =>
    rw [blit_cons, ← read_writeMut]
    exact ih (m.writeMut addr b) (addr + 1)

theorem writeBytes_append (xs ys : List UInt8) :
    m.writeBytes addr (xs ++ ys) = (m.writeBytes addr xs).writeBytes (addr + xs.length) ys := by
  induction xs generalizing m addr with
  | nil => rfl
  | cons x xs ih =>
    have h := ih (m.writeMut addr x) (addr + 1)
    rw [Nat.add_assoc, Nat.add_comm 1] at h
    exact h

end

/-! ## one page at a time -/

/-- a copy into one page writes its bytes one at a time -/
theorem putPage_copyInto (m : LinearMemory) (pos : MemAddr) {bytes : List UInt8}
    (hne : bytes ≠ []) (h : offsetInPage pos + bytes.length ≤ pageSize) :
    m.putPage (pageOf pos) (copyInto (m.pageMut (pageOf pos)) (offsetInPage pos) bytes) =
      m.writeBytes pos bytes := by
  induction bytes generalizing m pos with
  | nil => exact absurd rfl hne
  | cons b bytes ih =>
    rw [copyInto_cons _ (offsetInPage_lt pos)]
    cases bytes with
    | nil =>
      rw [copyInto_nil]
      rfl
    | cons b' bytes =>
      rw [List.length_cons, List.length_cons] at h
      have hin : offsetInPage pos + 1 < pageSize := by omega
      obtain ⟨hpage, hoff⟩ : pageOf (pos + 1) = pageOf pos ∧
        offsetInPage (pos + 1) = offsetInPage pos + 1 := same_page pageBits hin
      have hrest := ih (m.writeMut pos b) (pos + 1) nofun
        (by rw [hoff, List.length_cons]; omega)
      unfold writeMut at hrest
      rw [hpage, hoff, pageMut_putPage, if_pos rfl, putPage_putPage] at hrest
      exact hrest

/-- what a loop moves at once is something, not more than is left, and within one page -/
theorem chunk_spec (pos : MemAddr) {left : Nat} (h : 0 < left) :
    0 < min (pageSize - offsetInPage pos) left ∧ min (pageSize - offsetInPage pos) left ≤ left ∧
      offsetInPage pos + min (pageSize - offsetInPage pos) left ≤ pageSize := by
  have hoff := offsetInPage_lt pos
  refine ⟨lt_min (by omega) h, min_le_right _ _, ?_⟩
  have hmin := min_le_left (pageSize - offsetInPage pos) left
  omega

/-- the loop writes the rest of the data one at a time, unless the position leaves the address
space -/
theorem writeLoop_eq (data : List UInt8) (m : LinearMemory) (pos srcOff : Nat) :
    writeLoop data m pos srcOff =
      if pos + (data.length - srcOff) < u64Size ∨ data.length ≤ srcOff then
        some (m.writeBytes pos (data.drop srcOff))
      else none := by
  generalize hn : data.length - srcOff = n
  induction n using Nat.strong_induction_on generalizing m pos srcOff with
  | _ n ih =>
    subst hn
    rw [writeLoop]
    by_cases h : srcOff < data.length
    · rw [dif_pos h]
      obtain ⟨hpos, hrest, hfit⟩ := chunk_spec pos (Nat.sub_pos_of_lt h)
      simp only
      generalize min (pageSize - offsetInPage pos) (data.length - srcOff) = chunk at *
      have hlen : ((data.drop srcOff).take chunk).length = chunk := by
        rw [List.length_take, List.length_drop]
        omega
      have hne : (data.drop srcOff).take chunk ≠ [] := by
        intro e
        rw [e] at hlen
        exact absurd hlen (by simpa using hpos.ne)
      rw [putPage_copyInto m pos hne (by rwa [hlen])]
      unfold checkedAdd64
      by_cases hadd : pos + chunk < u64Size
      · have hsplit : data.drop srcOff =
            (data.drop srcOff).take chunk ++ data.drop (srcOff + chunk) := by
          rw [← List.drop_drop, List.take_append_drop]
        rw [if_pos hadd]
        simp only
        rw [ih (data.length - (srcOff + chunk)) (by omega) _ _ _ rfl]
        conv_rhs => rw [hsplit, writeBytes_append, hlen]
        have hiff : pos + chunk + (data.length - (srcOff + chunk)) < u64Size ∨
            data.length ≤ srcOff + chunk ↔
            pos + (data.length - srcOff) < u64Size ∨ data.length ≤ srcOff := by
          omega
        simp only [hiff]
      · rw [if_neg hadd, if_neg (by omega)]
    · rw [dif_neg h, if_pos (by omega), List.drop_eq_nil_of_le (by omega)]
      rfl

theorem writeRangeMut_eq (m : LinearMemory) (addr : MemAddr) (data : List UInt8) :
    m.writeRangeMut addr data =
      if addr + data.length < u64Size ∨ data = [] then some (m.writeBytes addr data)
      else none := by
  unfold writeRangeMut
  rw [writeLoop_eq, Nat.sub_zero, List.drop_zero]
  simp only [Nat.le_zero, List.length_eq_zero_iff]

/-- within the bounds the loop cannot leave the address space -/
theorem writeRange_eq (m : LinearMemory) (addr : MemAddr) (data : List UInt8) :
    m.writeRange addr data = some (if m.addrInBounds addr data.length = true then
      .ok (m.writeBytes addr data) else .error (.outOfBounds addr data.length m.bounds)) := by
  unfold writeRange
  by_cases h : m.addrInBounds addr data.length = true
  · have hlt := ((m.addrInBounds_iff addr data.length).mp h).1
    rw [if_pos h, if_pos h, writeRangeMut_eq, if_pos (Or.inl hlt)]
    rfl
  · rw [if_neg h, if_neg h]

/-! ## reading -/

theorem pageBytes_eq (m : LinearMemory) (pos : MemAddr) {chunk : Nat}
    (h : offsetInPage pos + chunk ≤ pageSize) :
    m.pageBytes (pageOf pos) (offsetInPage pos) chunk =
      (List.range chunk).map fun i => m.read (pos + i) := by
  have hslice : m.pageBytes (pageOf pos) (offsetInPage pos) chunk =
      ((m.pageMut (pageOf pos)).toList.drop (offsetInPage pos)).take chunk := by
    unfold pageBytes pageMut
    cases m.pages.get (pageOf pos) with
    | none =>
      rw [Option.getD_none, Vector.toList_replicate, List.drop_replicate, List.take_replicate,
        Nat.min_eq_left (by omega)]
    | some page => rfl
  rw [hslice]
  refine List.ext_getElem ?_ fun i hi hi' => ?_
  · rw [List.length_take, List.length_drop, Vector.length_toList, List.length_map,
      List.length_range]
    omega
  · rw [List.length_map, List.length_range] at hi'
    have hin : offsetInPage pos + i < pageSize := by omega
    obtain ⟨hpage, hoff⟩ : pageOf (pos + i) = pageOf pos ∧
      offsetInPage (pos + i) = offsetInPage pos + i := same_page pageBits hin
    rw [List.getElem_take, List.getElem_drop, List.getElem_map, List.getElem_range, read_eq]
    simp only [hpage, hoff]
    rfl

theorem readLoop_eq (m : LinearMemory) (last pos : Nat) (result : List UInt8) :
    m.readLoop last pos result =
      result ++ (List.range (last - pos)).map fun i => m.read (pos + i) := by
  generalize hn : last - pos = n
  induction n using Nat.strong_induction_on generalizing pos result with
  | _ n ih =>
    subst hn
    rw [readLoop]
    by_cases h : pos < last
    · rw [dif_pos h]
      obtain ⟨hpos, hrest, hfit⟩ := chunk_spec pos (Nat.sub_pos_of_lt h)
      simp only
      generalize min (pageSize - offsetInPage pos) (last - pos) = chunk at *
      have hrange : last - pos = chunk + (last - (pos + chunk)) := by omega
      rw [pageBytes_eq m pos hfit, ih (last - (pos + chunk)) (by omega) _ _ rfl, hrange,
        List.range_add, List.map_append, List.map_map, List.append_assoc]
      refine congrArg (fun l => _ ++ (_ ++ l)) (List.map_congr_left fun i _ => ?_)
      rw [Nat.add_assoc]
      rfl
    · rw [dif_neg h, show last - pos = 0 by omega]
      simp

theorem readRange_eq (m : LinearMemory) (addr : MemAddr) (len : Size) :
    m.readRange addr len = if m.addrInBounds addr len = true then
      if len ≤ isizeMax then some (.ok ((List.range len).map fun i => m.read (addr + i)))
      else none
      else some (.error (.outOfBounds addr len m.bounds)) := by
  unfold readRange
  rw [readLoop_eq, Nat.add_sub_cancel_left]
  rfl

end LinearMemory

/-! ## runs -/

inductive MemOp
  | write (addr : MemAddr) (val : UInt8)
  | writeMut (addr : MemAddr) (val : UInt8)
  | writeRange (addr : MemAddr) (data : List UInt8)
  | writeRangeMut (addr : MemAddr) (data : List UInt8)
  deriving DecidableEq

namespace MemOp

/-- a range that is refused leaves the old memory; `none` is a write that leaves the address
space -/
def exec (m : LinearMemory) : MemOp → Option LinearMemory
  | .write addr val => some (m.write addr val)
  | .writeMut addr val => some (m.writeMut addr val)
  | .writeRange addr data => (m.writeRange addr data).map fun res => res.toOption.getD m
  | .writeRangeMut addr data => m.writeRangeMut addr data

def addr : MemOp → MemAddr
  | .write addr _ | .writeMut addr _ | .writeRange addr _ | .writeRangeMut addr _ => addr

def data : MemOp → List UInt8
  | .write _ val | .writeMut _ val => [val]
  | .writeRange _ data | .writeRangeMut _ data => data

/-- the range of the write ends within the bounds -/
def InBounds (size : Size) (op : MemOp) : Prop :=
  op.addr + op.data.length < u64Size ∧ op.addr + op.data.length ≤ size

/-- the same write on a flat array -/
def flat (f : Nat → UInt8) (op : MemOp) : Nat → UInt8 := blit f op.addr op.data

theorem exec_inBounds {m : LinearMemory} {op : MemOp} (h : op.InBounds m.bounds) :
    op.exec m = some (m.writeBytes op.addr op.data) := by
  cases op with
  | write addr val | writeMut addr val => rfl
  | writeRange addr data =>
    have hin := (m.addrInBounds_iff addr data.length).mpr h
    simp only [exec, m.writeRange_eq, if_pos hin]
    rfl
  | writeRangeMut addr data =>
    exact (m.writeRangeMut_eq addr data).trans (if_pos (Or.inl h.1))

/-- writes within the bounds go through, and do what they do on a flat array -/
theorem run_flat (ops : List MemOp) {m : LinearMemory} (hops : ∀ op ∈ ops, op.InBounds m.bounds) :
    ∃ m', runOpt exec m ops = some m' ∧ m'.bounds = m.bounds ∧ m'.read = run flat m.read ops := by
  induction ops generalizing m with
  | nil => exact ⟨m, rfl, rfl, rfl⟩
  | cons op ops ih =>
    have hb := m.bounds_writeBytes op.addr op.data
    obtain ⟨m', hrun, hbounds, hread⟩ := ih (m := m.writeBytes op.addr op.data)
      fun o ho => hb.symm ▸ hops o (List.mem_cons_of_mem op ho)
    refine ⟨m', ?_, hbounds.trans hb, ?_⟩
    · rw [runOpt_cons, exec_inBounds (hops op List.mem_cons_self)]
      exact hrun
    · rw [hread, m.read_writeBytes]
      rfl

end MemOp

/-- ranges are written and read as on the flat array `m.read`, and refused exactly if they leave
the bounds; a range within them that is too long for a vector cannot be read -/
structure LinearMemory.ActsFlat (m : LinearMemory) : Prop where
  writes : ∀ addr data, m.addrInBounds addr data.length = true →
    ∃ m', m.writeRange addr data = some (.ok m') ∧ m'.read = blit m.read addr data ∧
      m' = m.writeBytes addr data ∧ m'.bounds = m.bounds
  refuses : ∀ addr data, m.addrInBounds addr data.length = false →
    m.writeRange addr data = some (.error (.outOfBounds addr data.length m.bounds))
  reads : ∀ addr len, m.addrInBounds addr len = true → len ≤ isizeMax →
    m.readRange addr len = some (.ok ((List.range len).map fun i => m.read (addr + i)))
  overflows : ∀ addr len, m.addrInBounds addr len = true → isizeMax < len →
    m.readRange addr len = none
  refusesRead : ∀ addr len, m.addrInBounds addr len = false →
    m.readRange addr len = some (.error (.outOfBounds addr len m.bounds))

theorem LinearMemory.actsFlat (m : LinearMemory) : m.ActsFlat where
  writes addr data h := by
    refine ⟨m.writeBytes addr data, ?_, m.read_writeBytes addr data, rfl,
      m.bounds_writeBytes addr data⟩
    rw [writeRange_eq, if_pos h]
  refuses addr data h := by
    rw [writeRange_eq, if_neg (by rw [h]; nofun)]
  reads addr len h hlen := by
    rw [readRange_eq, if_pos h, if_pos hlen]
  overflows addr len h hlen := by
    rw [readRange_eq, if_pos h, if_neg hlen.not_ge]
  refusesRead addr len h := by
    rw [readRange_eq, if_neg (by rw [h]; nofun)]

/-- **Main result**: writes within the bounds all go through; the memory that they leave has the
same bounds, reads as the flat array after the same writes, and its ranges act as those of a flat
array, up to the length of a vector. -/
theorem paged_refines_flat (size : Size) (ops : List MemOp)
    (hops : ∀ op ∈ ops, op.InBounds size) :
    ∃ m, runOpt MemOp.exec (.empty size) ops = some m ∧ m.bounds = size ∧
      m.read = run MemOp.flat (fun _ => 0) ops ∧ m.ActsFlat := by
  obtain ⟨m, hrun, hbounds, hread⟩ := MemOp.run_flat ops (m := .empty size) hops
  exact ⟨m, hrun, hbounds, hread, m.actsFlat⟩

/-- three bytes across the first page boundary, and one of them again -/
def sampleWrites : List MemOp := [.writeRange 4094 [1, 2, 3], .writeMut 4096 7]

theorem paged_refines_flat_sample :
    ∃ m, runOpt MemOp.exec (.empty 8192) sampleWrites = some m ∧ m.bounds = 8192 ∧
      m.read = run MemOp.flat (fun _ => 0) sampleWrites ∧ m.ActsFlat :=
  paged_refines_flat 8192 sampleWrites
    (List.forall_mem_cons.mpr ⟨⟨by decide, by decide⟩,
      List.forall_mem_singleton.mpr ⟨by decide, by decide⟩⟩)

/-- a range of `2 ^ 63` bytes is within the bounds, and no vector can hold it -/
theorem long_read_overflows :
    (LinearMemory.empty (u64Size - 1)).addrInBounds 0 (2 ^ 63) = true ∧
      (LinearMemory.empty (u64Size - 1)).readRange 0 (2 ^ 63) = none := by
  have h : (LinearMemory.empty (u64Size - 1)).addrInBounds 0 (2 ^ 63) = true := by decide
  exact ⟨h, (LinearMemory.actsFlat _).overflows 0 (2 ^ 63) h (by decide)⟩

example : (List.range 4).map (fun i => run MemOp.flat (fun _ => 0) sampleWrites (4094 + i)) =
    [1, 2, 7, 0] := by decide

end LionCore
