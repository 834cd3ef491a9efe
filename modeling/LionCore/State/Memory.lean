import LionCore.Base.Paged
import LionCore.Base.Table
import LionCore.Types.Basic

/-!
# Plugin memory and the ghost record of addresses

* `MetaState.freeMut_cases`   the mutating way to free succeeds exactly on live addresses, and
                              changes nothing otherwise.
-/

namespace LionCore
open Base

inductive MemoryError
  | outOfBounds (addr : MemAddr) (len bounds : Size)
  | doubleFree (addr : MemAddr)
  | useAfterFree (addr : MemAddr)
  | notAllocated (addr : MemAddr)
  deriving DecidableEq, Repr

def pageBits : Nat := 12

def pageSize : Nat := 4096

/-- `isize::MAX`, the number of bytes that a vector can hold at most -/
def isizeMax : Nat := 2 ^ 63 - 1

def pageOf (addr : MemAddr) : Nat := addr >>> pageBits

def offsetInPage (addr : MemAddr) : Nat := addr &&& (2 ^ pageBits - 1)

theorem offsetInPage_lt (addr : MemAddr) : offsetInPage addr < pageSize :=
  offset_lt pageBits addr

/-- pages that were touched, and the size in bytes -/
structure LinearMemory where
  pages : SortedMap Nat (Vector UInt8 pageSize)
  bounds : Size
  deriving DecidableEq

namespace LinearMemory

def empty (size : Size) : LinearMemory := ⟨SortedMap.empty, size⟩

def addrInBounds (m : LinearMemory) (addr : MemAddr) (len : Size) : Bool :=
  match checkedAdd64 addr len with
  | some last => last ≤ m.bounds
  | none => false

/-- addresses that were not written are zero -/
def read (m : LinearMemory) (addr : MemAddr) : UInt8 :=
  match m.pages.get (pageOf addr) with
  | some page => page.get ⟨offsetInPage addr, offsetInPage_lt addr⟩
  | none => 0

/-- `entry(pg).or_insert_with(..)`: the page, or a fresh one -/
def pageMut (m : LinearMemory) (pg : Nat) : Vector UInt8 pageSize :=
  (m.pages.get pg).getD (.replicate pageSize 0)

/-- the page is changed in place -/
def putPage (m : LinearMemory) (pg : Nat) (page : Vector UInt8 pageSize) : LinearMemory :=
  { m with pages := m.pages.insert pg page }

/-- no check of the bounds -/
def writeMut (m : LinearMemory) (addr : MemAddr) (val : UInt8) : LinearMemory :=
  m.putPage (pageOf addr)
    ((m.pageMut (pageOf addr)).set (offsetInPage addr) val (offsetInPage_lt addr))

def write (m : LinearMemory) (addr : MemAddr) (val : UInt8) : LinearMemory := m.writeMut addr val

/-- what `read_range` takes from one page -/
def pageBytes (m : LinearMemory) (pg off chunk : Nat) : List UInt8 :=
  match m.pages.get pg with
  | some page => (page.toList.drop off).take chunk
  | none => .replicate chunk 0

/-- the loop of `read_range`: from `pos` on, page by page -/
def readLoop (m : LinearMemory) (last pos : Nat) (result : List UInt8) : List UInt8 :=
  if _h : pos < last then
    let off := offsetInPage pos
    let chunk := min (pageSize - off) (last - pos)
    readLoop m last (pos + chunk) (result ++ m.pageBytes (pageOf pos) off chunk)
  else result
termination_by last - pos
decreasing_by
  have hoff := offsetInPage_lt pos
  omega

/-- `none` is the capacity overflow of the vector that is to hold the bytes, a panic -/
def readRange (m : LinearMemory) (addr : MemAddr) (len : Size) :
    Option (Except MemoryError (List UInt8)) :=
  if m.addrInBounds addr len then
    if len ≤ isizeMax then some (.ok (m.readLoop (addr + len) addr []))
    else none
  else some (.error (.outOfBounds addr len m.bounds))

/-- the loop of `write_range_mut`: the bytes of `data` from `srcOff` on, page by page; `none` when
the position leaves the address space, which is a panic or a wrap to address 0 -/
def writeLoop (data : List UInt8) (m : LinearMemory) (pos srcOff : Nat) : Option LinearMemory :=
  if _h : srcOff < data.length then
    let off := offsetInPage pos
    let chunk := min (pageSize - off) (data.length - srcOff)
    let m' := m.putPage (pageOf pos)
      (copyInto (m.pageMut (pageOf pos)) off ((data.drop srcOff).take chunk))
    match checkedAdd64 pos chunk with
    | none => none
    | some pos' => writeLoop data m' pos' (srcOff + chunk)
  else some m
termination_by data.length - srcOff
decreasing_by
  have hoff := offsetInPage_lt pos
  omega

def writeRangeMut (m : LinearMemory) (addr : MemAddr) (data : List UInt8) : Option LinearMemory :=
  writeLoop data m addr 0

def writeRange (m : LinearMemory) (addr : MemAddr) (data : List UInt8) :
    Option (Except MemoryError LinearMemory) :=
  if m.addrInBounds addr data.length then (m.writeRangeMut addr data).map .ok
  else some (.error (.outOfBounds addr data.length m.bounds))

end LinearMemory

inductive ResourceStatus
  | unallocated
  | allocated (owner : PluginId)
  | freed
  deriving DecidableEq, Repr

def ResourceStatus.owner : ResourceStatus → Option PluginId
  | .allocated owner => some owner
  | _ => none

/-- ghost state: the status of every address and the sorted set of freed ones -/
structure MetaState where
  resources : SortedMap MemAddr ResourceStatus
  freedSet : List MemAddr
  deriving DecidableEq

namespace MetaState

def empty : MetaState := ⟨SortedMap.empty, []⟩

def isFreed (m : MetaState) (addr : MemAddr) : Bool := has m.freedSet addr

def isLive (m : MetaState) (addr : MemAddr) : Bool :=
  match m.resources.get addr with
  | some (.allocated _) => !m.isFreed addr
  | _ => false

def getStatus (m : MetaState) (addr : MemAddr) : Option ResourceStatus := m.resources.get addr

def resourceCount (m : MetaState) : Nat := m.resources.len

def alloc (m : MetaState) (addr : MemAddr) (owner : PluginId) : MetaState :=
  { m with resources := m.resources.insert addr (.allocated owner) }

def allocMut (m : MetaState) (addr : MemAddr) (owner : PluginId) : MetaState :=
  { m with resources := m.resources.insert addr (.allocated owner) }

/-- the freed set grows, the status is left as it was -/
def free (m : MetaState) (addr : MemAddr) : MetaState :=
  { m with freedSet := insertKey m.freedSet addr }

/-- only an allocated address can be freed, and its status changes too -/
def freeMut (m : MetaState) (addr : MemAddr) : Except MemoryError Unit × MetaState :=
  if m.isFreed addr then (.error (.doubleFree addr), m)
  else match m.resources.get addr with
    | some (.allocated _) =>
      (.ok (), ⟨m.resources.insert addr .freed, insertKey m.freedSet addr⟩)
    | some .freed => (.error (.doubleFree addr), m)
    | _ => (.error (.notAllocated addr), m)

theorem isLive_iff (m : MetaState) (addr : MemAddr) :
    m.isLive addr = true ↔
      (∃ owner, m.getStatus addr = some (.allocated owner)) ∧ m.isFreed addr = false := by
  unfold isLive getStatus
  cases m.resources.get addr with
  | none => simp
  | some st => cases st <;> simp

theorem freeMut_cases (m : MetaState) (addr : MemAddr) :
    (m.isLive addr = true ∧ m.freeMut addr =
      (.ok (), ⟨m.resources.insert addr .freed, insertKey m.freedSet addr⟩)) ∨
    (m.isLive addr = false ∧ ∃ e, m.freeMut addr = (.error e, m)) := by
  unfold freeMut isLive
  cases hf : m.isFreed addr with
  | true =>
    refine Or.inr ⟨?_, .doubleFree addr, rfl⟩
    cases m.resources.get addr with
    | none => rfl
    | some st => cases st <;> rfl
  | false =>
    cases hs : m.resources.get addr with
    | none => exact Or.inr ⟨rfl, .notAllocated addr, rfl⟩
    | some st =>
      cases st with
      | allocated owner => exact Or.inl ⟨rfl, rfl⟩
      | freed => exact Or.inr ⟨rfl, .doubleFree addr, rfl⟩
      | unallocated => exact Or.inr ⟨rfl, .notAllocated addr, rfl⟩

theorem freeMut_ok {m m' : MetaState} {addr : MemAddr} (h : m.freeMut addr = (.ok (), m')) :
    m.isLive addr = true ∧ m' = ⟨m.resources.insert addr .freed, insertKey m.freedSet addr⟩ := by
  rcases freeMut_cases m addr with ⟨hlive, e⟩ | ⟨_, e', e⟩
  · rw [e] at h
    exact ⟨hlive, (Prod.mk.inj h).2.symm⟩
  · rw [e] at h
    cases h

end MetaState
end LionCore
