import Mathlib.Data.List.Sort
import LionCore.Base.Table
import LionCore.Base.Worklist
import LionCore.Types.Capability
import LionCore.Types.Policy

/-!
# The kernel: capability table, keys, policy, clock and id counter

The table can be revoked in two ways: by asking for every entry whether the revoked id is among
its ancestors (`revokeTransitive`), and by a breadth-first sweep of the children index
(`revokeTransitiveFast`).  Every operation also exists in a mutating form, which gives back the
result and the state it leaves.
-/

namespace LionCore
open Base

/-! ## keys -/

structure KeyState where
  current : Key
  epoch : Nat
  previous : Option Key
  previousEpoch : Option Nat
  deriving DecidableEq

namespace KeyState

def initial (key : Key) : KeyState := ⟨key, 0, none, none⟩

def empty : KeyState := ⟨.empty, 0, none, none⟩

/-- the current key becomes the previous one; `none` is the panic when the epoch overflows, which
leaves the keys replaced -/
def rotate (k : KeyState) (newKey : Key) : Option Unit × KeyState :=
  let k' := { k with previous := some k.current, previousEpoch := some k.epoch, current := newKey }
  match checkedAdd64 k.epoch 1 with
  | some epoch => (some (), { k' with epoch })
  | none => (none, k')

def rotated (k : KeyState) (newKey : Key) : Option KeyState :=
  (checkedAdd64 k.epoch 1).map fun epoch => ⟨newKey, epoch, some k.current, some k.epoch⟩

/-- the two forms of a rotation agree -/
theorem rotated_eq (k : KeyState) (newKey : Key) :
    k.rotated newKey = (k.rotate newKey).1.map fun _ => (k.rotate newKey).2 := by
  unfold rotated rotate
  cases checkedAdd64 k.epoch 1 <;> rfl

/-- current or newer, or not older than the previous epoch -/
def epochValid (k : KeyState) (capEpoch : Nat) : Bool :=
  if capEpoch ≥ k.epoch then true
  else match k.previousEpoch with
    | some prevEpoch => decide (capEpoch ≥ prevEpoch)
    | none => false

/-- the current key is tried first, then the previous one -/
def verifySeal (hmac : Hmac) (k : KeyState) (payload : CapPayload) (tag : SealedTag) :
    Option Bool :=
  match LionCore.verifySeal hmac k.current payload tag with
  | none => none
  | some true => some true
  | some false =>
    match k.previous with
    | some prevKey => LionCore.verifySeal hmac prevKey payload tag
    | none => some false

def verifyWithEpoch (hmac : Hmac) (k : KeyState) (payload : CapPayload) (tag : SealedTag)
    (capEpoch : Nat) : Option Bool :=
  if k.epochValid capEpoch then k.verifySeal hmac payload tag else some false

/-- the end of the grace period -/
def clearPrevious (k : KeyState) : KeyState :=
  { k with previous := none, previousEpoch := none }

end KeyState

/-! ## the capability table -/

abbrev CapTable := Table CapId Capability

/-- for every parent id the ids of its children, in the order of their insertion -/
abbrev ChildrenIndex := Table CapId (List CapId)

inductive KernelError
  | capNotFound (id : CapId)
  | capIdExhausted
  | capIdCollision (id : CapId)
  | invalidCapability (msg : String)
  | counterOverflow (name : String)
  deriving DecidableEq, Repr

structure RevocationState where
  caps : CapTable
  epoch : Nat
  childrenIndex : ChildrenIndex
  deriving DecidableEq

namespace RevocationState

def empty : RevocationState := ⟨[], 0, []⟩

def get (r : RevocationState) (capId : CapId) : Option Capability := r.caps.find capId

def isValid (r : RevocationState) (capId : CapId) : Bool :=
  match r.get capId with
  | some cap => cap.valid
  | none => false

def contains (r : RevocationState) (capId : CapId) : Bool := (r.caps.findIndex capId).isSome

/-- turn one entry off -/
def revoke (r : RevocationState) (capId : CapId) : RevocationState :=
  { r with caps := r.caps.mapVal fun id cap => if id = capId then cap.revoke else cap }

def revokeMut (r : RevocationState) (capId : CapId) : Except KernelError Unit × RevocationState :=
  match r.caps.findIndex capId with
  | some _ => (.ok (), { r with caps := r.caps.modify capId Capability.revoke })
  | none => (.error (.capNotFound capId), r)

/-! ### revocation by ancestor search -/

/-- the walk up the parent chain, at most `fuel` steps -/
def hasAncestorWithFuel (r : RevocationState) (ancestorId : CapId) : Nat → CapId → Bool
  | 0, _ => false
  | fuel + 1, capId =>
    match r.get capId with
    | none => false
    | some cap =>
      match cap.parent with
      | none => false
      | some parentId =>
        if parentId = ancestorId then true else hasAncestorWithFuel r ancestorId fuel parentId

/-- the fuel is the NUMBER of the capability that is tested -/
def hasAncestor (r : RevocationState) (capId ancestorId : CapId) : Bool :=
  r.hasAncestorWithFuel ancestorId capId capId

def inRevokeSet (r : RevocationState) (k capId : CapId) : Bool :=
  decide (k = capId) || r.hasAncestor k capId

def revokeTransitive (r : RevocationState) (capId : CapId) : RevocationState :=
  { r with caps := r.caps.mapVal fun k cap => if r.inRevokeSet k capId then cap.revoke else cap }

/-- the indices to revoke are collected first, then the entries at them are turned off -/
def revokeTransitiveMut (r : RevocationState) (capId : CapId) : RevocationState :=
  let toRevoke := r.caps.zipIdx.filterMap fun e =>
    if r.inRevokeSet e.1.1 capId then some e.2 else none
  { r with caps := toRevoke.foldl (fun t i => List.modify t i fun e => (e.1, e.2.revoke)) r.caps }

/-! ### insertion -/

/-- the child goes to the end of its parent's row; a missing row is inserted at its place -/
def addChildToIndex (index : ChildrenIndex) (parentId childId : CapId) : ChildrenIndex :=
  match index.search parentId with
  | .ok idx => List.modify index idx fun e => (e.1, e.2 ++ [childId])
  | .error pos => index.insertIdx pos (parentId, [childId])

/-- the index after a capability is put into the table -/
def indexWith (r : RevocationState) (cap : Capability) : ChildrenIndex :=
  match cap.parent with
  | some parentId => addChildToIndex r.childrenIndex parentId cap.id
  | none => r.childrenIndex

def insert (r : RevocationState) (cap : Capability) : Except KernelError RevocationState :=
  match r.caps.search cap.id with
  | .ok _ => .error (.capIdCollision cap.id)
  | .error pos =>
    .ok { r with
      caps := r.caps.take pos ++ (cap.id, cap) :: r.caps.drop pos
      childrenIndex := r.indexWith cap }

def insertMut (r : RevocationState) (cap : Capability) :
    Except KernelError Unit × RevocationState :=
  match r.caps.add cap.id cap with
  | none => (.error (.capIdCollision cap.id), r)
  | some caps => (.ok (), { r with caps, childrenIndex := r.indexWith cap })

/-! ### revocation by sweeping the index -/

def getChildren (r : RevocationState) (parentId : CapId) : List CapId :=
  match r.childrenIndex.find parentId with
  | some children => children
  | none => []

/-- more rounds than the sweep can take: one for the start and one for every child in the index -/
def sweepBound (r : RevocationState) : Nat :=
  1 + (r.childrenIndex.flatMap Prod.snd).length

/-- `capId` and everything below it, in the order of the sweep -/
def collectDescendants (r : RevocationState) (capId : CapId) : List CapId :=
  Sweep.collect r.getChildren r.sweepBound capId

/-- `sort_unstable` of the collected ids, which are all different -/
def toRevoke (r : RevocationState) (capId : CapId) : List CapId :=
  (r.collectDescendants capId).insertionSort (· ≤ ·)

def revokeTransitiveFast (r : RevocationState) (capId : CapId) : RevocationState :=
  { r with
    caps := r.caps.mapVal fun k cap => if has (r.toRevoke capId) k then cap.revoke else cap }

def revokeTransitiveFastMut (r : RevocationState) (capId : CapId) :
    Except KernelError Unit × RevocationState :=
  match r.caps.findIndex capId with
  | none => (.error (.capNotFound capId), r)
  | some _ =>
    (.ok (), { r with
      caps := (r.toRevoke capId).foldl (fun t id => t.modify id Capability.revoke) r.caps })

/-- does a valid entry target this resource? -/
def anyValidTargeting (r : RevocationState) (target : ResourceId) : Bool :=
  r.caps.any fun e => e.2.valid && decide (e.2.target = target)

/-- the first valid entry that targets the resource -/
def findValidTargeting (r : RevocationState) (target : ResourceId) : Option (CapId × Capability) :=
  List.find? (fun e => e.2.valid && decide (e.2.target = target)) r.caps

theorem findValidTargeting_isSome (r : RevocationState) (target : ResourceId) :
    (r.findValidTargeting target).isSome = r.anyValidTargeting target :=
  List.isSome_find? ..

end RevocationState

/-! ## the kernel state -/

structure KernelState where
  keyState : KeyState
  policy : PolicyState
  revocation : RevocationState
  now : Time
  nextCapId : CapId
  deriving DecidableEq

namespace KernelState

def initial (key : Key) (policy : PolicyState) : KernelState :=
  ⟨.initial key, policy, .empty, 0, 0⟩

/-- zero key, deny all, no capabilities -/
def default : KernelState := ⟨.empty, .denyAll, .empty, 0, 0⟩

def rotateKey (k : KernelState) (newKey : Key) : Option Unit × KernelState :=
  match k.keyState.rotate newKey with
  | (res, keyState) => (res, { k with keyState })

def verifyCapSeal (hmac : Hmac) (k : KernelState) (cap : Capability) : Option Bool :=
  k.keyState.verifyWithEpoch hmac cap.payload cap.signature cap.epoch

def allocCapId (k : KernelState) : Except KernelError CapId × KernelState :=
  match checkedAdd128 k.nextCapId 1 with
  | some v => (.ok k.nextCapId, { k with nextCapId := v })
  | none => (.error .capIdExhausted, k)

def tickChecked (k : KernelState) : Except KernelError Unit × KernelState :=
  match checkedAdd64 k.now 1 with
  | some v => (.ok (), { k with now := v })
  | none => (.error (.counterOverflow "time"), k)

end KernelState
end LionCore
