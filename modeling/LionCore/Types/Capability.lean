import LionCore.Types.Rights

/-!
# Capabilities and their seal

The message authentication code is a parameter: a function from a key and the serialized payload
to a tag of 32 bytes.
-/

namespace LionCore

/-- 32 secret bytes -/
structure Key where
  bytes : Vector UInt8 32
  deriving DecidableEq

def Key.empty : Key := ⟨Vector.replicate 32 0⟩

/-- 32 opaque bytes -/
structure SealedTag where
  bytes : Vector UInt8 32
  deriving DecidableEq

def SealedTag.empty : SealedTag := ⟨Vector.replicate 32 0⟩

/-- a message authentication code -/
abbrev Hmac := Key → List UInt8 → SealedTag

structure CapPayload where
  holder : PluginId
  target : ResourceId
  rights : Rights
  parent : Option CapId
  epoch : Nat
  deriving DecidableEq

inductive CapabilityError
  | invalidHolder
  | emptyRights
  | invalidSignature
  | revoked
  | sealVerificationFailed
  deriving DecidableEq, Repr

structure Capability where
  id : CapId
  holder : PluginId
  target : ResourceId
  rights : Rights
  parent : Option CapId
  epoch : Nat
  valid : Bool
  signature : SealedTag
  deriving DecidableEq

namespace Capability

def new (id : CapId) (holder : PluginId) (target : ResourceId) (rights : Rights)
    (parent : Option CapId) (epoch : Nat) (signature : SealedTag) :
    Except CapabilityError Capability :=
  if holder = 0 then .error .invalidHolder
  else if rights.isEmpty then .error .emptyRights
  else .ok ⟨id, holder, target, rights, parent, epoch, true, signature⟩

def payload (c : Capability) : CapPayload := ⟨c.holder, c.target, c.rights, c.parent, c.epoch⟩

/-- the validity flag goes off, nothing else changes -/
def revoke (c : Capability) : Capability := { c with valid := false }

theorem revoke_of_invalid {c : Capability} (h : c.valid = false) : c.revoke = c := by
  cases c
  cases h
  rfl

end Capability

/-! ## serialization and seal -/

/-- the `n` low bytes of `v`, the lowest first -/
def leBytes : Nat → Nat → List UInt8
  | 0, _ => []
  | n + 1, v => UInt8.ofNat (v % 256) :: leBytes n (v / 256)

/-- 64 bytes; `none` is the panic for a parent id without successor -/
def serializePayload (p : CapPayload) : Option (List UInt8) :=
  let parentVal := match p.parent with
    | none => some 0
    | some q => checkedAdd128 q 1
  parentVal.map fun v =>
    leBytes 16 p.holder ++ leBytes 16 p.target ++ leBytes 8 p.epoch ++ leBytes 16 v ++
      leBytes 8 p.rights.toBits.toNat

/-- the tag of a payload; `none` is a panic -/
def sealPayload (hmac : Hmac) (key : Key) (p : CapPayload) : Option SealedTag :=
  (serializePayload p).map (hmac key)

/-- the parent id is all that can keep a payload from being sealed -/
theorem sealPayload_of_lt (hmac : Hmac) (key : Key) {p : CapPayload} {q : CapId}
    (hp : p.parent = some q) (hq : q + 1 < u128Size) :
    ∃ tag, sealPayload hmac key p = some tag := by
  unfold sealPayload serializePayload checkedAdd128
  simp [hp, hq]

theorem sealPayload_of_le (hmac : Hmac) (key : Key) {p : CapPayload} {q : CapId}
    (hp : p.parent = some q) (hq : u128Size ≤ q + 1) : sealPayload hmac key p = none := by
  unfold sealPayload serializePayload checkedAdd128
  simp [hp, hq]

/-- is this the tag of the payload?  `none` is a panic -/
def verifySeal (hmac : Hmac) (key : Key) (p : CapPayload) (tag : SealedTag) : Option Bool :=
  (serializePayload p).map fun data => decide (hmac key data = tag)

/-- the tags that verify are those that sealing gives -/
theorem verifySeal_iff (hmac : Hmac) (key : Key) (p : CapPayload) (tag : SealedTag) :
    verifySeal hmac key p tag = some true ↔ sealPayload hmac key p = some tag := by
  unfold verifySeal sealPayload
  cases serializePayload p <;> simp

end LionCore
