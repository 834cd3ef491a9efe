import Mathlib.Algebra.Group.Nat.Defs
import Mathlib.Data.Nat.Basic
import Mathlib.Order.Basic

/-!
# Identifiers and security levels

Identifiers are `u128`, times, sizes and addresses `u64`; both are naturals here, and the places
where the code checks or cuts the width do so explicitly.
-/

namespace LionCore

abbrev PluginId := Nat
abbrev ActorId := Nat
abbrev ResourceId := Nat
abbrev CapId := Nat
abbrev WorkflowId := Nat
abbrev MsgId := Nat
abbrev ThreadId := Nat
abbrev Time := Nat
abbrev Size := Nat
abbrev MemAddr := Nat

/-- the first value that a `u64` cannot hold -/
def u64Size : Nat := 2 ^ 64

/-- the first value that a `u128` cannot hold -/
def u128Size : Nat := 2 ^ 128

/-- `u64::checked_add` -/
def checkedAdd64 (a b : Nat) : Option Nat := if a + b < u64Size then some (a + b) else none

/-- `u128::checked_add` -/
def checkedAdd128 (a b : Nat) : Option Nat := if a + b < u128Size then some (a + b) else none

/-- `u64::saturating_add` -/
def saturatingAdd64 (a b : Nat) : Nat := min (a + b) (u64Size - 1)

/-- `u64::saturating_mul` -/
def saturatingMul64 (a b : Nat) : Nat := min (a * b) (u64Size - 1)

/-- `as u64` -/
def asU64 (a : Nat) : Nat := a % u64Size

theorem asU64_of_lt {a : Nat} (h : a < u64Size) : asU64 a = a := Nat.mod_eq_of_lt h

/-! ### saturating arithmetic is exact up to its cap -/

/-- the `u64` that saturating arithmetic gives for `a` -/
def cap64 (a : Nat) : Nat := min a (u64Size - 1)

section
variable {a b : Nat}

theorem saturatingAdd64_eq (a b : Nat) : saturatingAdd64 a b = cap64 (a + b) := rfl

theorem saturatingMul64_eq (a b : Nat) : saturatingMul64 a b = cap64 (a * b) := rfl

@[simp] theorem cap64_add_left : cap64 (cap64 a + b) = cap64 (a + b) := by
  unfold cap64
  omega

@[simp] theorem cap64_add_right : cap64 (a + cap64 b) = cap64 (a + b) := by
  unfold cap64
  omega

@[simp] theorem cap64_mul_left (hb : 0 < b) : cap64 (cap64 a * b) = cap64 (a * b) := by
  unfold cap64
  rcases Nat.le_total a (u64Size - 1) with h | h
  · rw [Nat.min_eq_left h]
  · have hself : u64Size - 1 ≤ (u64Size - 1) * b := Nat.le_mul_of_pos_right _ hb
    have hle : (u64Size - 1) * b ≤ a * b := Nat.mul_le_mul_right b h
    rw [Nat.min_eq_right h, Nat.min_eq_right hself, Nat.min_eq_right (hself.trans hle)]

theorem cap64_lt_iff : cap64 a < cap64 b ↔ a < b ∧ a < u64Size - 1 := by
  unfold cap64
  omega

end

/-! ## security levels -/

inductive SecurityLevel
  | Public | Internal | Confidential | Secret
  deriving DecidableEq, Repr

namespace SecurityLevel

def toU8 : SecurityLevel → Nat
  | .Public => 0
  | .Internal => 1
  | .Confidential => 2
  | .Secret => 3

def fromU8 : Nat → Option SecurityLevel
  | 0 => some .Public
  | 1 => some .Internal
  | 2 => some .Confidential
  | 3 => some .Secret
  | _ => none

theorem toU8_injective : Function.Injective toU8 := by
  intro a b h
  cases a <;> cases b <;> first | rfl | cases h

/-- the order of `to_u8` -/
instance : LinearOrder SecurityLevel := LinearOrder.lift' toU8 toU8_injective

end SecurityLevel
end LionCore
