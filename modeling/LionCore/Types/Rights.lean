import LionCore.Types.Basic

/-!
# Rights: a set of ten rights in a 16-bit word

* `Rights.isSubsetOf_iff`    the mask test is inclusion of the sets of rights;
* `Rights.intersection_le`   an intersection never has more rights than either side.
-/

namespace LionCore

inductive Right
  | read | write | execute | create | delete | send | receive | delegate | revoke | declassify
  deriving DecidableEq, Repr

def Right.toU8 : Right → Nat
  | .read => 0
  | .write => 1
  | .execute => 2
  | .create => 3
  | .delete => 4
  | .send => 5
  | .receive => 6
  | .delegate => 7
  | .revoke => 8
  | .declassify => 9

def Right.asMask (r : Right) : BitVec 16 := 1#16 <<< r.toU8

def allRightsMask : BitVec 16 := 0x03FF#16

/-- bit `i` is the right with number `i`; the upper six bits are never set -/
structure Rights where
  bits : BitVec 16
  inMask : bits &&& ~~~allRightsMask = 0#16
  deriving DecidableEq

namespace Rights

@[ext] theorem ext {r₁ r₂ : Rights} (h : r₁.bits = r₂.bits) : r₁ = r₂ := by
  cases r₁
  cases r₂
  cases h
  rfl

theorem asMask_inMask (r : Right) : r.asMask &&& ~~~allRightsMask = 0#16 := by
  cases r <;> decide

theorem and_inMask {a : BitVec 16} (b : BitVec 16) (h : a &&& ~~~allRightsMask = 0#16) :
    a &&& b &&& ~~~allRightsMask = 0#16 := by
  rw [BitVec.and_assoc, BitVec.and_comm b, ← BitVec.and_assoc, h, BitVec.zero_and]

def empty : Rights := ⟨0#16, BitVec.zero_and⟩

def singleton (r : Right) : Rights := ⟨r.asMask, asMask_inMask r⟩

def fromBits (bits : BitVec 16) : Rights :=
  ⟨bits &&& allRightsMask, by
    rw [BitVec.and_assoc, BitVec.and_not_self]
    exact BitVec.and_zero⟩

def isEmpty (r : Rights) : Bool := r.bits == 0#16

def contains (r : Rights) (x : Right) : Bool := r.bits &&& x.asMask != 0#16

def isSubsetOf (r₁ r₂ : Rights) : Bool := r₁.bits &&& ~~~r₂.bits == 0#16

/-- confinement: the rights that both have -/
def combine (r₁ r₂ : Rights) : Rights := ⟨r₁.bits &&& r₂.bits, and_inMask _ r₁.inMask⟩

def intersection (r₁ r₂ : Rights) : Rights := r₁.combine r₂

def toBits (r : Rights) : BitVec 16 := r.bits

theorem contains_singleton (r x : Right) : (singleton r).contains x = decide (x = r) := by
  cases r <;> cases x <;> decide

/-- no bit of a set of rights is outside the mask -/
theorem fromBits_toBits (r : Rights) : fromBits r.toBits = r := by
  apply ext
  show r.bits &&& allRightsMask = r.bits
  apply BitVec.eq_of_getLsbD_eq
  intro i hlt
  have hb := congrArg (fun b => b.getLsbD i) r.inMask
  simp only [BitVec.getLsbD_and, BitVec.getLsbD_not, hlt, decide_true, Bool.true_and,
    BitVec.getLsbD_zero] at hb
  rw [BitVec.getLsbD_and]
  cases hi : r.bits.getLsbD i with
  | false => rfl
  | true =>
    rw [hi, Bool.true_and, Bool.not_eq_false'] at hb
    rw [hb]
    rfl

/-! ## inclusion -/

theorem isSubsetOf_iff (r₁ r₂ : Rights) :
    r₁.isSubsetOf r₂ = true ↔ ∀ i, r₁.bits.getLsbD i = true → r₂.bits.getLsbD i = true := by
  unfold isSubsetOf
  rw [beq_iff_eq]
  constructor
  · intro h i hi
    have hb := congrArg (fun b => b.getLsbD i) h
    simp only [BitVec.getLsbD_and, BitVec.getLsbD_not, BitVec.getLsbD_zero, hi,
      BitVec.lt_of_getLsbD hi, decide_true, Bool.true_and, Bool.not_eq_false'] at hb
    exact hb
  · intro h
    apply BitVec.eq_of_getLsbD_eq
    intro i hlt
    simp only [BitVec.getLsbD_and, BitVec.getLsbD_not, BitVec.getLsbD_zero, hlt, decide_true,
      Bool.true_and]
    cases hi : r₁.bits.getLsbD i with
    | false => rfl
    | true => rw [h i hi]; rfl

theorem isSubsetOf_refl (r : Rights) : r.isSubsetOf r = true :=
  (isSubsetOf_iff r r).mpr fun _ h => h

theorem isSubsetOf_trans {r₁ r₂ r₃ : Rights} (h₁ : r₁.isSubsetOf r₂ = true)
    (h₂ : r₂.isSubsetOf r₃ = true) : r₁.isSubsetOf r₃ = true :=
  (isSubsetOf_iff r₁ r₃).mpr fun i h =>
    (isSubsetOf_iff r₂ r₃).mp h₂ i ((isSubsetOf_iff r₁ r₂).mp h₁ i h)

theorem intersection_le (r₁ r₂ : Rights) : (r₁.intersection r₂).isSubsetOf r₂ = true := by
  rw [isSubsetOf_iff]
  intro i h
  have hb : (r₁.bits &&& r₂.bits).getLsbD i = true := h
  rw [BitVec.getLsbD_and, Bool.and_eq_true] at hb
  exact hb.2

end Rights
end LionCore
