import Mathlib.Algebra.Group.Nat.Defs
import Mathlib.Data.List.Basic
import Mathlib.Logic.Function.Basic
import Mathlib.Order.Nat

/-!
# Memory that is flat, and memory in pages

* `blit`                        a list written over a total function;
* `addr_ext`, `same_page`       an address is its page and its offset, and what stays in the page;
* `copyInto`                    a list copied into a page.
-/

namespace Base

/-! ## flat memory -/

section
variable {B : Type*}

/-- `f` with `data` written over it from `addr` on -/
def blit (f : Nat → B) (addr : Nat) (data : List B) : Nat → B :=
  fun x => if addr ≤ x then (data[x - addr]?).getD (f x) else f x

variable (f : Nat → B) (addr : Nat)

theorem blit_nil : blit f addr [] = f := by
  funext x
  simp [blit]

theorem blit_below (data : List B) {x : Nat} (h : x < addr) : blit f addr data x = f x :=
  if_neg (not_le.mpr h)

theorem blit_above (data : List B) {x : Nat} (h : addr + data.length ≤ x) :
    blit f addr data x = f x := by
  unfold blit
  rw [if_pos (by omega), List.getElem?_eq_none (by omega)]
  rfl

theorem blit_at (data : List B) {i : Nat} (h : i < data.length) :
    blit f addr data (addr + i) = data[i] := by
  unfold blit
  rw [if_pos (by omega), show addr + i - addr = i by omega, List.getElem?_eq_getElem h]
  rfl

/-- one byte after the other -/
theorem blit_cons (b : B) (data : List B) :
    blit f addr (b :: data) = blit (Function.update f addr b) (addr + 1) data := by
  funext x
  unfold blit
  rcases lt_trichotomy x addr with h | rfl | h
  · rw [if_neg (by omega), if_neg (by omega), Function.update_of_ne (by omega)]
  · rw [if_pos le_rfl, if_neg (by omega), Function.update_self, Nat.sub_self]
    rfl
  · obtain ⟨d, rfl⟩ : ∃ d, x = addr + 1 + d := ⟨x - (addr + 1), by omega⟩
    rw [if_pos (by omega), if_pos (by omega), Function.update_of_ne (by omega),
      show addr + 1 + d - addr = d + 1 by omega, show addr + 1 + d - (addr + 1) = d by omega]
    rfl

end

/-! ## pages of `2 ^ k` bytes -/

section
variable (k : Nat)

theorem offset_lt (addr : Nat) : addr &&& (2 ^ k - 1) < 2 ^ k := by
  rw [Nat.and_two_pow_sub_one_eq_mod]
  exact Nat.mod_lt _ (Nat.two_pow_pos k)

/-- page and offset determine the address -/
theorem addr_ext {a b : Nat} (hp : a >>> k = b >>> k)
    (ho : a &&& (2 ^ k - 1) = b &&& (2 ^ k - 1)) : a = b := by
  rw [Nat.shiftRight_eq_div_pow, Nat.shiftRight_eq_div_pow] at hp
  rw [Nat.and_two_pow_sub_one_eq_mod, Nat.and_two_pow_sub_one_eq_mod] at ho
  rw [← Nat.div_add_mod a (2 ^ k), ← Nat.div_add_mod b (2 ^ k), hp, ho]

/-- every page has every offset -/
theorem page_offset (pg : Nat) {i : Nat} (h : i < 2 ^ k) :
    (pg <<< k + i) >>> k = pg ∧ (pg <<< k + i) &&& (2 ^ k - 1) = i := by
  rw [Nat.shiftRight_eq_div_pow, Nat.and_two_pow_sub_one_eq_mod, Nat.shiftLeft_eq, Nat.add_comm]
  constructor
  · rw [Nat.add_mul_div_right _ _ (Nat.two_pow_pos k), Nat.div_eq_of_lt h, Nat.zero_add]
  · rw [Nat.add_mul_mod_self_right, Nat.mod_eq_of_lt h]

/-- from an address on, up to the end of its page -/
theorem same_page {a i : Nat} (h : (a &&& (2 ^ k - 1)) + i < 2 ^ k) :
    (a + i) >>> k = a >>> k ∧ (a + i) &&& (2 ^ k - 1) = (a &&& (2 ^ k - 1)) + i := by
  rw [Nat.and_two_pow_sub_one_eq_mod] at h ⊢
  rw [Nat.shiftRight_eq_div_pow, Nat.shiftRight_eq_div_pow, Nat.and_two_pow_sub_one_eq_mod]
  have ha : a + i = (a % 2 ^ k + i) + 2 ^ k * (a / 2 ^ k) := by
    have hdiv := Nat.div_add_mod a (2 ^ k)
    omega
  constructor
  · rw [ha, Nat.add_mul_div_left _ _ (Nat.two_pow_pos k), Nat.div_eq_of_lt h, Nat.zero_add]
  · rw [ha, Nat.add_mul_mod_self_left, Nat.mod_eq_of_lt h]

end

/-! ## copies into a page -/

section
variable {B : Type*} {n : Nat}

/-- `copy_from_slice` into the page from `off` on -/
def copyInto (page : Vector B n) (off : Nat) (bytes : List B) : Vector B n :=
  Vector.ofFn fun i => if off ≤ i.1 then (bytes[i.1 - off]?).getD (page.get i) else page.get i

theorem getElem_copyInto (page : Vector B n) (off : Nat) (bytes : List B) {i : Nat} (hi : i < n) :
    (copyInto page off bytes)[i] =
      if off ≤ i then (bytes[i - off]?).getD page[i] else page[i] := by
  unfold copyInto
  rw [Vector.getElem_ofFn]
  rfl

theorem copyInto_nil (page : Vector B n) (off : Nat) : copyInto page off [] = page := by
  apply Vector.ext
  intro i hi
  rw [getElem_copyInto]
  simp

theorem copyInto_cons (page : Vector B n) {off : Nat} (h : off < n) (b : B) (bytes : List B) :
    copyInto page off (b :: bytes) = copyInto (page.set off b h) (off + 1) bytes := by
  apply Vector.ext
  intro i hi
  rw [getElem_copyInto, getElem_copyInto, Vector.getElem_set]
  rcases lt_trichotomy i off with hlt | rfl | hgt
  · rw [if_neg (by omega), if_neg (by omega), if_neg (by omega)]
  · rw [if_pos le_rfl, if_neg (by omega), if_pos rfl, Nat.sub_self]
    rfl
  · obtain ⟨d, rfl⟩ : ∃ d, i = off + 1 + d := ⟨i - (off + 1), by omega⟩
    rw [if_pos (by omega), if_pos (by omega), if_neg (by omega),
      show off + 1 + d - off = d + 1 by omega, show off + 1 + d - (off + 1) = d by omega]
    rfl

end
end Base
