import Mathlib.Data.List.DropRight

/-!
# Texts as lists of characters

* `trim_eq_iff`            a text without the blanks at its ends;
* `readNat_eq_some_iff`    decimal numbers below a bound, checked at every digit.
-/

namespace Base

/-! ## blanks at both ends -/

section
variable {α : Type*} (blank : α → Bool)

/-- the blanks at the beginning go, and those at the end -/
def trim (s : List α) : List α := (s.dropWhile blank).rdropWhile blank

variable {blank}

theorem rdropWhile_append_of_pos {s suf : List α} (h : ∀ c ∈ suf, blank c = true) :
    (s ++ suf).rdropWhile blank = s.rdropWhile blank := by
  induction suf using List.reverseRecOn with
  | nil => rw [List.append_nil]
  | append_singleton suf c ih =>
    rw [← List.append_assoc, List.rdropWhile_concat_pos _ _ _ (h c List.mem_concat_self)]
    exact ih fun x hx => h x (List.mem_append_left _ hx)

/-- **What is left has no blank at either end, and only blanks have gone.** -/
theorem trim_eq_iff {s t : List α} : trim blank s = t ↔
    (∃ pre suf, s = pre ++ t ++ suf ∧ (∀ c ∈ pre, blank c = true) ∧ ∀ c ∈ suf, blank c = true) ∧
      (∀ c ∈ t.head?, blank c = false) ∧ ∀ c ∈ t.getLast?, blank c = false := by
  constructor
  · rintro rfl
    refine ⟨⟨s.takeWhile blank, (s.dropWhile blank).rtakeWhile blank, ?_, fun c hc => ?_,
      fun c hc => ?_⟩, fun c hc => ?_, fun c hc => ?_⟩
    · unfold trim
      rw [List.append_assoc, List.rdropWhile_append_rtakeWhile, List.takeWhile_append_dropWhile]
    · exact List.mem_takeWhile_imp hc
    · exact List.mem_rtakeWhile_imp hc
    · -- the first character is the first behind the blanks
      obtain ⟨rest, hrest⟩ := List.rdropWhile_prefix blank (s.dropWhile blank)
      have hne : (s.dropWhile blank).rdropWhile blank ≠ [] :=
        List.ne_nil_of_mem (List.mem_of_mem_head? hc)
      have hhead : (s.dropWhile blank).head? = some c := by
        rw [← hrest, List.head?_append_of_ne_nil _ hne]
        exact hc
      have hnot := List.head?_dropWhile_not blank s
      rw [hhead] at hnot
      exact hnot
    · have hne : (s.dropWhile blank).rdropWhile blank ≠ [] :=
        List.ne_nil_of_mem (List.mem_of_mem_getLast? hc)
      have hnot := List.rdropWhile_last_not blank _ hne
      have e : trim blank s = (s.dropWhile blank).rdropWhile blank := rfl
      rw [e, List.getLast?_eq_getLast_of_ne_nil hne, Option.mem_some_iff] at hc
      rw [hc] at hnot
      exact Bool.not_eq_true _ ▸ hnot
  · intro ⟨⟨pre, suf, hs, hpre, hsuf⟩, hhead, hlast⟩
    subst hs
    unfold trim
    cases t with
    | nil =>
      have hall : ∀ c ∈ pre ++ [] ++ suf, blank c = true := by
        intro c hc
        rw [List.append_nil] at hc
        exact (List.mem_append.mp hc).elim (hpre c) (hsuf c)
      rw [List.dropWhile_eq_nil_iff.mpr hall, List.rdropWhile_nil]
    | cons c t =>
      rw [List.append_assoc, List.dropWhile_append_of_pos hpre, List.cons_append,
        List.dropWhile_cons_of_neg (by rw [hhead c rfl]; nofun), ← List.cons_append,
        rdropWhile_append_of_pos hsuf, List.rdropWhile_eq_self_iff]
      intro hne
      rw [hlast _ (List.getLast?_eq_getLast_of_ne_nil hne)]
      nofun

end

/-! ## decimal numbers -/

/-- the digits one after the other; the number stays below the bound -/
def readDigits (bound : Nat) : Nat → List Char → Option Nat
  | acc, [] => some acc
  | acc, c :: cs =>
    if c.isDigit ∧ 10 * acc + (c.toNat - '0'.toNat) < bound then
      readDigits bound (10 * acc + (c.toNat - '0'.toNat)) cs
    else none

/-- a plus sign may stand in front, and there is at least one digit -/
def readNat (bound : Nat) (s : List Char) : Option Nat :=
  let ds := if s.head? = some '+' then s.tail else s
  if ds = [] then none else readDigits bound 0 ds

theorem le_ofDigitChars (acc : Nat) (cs : List Char) : acc ≤ Nat.ofDigitChars 10 cs acc := by
  induction cs generalizing acc with
  | nil => rw [Nat.ofDigitChars_nil]
  | cons c cs ih =>
    rw [Nat.ofDigitChars_cons]
    have h := ih (10 * acc + (c.toNat - '0'.toNat))
    omega

theorem readDigits_eq_some_iff {bound acc : Nat} (h : acc < bound) {cs : List Char} {n : Nat} :
    readDigits bound acc cs = some n ↔
      (∀ c ∈ cs, c.isDigit = true) ∧ Nat.ofDigitChars 10 cs acc = n ∧ n < bound := by
  induction cs generalizing acc with
  | nil =>
    rw [Nat.ofDigitChars_nil]
    constructor
    · intro e
      obtain rfl := Option.some.inj e
      exact ⟨List.forall_mem_nil _, rfl, h⟩
    · rintro ⟨_, rfl, _⟩
      rfl
  | cons c cs ih =>
    rw [Nat.ofDigitChars_cons, List.forall_mem_cons]
    unfold readDigits
    by_cases hc : c.isDigit = true ∧ 10 * acc + (c.toNat - '0'.toNat) < bound
    · rw [if_pos hc, ih hc.2, and_iff_right hc.1]
    · rw [if_neg hc]
      refine iff_of_false nofun ?_
      rintro ⟨⟨hd, _⟩, rfl, hlt⟩
      exact hc ⟨hd, lt_of_le_of_lt (le_ofDigitChars _ cs) hlt⟩

/-- **A number is read exactly if it is written in digits, with or without a plus sign and zeros in
front, and is below the bound.** -/
theorem readNat_eq_some_iff {bound : Nat} (h : 0 < bound) {s : List Char} {n : Nat} :
    readNat bound s = some n ↔ ∃ ds, (s = ds ∨ s = '+' :: ds) ∧ ds ≠ [] ∧
      (∀ c ∈ ds, c.isDigit = true) ∧ Nat.ofDigitChars 10 ds 0 = n ∧ n < bound := by
  have read : ∀ ds : List Char, (if ds = [] then none else readDigits bound 0 ds) = some n ↔
      ds ≠ [] ∧ (∀ c ∈ ds, c.isDigit = true) ∧ Nat.ofDigitChars 10 ds 0 = n ∧ n < bound := by
    intro ds
    by_cases hds : ds = []
    · rw [if_pos hds]
      exact iff_of_false nofun fun hn => hn.1 hds
    · rw [if_neg hds, readDigits_eq_some_iff h]
      exact (and_iff_right hds).symm
  unfold readNat
  by_cases hs : s.head? = some '+'
  · obtain ⟨t, rfl⟩ := List.head?_eq_some_iff.mp hs
    rw [if_pos hs, List.tail_cons, read t]
    constructor
    · exact fun ht => ⟨t, Or.inr rfl, ht⟩
    · rintro ⟨ds, rfl | e, hds⟩
      · -- a plus sign is no digit
        exact absurd (hds.2.1 '+' List.mem_cons_self) (by decide)
      · cases e
        exact hds
  · rw [if_neg hs, read s]
    constructor
    · exact fun hd => ⟨s, Or.inl rfl, hd⟩
    · rintro ⟨ds, rfl | rfl, hds⟩
      · exact hds
      · exact absurd rfl hs

end Base
