import LionCore.Base.Bits
import LionCore.Base.Run
import LionCore.Types.Rights
import Mathlib.Data.Finset.Card
import Mathlib.Data.Fintype.Basic

/-!
# Rights as sets and as lists

The other operations of the 16-bit word, and what they are for.

* `Rights.toFinset`        the set that a word stands for;
* `RightsOp`               the operations that change a set of rights, or make a new one of it;
* `rights_are_sets`        **main result**: over any run of them the word is the set, and all that
                           can be asked of it is answered as of the set;
* `Rights.toVec`, `RightsIter`   the listing, all at once or one by one;
* `rights_listing`         **main result**: both list the set in order, and can be read back.
-/

namespace LionCore
open Base

namespace Right

/-- `from_u8` -/
def fromU8 : Nat → Option Right
  | 0 => some .read
  | 1 => some .write
  | 2 => some .execute
  | 3 => some .create
  | 4 => some .delete
  | 5 => some .send
  | 6 => some .receive
  | 7 => some .delegate
  | 8 => some .revoke
  | 9 => some .declassify
  | _ => none

theorem fromU8_toU8 (x : Right) : fromU8 x.toU8 = some x := by
  cases x <;> rfl

theorem toU8_lt (x : Right) : x.toU8 < 10 := by
  cases x <;> decide

theorem toU8_injective : Function.Injective toU8 := by
  intro x y h
  have e := congrArg fromU8 h
  rw [fromU8_toU8, fromU8_toU8] at e
  exact Option.some.inj e

theorem exists_toU8 {i : Nat} (h : i < 10) : ∃ x, fromU8 i = some x ∧ toU8 x = i := by
  match i, h with
  | 0, _ => exact ⟨.read, rfl, rfl⟩
  | 1, _ => exact ⟨.write, rfl, rfl⟩
  | 2, _ => exact ⟨.execute, rfl, rfl⟩
  | 3, _ => exact ⟨.create, rfl, rfl⟩
  | 4, _ => exact ⟨.delete, rfl, rfl⟩
  | 5, _ => exact ⟨.send, rfl, rfl⟩
  | 6, _ => exact ⟨.receive, rfl, rfl⟩
  | 7, _ => exact ⟨.delegate, rfl, rfl⟩
  | 8, _ => exact ⟨.revoke, rfl, rfl⟩
  | 9, _ => exact ⟨.declassify, rfl, rfl⟩

/-- `Right::ALL` -/
def all : List Right :=
  [.read, .write, .execute, .create, .delete, .send, .receive, .delegate, .revoke, .declassify]

instance : Fintype Right where
  elems := ⟨all, by decide⟩
  complete x := by cases x <;> decide

theorem getLsbD_asMask (x : Right) (i : Nat) : x.asMask.getLsbD i = decide (i = x.toU8) := by
  have hlt := x.toU8_lt
  have e : x.asMask = BitVec.twoPow 16 x.toU8 := by cases x <;> rfl
  rw [e, BitVec.getLsbD_twoPow, decide_eq_true (by omega : x.toU8 < 16), Bool.true_and]
  exact decide_eq_decide.mpr eq_comm

end Right

/-! ## words within the mask -/

theorem inMask_iff (b : BitVec 16) :
    b &&& ~~~allRightsMask = 0#16 ↔ ∀ i, b.getLsbD i = true → i < 10 := by
  have hmask : ∀ i, i < 16 → (~~~allRightsMask).getLsbD i = decide (10 ≤ i) := by decide
  constructor
  · intro h i hi
    by_contra hlt
    have hb := congrArg (fun w => w.getLsbD i) h
    simp only [BitVec.getLsbD_and, hi, Bool.true_and, hmask i (BitVec.lt_of_getLsbD hi),
      BitVec.getLsbD_zero, decide_eq_false_iff_not] at hb
    omega
  · intro h
    apply BitVec.eq_of_getLsbD_eq
    intro i hi
    rw [BitVec.getLsbD_and, hmask i hi, BitVec.getLsbD_zero, Bool.and_eq_false_iff,
      decide_eq_false_iff_not]
    by_cases hb : b.getLsbD i = true
    · have := h i hb
      exact Or.inr (by omega)
    · exact Or.inl (eq_false_of_ne_true hb)

namespace Rights

theorem lt_of_getLsbD (r : Rights) {i : Nat} (h : r.bits.getLsbD i = true) : i < 10 :=
  (inMask_iff r.bits).mp r.inMask i h

theorem or_inMask {a b : BitVec 16} (ha : a &&& ~~~allRightsMask = 0#16)
    (hb : b &&& ~~~allRightsMask = 0#16) : (a ||| b) &&& ~~~allRightsMask = 0#16 := by
  rw [inMask_iff] at *
  intro i hi
  rw [BitVec.getLsbD_or, Bool.or_eq_true] at hi
  exact hi.elim (ha i) (hb i)

theorem xor_inMask {a b : BitVec 16} (ha : a &&& ~~~allRightsMask = 0#16)
    (hb : b &&& ~~~allRightsMask = 0#16) : (a ^^^ b) &&& ~~~allRightsMask = 0#16 := by
  rw [inMask_iff] at *
  intro i hi
  rw [BitVec.getLsbD_xor] at hi
  by_contra hlt
  have ha' : a.getLsbD i = false := eq_false_of_ne_true fun h => hlt (ha i h)
  have hb' : b.getLsbD i = false := eq_false_of_ne_true fun h => hlt (hb i h)
  rw [ha', hb'] at hi
  cases hi

/-! ## the operations -/

def all : Rights := ⟨allRightsMask, BitVec.and_not_self allRightsMask⟩

/-- the masks of the slice, one after the other -/
def fromSlice (rights : List Right) : Rights :=
  rights.foldl (fun r x => ⟨r.bits ||| x.asMask, or_inMask r.inMask (asMask_inMask x)⟩) empty

/-- `count_ones` -/
def len (r : Rights) : Nat := r.bits.cpop.toNat

/-- true if the right was not there -/
def insert (r : Rights) (x : Right) : Bool × Rights :=
  (r.bits &&& x.asMask == 0#16, ⟨r.bits ||| x.asMask, or_inMask r.inMask (asMask_inMask x)⟩)

/-- true if the right was there -/
def remove (r : Rights) (x : Right) : Bool × Rights :=
  (r.bits &&& x.asMask != 0#16, ⟨r.bits &&& ~~~x.asMask, and_inMask _ r.inMask⟩)

def union (r₁ r₂ : Rights) : Rights := ⟨r₁.bits ||| r₂.bits, or_inMask r₁.inMask r₂.inMask⟩

def difference (r₁ r₂ : Rights) : Rights := ⟨r₁.bits &&& ~~~r₂.bits, and_inMask _ r₁.inMask⟩

def symmetricDifference (r₁ r₂ : Rights) : Rights :=
  ⟨r₁.bits ^^^ r₂.bits, xor_inMask r₁.inMask r₂.inMask⟩

def complement (r : Rights) : Rights := fromBits (~~~r.bits)

def containsAll (r₁ r₂ : Rights) : Bool := r₂.isSubsetOf r₁

def containsAny (r₁ r₂ : Rights) : Bool := r₁.bits &&& r₂.bits != 0#16

/-- `with` -/
def withRight (r : Rights) (x : Right) : Rights :=
  ⟨r.bits ||| x.asMask, or_inMask r.inMask (asMask_inMask x)⟩

/-- `without` -/
def withoutRight (r : Rights) (x : Right) : Rights :=
  ⟨r.bits &&& ~~~x.asMask, and_inMask _ r.inMask⟩

/-! ## the set of a word -/

theorem and_asMask_ne_zero (b : BitVec 16) (x : Right) :
    b &&& x.asMask ≠ 0#16 ↔ b.getLsbD x.toU8 = true := by
  constructor
  · intro h
    by_contra hb
    apply h
    apply BitVec.eq_of_getLsbD_eq
    intro i _
    rw [BitVec.getLsbD_and, x.getLsbD_asMask, BitVec.getLsbD_zero]
    by_cases hi : i = x.toU8
    · rw [hi, eq_false_of_ne_true hb, Bool.false_and]
    · rw [decide_eq_false hi, Bool.and_false]
  · intro hb h
    have e := congrArg (fun w => w.getLsbD x.toU8) h
    simp [x.getLsbD_asMask, hb] at e

theorem contains_iff (r : Rights) (x : Right) :
    r.contains x = true ↔ r.bits.getLsbD x.toU8 = true := by
  unfold contains
  rw [bne_iff_ne, and_asMask_ne_zero]

/-- a word within the mask is known by the rights it contains -/
theorem eq_of_contains {r₁ r₂ : Rights} (h : ∀ x, r₁.contains x = true ↔ r₂.contains x = true) :
    r₁ = r₂ := by
  apply ext
  apply BitVec.eq_of_getLsbD_eq
  intro i _
  rw [Bool.eq_iff_iff]
  constructor
  · intro hi
    obtain ⟨x, _, rfl⟩ := Right.exists_toU8 (r₁.lt_of_getLsbD hi)
    exact (contains_iff r₂ x).mp ((h x).mp ((contains_iff r₁ x).mpr hi))
  · intro hi
    obtain ⟨x, _, rfl⟩ := Right.exists_toU8 (r₂.lt_of_getLsbD hi)
    exact (contains_iff r₁ x).mp ((h x).mpr ((contains_iff r₂ x).mpr hi))

def toFinset (r : Rights) : Finset Right := Finset.univ.filter fun x => r.contains x = true

@[simp] theorem mem_toFinset {r : Rights} {x : Right} : x ∈ r.toFinset ↔ r.contains x = true := by
  simp [toFinset]

theorem toFinset_injective : Function.Injective toFinset := by
  intro r₁ r₂ h
  apply eq_of_contains
  intro x
  rw [← mem_toFinset, ← mem_toFinset, h]

/-! ### what the operations do to it -/

section
variable (r r₁ r₂ : Rights) (x : Right)

theorem contains_withRight (y : Right) :
    (r.withRight x).contains y = true ↔ y = x ∨ r.contains y = true := by
  rw [contains_iff, contains_iff]
  show (r.bits ||| x.asMask).getLsbD y.toU8 = true ↔ _
  rw [BitVec.getLsbD_or, x.getLsbD_asMask, Bool.or_eq_true, decide_eq_true_iff,
    Right.toU8_injective.eq_iff, or_comm]

theorem contains_withoutRight (y : Right) :
    (r.withoutRight x).contains y = true ↔ y ≠ x ∧ r.contains y = true := by
  have hlt : y.toU8 < 16 := Nat.lt_of_lt_of_le y.toU8_lt (by decide)
  rw [contains_iff, contains_iff]
  show (r.bits &&& ~~~x.asMask).getLsbD y.toU8 = true ↔ _
  rw [BitVec.getLsbD_and, BitVec.getLsbD_not, x.getLsbD_asMask, decide_eq_true hlt,
    Bool.true_and, Bool.and_eq_true, Bool.not_eq_true', decide_eq_false_iff_not,
    Right.toU8_injective.eq_iff, and_comm]

theorem contains_combine (y : Right) :
    (r₁.combine r₂).contains y = true ↔ r₁.contains y = true ∧ r₂.contains y = true := by
  rw [contains_iff, contains_iff, contains_iff]
  show (r₁.bits &&& r₂.bits).getLsbD y.toU8 = true ↔ _
  rw [BitVec.getLsbD_and, Bool.and_eq_true]

theorem contains_union (y : Right) :
    (r₁.union r₂).contains y = true ↔ r₁.contains y = true ∨ r₂.contains y = true := by
  rw [contains_iff, contains_iff, contains_iff]
  show (r₁.bits ||| r₂.bits).getLsbD y.toU8 = true ↔ _
  rw [BitVec.getLsbD_or, Bool.or_eq_true]

theorem contains_difference (y : Right) :
    (r₁.difference r₂).contains y = true ↔ r₁.contains y = true ∧ ¬ r₂.contains y = true := by
  have hlt : y.toU8 < 16 := Nat.lt_of_lt_of_le y.toU8_lt (by decide)
  rw [contains_iff, contains_iff, contains_iff]
  show (r₁.bits &&& ~~~r₂.bits).getLsbD y.toU8 = true ↔ _
  rw [BitVec.getLsbD_and, BitVec.getLsbD_not, decide_eq_true hlt, Bool.true_and,
    Bool.and_eq_true, Bool.not_eq_true', Bool.not_eq_true]

theorem contains_symmetricDifference (y : Right) :
    (r₁.symmetricDifference r₂).contains y = true ↔
      ¬ (r₁.contains y = true ↔ r₂.contains y = true) := by
  rw [contains_iff, contains_iff, contains_iff]
  show (r₁.bits ^^^ r₂.bits).getLsbD y.toU8 = true ↔ _
  rw [BitVec.getLsbD_xor]
  cases r₁.bits.getLsbD y.toU8 <;> cases r₂.bits.getLsbD y.toU8 <;> decide

/-- the bits above the mask stay off -/
theorem contains_complement (y : Right) :
    r.complement.contains y = true ↔ ¬ r.contains y = true := by
  have hlt : y.toU8 < 16 := Nat.lt_of_lt_of_le y.toU8_lt (by decide)
  have hmask : allRightsMask.getLsbD y.toU8 = true := by cases y <;> rfl
  rw [contains_iff, contains_iff]
  show (~~~r.bits &&& allRightsMask).getLsbD y.toU8 = true ↔ _
  rw [BitVec.getLsbD_and, BitVec.getLsbD_not, hmask, decide_eq_true hlt, Bool.true_and,
    Bool.and_true, Bool.not_eq_true', Bool.not_eq_true]

theorem insert_answer : (r.insert x).1 = true ↔ ¬ r.contains x = true := by
  show (r.bits &&& x.asMask == 0#16) = true ↔ ¬ (r.bits &&& x.asMask != 0#16) = true
  rw [beq_iff_eq, bne_iff_ne, not_not]

end

/-! ### what can be asked -/

theorem isSubsetOf_iff_toFinset (r₁ r₂ : Rights) :
    r₁.isSubsetOf r₂ = true ↔ r₁.toFinset ⊆ r₂.toFinset := by
  rw [isSubsetOf_iff]
  constructor
  · intro h x hx
    rw [mem_toFinset, contains_iff] at *
    exact h _ hx
  · intro h i hi
    obtain ⟨x, _, rfl⟩ := Right.exists_toU8 (r₁.lt_of_getLsbD hi)
    have hx := h (mem_toFinset.mpr ((contains_iff r₁ x).mpr hi))
    exact (contains_iff r₂ x).mp (mem_toFinset.mp hx)

theorem isEmpty_iff (r : Rights) : r.isEmpty = true ↔ r.toFinset = ∅ := by
  have hempty : Rights.empty.toFinset = ∅ := by decide
  rw [← hempty, toFinset_injective.eq_iff]
  unfold isEmpty
  rw [beq_iff_eq]
  exact ⟨fun h => ext h, fun h => congrArg bits h⟩

theorem containsAny_iff (r₁ r₂ : Rights) :
    r₁.containsAny r₂ = true ↔ ∃ x ∈ r₁.toFinset, x ∈ r₂.toFinset := by
  have hcombine : r₁.containsAny r₂ = !(r₁.combine r₂).isEmpty := rfl
  rw [hcombine, Bool.not_eq_true', ← Bool.not_eq_true, isEmpty_iff, ← Ne,
    ← Finset.nonempty_iff_ne_empty]
  simp only [Finset.Nonempty, mem_toFinset, contains_combine]

/-! ## the listing -/

theorem positions_lt (r : Rights) {i : Nat} (h : i ∈ positions r.bits) : i < 10 :=
  r.lt_of_getLsbD ((mem_positions _ i).mp h)

/-- the rights of a word, one for each bit -/
theorem map_toU8_filterMap {is : List Nat} (h : ∀ i ∈ is, i < 10) :
    (is.filterMap Right.fromU8).map Right.toU8 = is := by
  induction is with
  | nil => rfl
  | cons i is ih =>
    obtain ⟨x, hx, hi⟩ := Right.exists_toU8 (h i List.mem_cons_self)
    rw [List.filterMap_cons_some hx, List.map_cons, hi,
      ih fun j hj => h j (List.mem_cons_of_mem i hj)]

/-- the loop of `to_vec`: push the lowest right, clear its bit -/
def toVecLoop (remaining : BitVec 16) (v : List Right) : List Right :=
  if _h : remaining = 0#16 then v
  else toVecLoop (clearLowest remaining) (v ++ (Right.fromU8 remaining.ctz.toNat).toList)
termination_by remaining.toNat
decreasing_by exact clearLowest_lt _h

def toVec (r : Rights) : List Right := toVecLoop r.bits []

theorem toVecLoop_eq (remaining : BitVec 16) (v : List Right) :
    toVecLoop remaining v = v ++ (positions remaining).filterMap Right.fromU8 := by
  induction remaining, v using toVecLoop.induct with
  | case1 v =>
    rw [toVecLoop, dif_pos rfl, positions_zero]
    simp
  | case2 remaining v h ih =>
    rw [toVecLoop, dif_neg h, ih, positions_of_ne_zero h, List.filterMap_cons]
    cases Right.fromU8 remaining.ctz.toNat <;> simp

theorem toVec_eq (r : Rights) : r.toVec = (positions r.bits).filterMap Right.fromU8 :=
  (toVecLoop_eq r.bits []).trans (List.nil_append _)

theorem map_toU8_toVec (r : Rights) : r.toVec.map Right.toU8 = positions r.bits := by
  rw [toVec_eq]
  exact map_toU8_filterMap fun i hi => r.positions_lt hi

theorem mem_toVec (r : Rights) (x : Right) : x ∈ r.toVec ↔ r.contains x = true := by
  rw [contains_iff, ← mem_positions, ← map_toU8_toVec, List.mem_map]
  constructor
  · exact fun h => ⟨x, h, rfl⟩
  · rintro ⟨y, hy, e⟩
    rwa [← Right.toU8_injective e]

theorem length_toVec (r : Rights) : r.toVec.length = r.len := by
  rw [← List.length_map Right.toU8, map_toU8_toVec]
  exact length_positions r.bits

theorem len_eq_card (r : Rights) : r.len = r.toFinset.card := by
  have hnodup : r.toVec.Nodup := by
    apply List.Nodup.of_map Right.toU8
    rw [map_toU8_toVec]
    exact (positions_increasing r.bits).nodup
  have e : r.toFinset = r.toVec.toFinset := by
    ext x
    rw [mem_toFinset, List.mem_toFinset, mem_toVec]
  rw [e, List.toFinset_card_of_nodup hnodup, length_toVec]

theorem contains_fromSlice (rights : List Right) (x : Right) :
    (fromSlice rights).contains x = true ↔ x ∈ rights := by
  have loop : ∀ r : Rights,
      (rights.foldl (fun r x => r.withRight x) r).contains x = true ↔
        x ∈ rights ∨ r.contains x = true := by
    induction rights with
    | nil => simp
    | cons y rights ih =>
      intro r
      rw [List.foldl_cons, ih, contains_withRight, List.mem_cons]
      tauto
  refine (loop empty).trans (or_iff_left ?_)
  rw [contains_iff]
  simp [empty]

end Rights

/-! ## runs of operations -/

/-- an operation on a variable that holds a set of rights: it changes the set, or makes a new one of
it and stores that -/
inductive RightsOp
  | insert (x : Right)
  | remove (x : Right)
  | bitandAssign (o : Rights)
  | bitorAssign (o : Rights)
  | withRight (x : Right)
  | withoutRight (x : Right)
  | combine (o : Rights)
  | union (o : Rights)
  | difference (o : Rights)
  | symmetricDifference (o : Rights)
  | complement
  deriving DecidableEq

namespace RightsOp

def exec (r : Rights) : RightsOp → Rights
  | insert x => (r.insert x).2
  | remove x => (r.remove x).2
  | bitandAssign o => r.combine o
  | bitorAssign o => r.union o
  | withRight x => r.withRight x
  | withoutRight x => r.withoutRight x
  | combine o => r.combine o
  | union o => r.union o
  | difference o => r.difference o
  | symmetricDifference o => r.symmetricDifference o
  | complement => r.complement

/-- what the operation gives back besides the set -/
def answer (r : Rights) : RightsOp → List Bool
  | insert x => [(r.insert x).1]
  | remove x => [(r.remove x).1]
  | _ => []

/-- the operation, as one on sets -/
def execSet (s : Finset Right) : RightsOp → Finset Right
  | insert x | withRight x => Insert.insert x s
  | remove x | withoutRight x => s.erase x
  | bitandAssign o | combine o => s ∩ o.toFinset
  | bitorAssign o | union o => s ∪ o.toFinset
  | difference o => s \ o.toFinset
  | symmetricDifference o => symmDiff s o.toFinset
  | complement => sᶜ

/-- insertion says whether the right is new, removal whether it was there -/
def answerSet (s : Finset Right) : RightsOp → List Bool
  | insert x => [decide (x ∉ s)]
  | remove x => [decide (x ∈ s)]
  | _ => []

theorem toFinset_exec (r : Rights) (op : RightsOp) :
    (op.exec r).toFinset = op.execSet r.toFinset := by
  ext y
  cases op with
  | insert x | withRight x =>
    simp only [exec, execSet, Finset.mem_insert, Rights.mem_toFinset]
    exact r.contains_withRight x y
  | remove x | withoutRight x =>
    simp only [exec, execSet, Finset.mem_erase, Rights.mem_toFinset]
    exact r.contains_withoutRight x y
  | bitandAssign o | combine o =>
    simp only [exec, execSet, Finset.mem_inter, Rights.mem_toFinset, Rights.contains_combine]
  | bitorAssign o | union o =>
    simp only [exec, execSet, Finset.mem_union, Rights.mem_toFinset, Rights.contains_union]
  | difference o =>
    simp only [exec, execSet, Finset.mem_sdiff, Rights.mem_toFinset, Rights.contains_difference]
  | symmetricDifference o =>
    simp only [exec, execSet, Finset.mem_symmDiff, Rights.mem_toFinset,
      Rights.contains_symmetricDifference]
    tauto
  | complement =>
    simp only [exec, execSet, Finset.mem_compl, Rights.mem_toFinset, Rights.contains_complement]

theorem answer_eq (r : Rights) (op : RightsOp) : op.answer r = op.answerSet r.toFinset := by
  cases op with
  | insert x =>
    have h : (r.insert x).1 = decide (x ∉ r.toFinset) := by
      rw [Bool.eq_iff_iff, r.insert_answer x, decide_eq_true_iff, Rights.mem_toFinset]
    exact congrArg (fun b => [b]) h
  | remove x =>
    have h : (r.remove x).1 = decide (x ∈ r.toFinset) := by
      rw [Bool.eq_iff_iff, decide_eq_true_iff, Rights.mem_toFinset]
      rfl
    exact congrArg (fun b => [b]) h
  | _ => rfl

end RightsOp

/-- **Main result**: over any run of operations the word stands for the set that the same operations
make, they give the same answers, and whatever is asked of the word in the end is answered as of the
set: members, size, emptiness, inclusions either way, a common member, and equality. -/
theorem rights_are_sets (r : Rights) (ops : List RightsOp) (o : Rights) :
    let r' := run RightsOp.exec r ops
    let s := run RightsOp.execSet r.toFinset ops
    r'.toFinset = s ∧
      outputs RightsOp.exec RightsOp.answer r ops =
        outputs RightsOp.execSet RightsOp.answerSet r.toFinset ops ∧
      (∀ x, r'.contains x = true ↔ x ∈ s) ∧ r'.len = s.card ∧ (r'.isEmpty = true ↔ s = ∅) ∧
      (r'.isSubsetOf o = true ↔ s ⊆ o.toFinset) ∧ (r'.containsAll o = true ↔ o.toFinset ⊆ s) ∧
      (r'.containsAny o = true ↔ ∃ x ∈ s, x ∈ o.toFinset) ∧ (r' = o ↔ s = o.toFinset) := by
  intro r' s
  have hrun : ∀ (r : Rights) (ops : List RightsOp),
      (run RightsOp.exec r ops).toFinset = run RightsOp.execSet r.toFinset ops ∧
        outputs RightsOp.exec RightsOp.answer r ops =
          outputs RightsOp.execSet RightsOp.answerSet r.toFinset ops := by
    intro r ops
    induction ops generalizing r with
    | nil => exact ⟨rfl, rfl⟩
    | cons op ops ih =>
      obtain ⟨hstate, hanswers⟩ := ih (op.exec r)
      rw [op.toFinset_exec] at hstate hanswers
      refine ⟨hstate, ?_⟩
      show op.answer r ++ _ = op.answerSet r.toFinset ++ _
      rw [op.answer_eq, hanswers]
  obtain ⟨hs, hanswers⟩ := hrun r ops
  have hset : r'.toFinset = s := hs
  refine ⟨hset, hanswers, ?_⟩
  rw [← hset]
  refine ⟨fun x => Rights.mem_toFinset.symm, r'.len_eq_card, r'.isEmpty_iff,
    r'.isSubsetOf_iff_toFinset o, o.isSubsetOf_iff_toFinset r', r'.containsAny_iff o,
    Rights.toFinset_injective.eq_iff.symm⟩

/-! ## the iterator -/

/-- what is still to be listed; the bits come from a set of rights -/
structure RightsIter where
  bits : BitVec 16
  inMask : bits &&& ~~~allRightsMask = 0#16

def Rights.iter (r : Rights) : RightsIter := ⟨r.bits, r.inMask⟩

namespace RightsIter

def next (it : RightsIter) : Option Right × RightsIter :=
  if it.bits = 0#16 then (none, it)
  else (Right.fromU8 it.bits.ctz.toNat, ⟨clearLowest it.bits, Rights.and_inMask _ it.inMask⟩)

/-- the bounds are the same -/
def sizeHint (it : RightsIter) : Nat × Option Nat :=
  (it.bits.cpop.toNat, some it.bits.cpop.toNat)

/-- after `k` calls of `next` -/
def after (it : RightsIter) : Nat → RightsIter
  | 0 => it
  | k + 1 => (it.after k).next.2

/-- what is left, as a list -/
def rest (it : RightsIter) : List Right := (positions it.bits).filterMap Right.fromU8

theorem next_eq (it : RightsIter) : it.next.1 = it.rest.head? ∧ it.next.2.rest = it.rest.tail := by
  unfold next
  by_cases h : it.bits = 0#16
  · rw [if_pos h]
    unfold rest
    rw [h, positions_zero]
    exact ⟨rfl, rfl⟩
  · rw [if_neg h]
    unfold rest
    have hlt : it.bits.ctz.toNat < 10 := (inMask_iff it.bits).mp it.inMask _ (getLsbD_ctz h)
    obtain ⟨x, hx, _⟩ := Right.exists_toU8 hlt
    rw [positions_of_ne_zero h, List.filterMap_cons_some hx, hx]
    exact ⟨rfl, rfl⟩

theorem rest_after (it : RightsIter) (k : Nat) : (it.after k).rest = it.rest.drop k := by
  induction k with
  | zero => exact (List.drop_zero).symm
  | succ k ih =>
    rw [after, (next_eq _).2, ih, List.tail_drop]

theorem length_rest (it : RightsIter) : it.rest.length = it.bits.cpop.toNat := by
  have hlt : ∀ i ∈ positions it.bits, i < 10 :=
    fun i hi => (inMask_iff it.bits).mp it.inMask i ((mem_positions _ i).mp hi)
  have h := Rights.map_toU8_filterMap hlt
  rw [← length_positions, ← h, List.length_map]
  rfl

end RightsIter

/-- **Main result**: `to_vec` lists the rights of the set in the order of their numbers, each once;
the iterator gives the same list one by one and then nothing for ever, and after any number of calls
it knows how many are left.  The list makes the set again, and any list of rights makes the set of
its members, however often and in whatever order they come. -/
theorem rights_listing (r : Rights) :
    Increasing (r.toVec.map Right.toU8) ∧ (∀ x, x ∈ r.toVec ↔ r.contains x = true) ∧
      (∀ k, (r.iter.after k).next.1 = r.toVec[k]? ∧
        (r.iter.after k).sizeHint = (r.len - k, some (r.len - k))) ∧
      Rights.fromSlice r.toVec = r ∧
      ∀ rights : List Right, Rights.fromSlice rights = r ↔ ∀ x, x ∈ rights ↔ x ∈ r.toVec := by
  have hrest : r.iter.rest = r.toVec := r.toVec_eq.symm
  have hmem : ∀ rights : List Right,
      Rights.fromSlice rights = r ↔ ∀ x, x ∈ rights ↔ x ∈ r.toVec := by
    intro rights
    simp only [r.mem_toVec, ← Rights.contains_fromSlice]
    exact ⟨fun h x => h ▸ Iff.rfl, Rights.eq_of_contains⟩
  refine ⟨?_, r.mem_toVec, fun k => ⟨?_, ?_⟩, (hmem _).mpr fun _ => Iff.rfl, hmem⟩
  · rw [r.map_toU8_toVec]
    exact positions_increasing r.bits
  · rw [(RightsIter.next_eq _).1, RightsIter.rest_after, hrest, List.head?_drop]
  · have hlen : (r.iter.after k).bits.cpop.toNat = r.len - k := by
      rw [← RightsIter.length_rest, RightsIter.rest_after, hrest, List.length_drop, r.length_toVec]
    unfold RightsIter.sizeHint
    rw [hlen]

end LionCore
