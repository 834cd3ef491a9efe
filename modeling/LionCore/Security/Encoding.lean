import LionCore.Types.Capability

/-!
# The sealed encoding is injective

* `leValue_leBytes`             reading little-endian bytes undoes writing them;
* `decodePayload`               the payload is read back from the byte ranges of the layout;
* `decode_serialize`            reading undoes writing, for a payload of `u128` and `u64` fields;
* `sealed_encoding_injective`   **main result**, with what it means for a tag.
-/

namespace LionCore

/-! ## little-endian bytes -/

/-- the number with the given bytes, the lowest first -/
def leValue : List UInt8 → Nat
  | [] => 0
  | b :: bs => b.toNat + 256 * leValue bs

@[simp] theorem length_leBytes (n v : Nat) : (leBytes n v).length = n := by
  induction n generalizing v with
  | zero => rfl
  | succ n ih => exact congrArg (· + 1) (ih (v / 256))

theorem leValue_leBytes (n v : Nat) : leValue (leBytes n v) = v % 256 ^ n := by
  induction n generalizing v with
  | zero => exact (Nat.mod_one v).symm
  | succ n ih =>
    have hbyte : (UInt8.ofNat (v % 256)).toNat = v % 256 := by
      rw [UInt8.toNat_ofNat']
      exact Nat.mod_eq_of_lt (Nat.mod_lt v (by decide))
    show (UInt8.ofNat (v % 256)).toNat + 256 * leValue (leBytes n (v / 256)) = _
    rw [hbyte, ih, Nat.pow_succ, Nat.mul_comm (256 ^ n), Nat.mod_mul]

theorem leValue_leBytes_of_lt {n v : Nat} (h : v < 256 ^ n) : leValue (leBytes n v) = v := by
  rw [leValue_leBytes, Nat.mod_eq_of_lt h]

/-! ## the layout -/

/-- the number in the bytes `i..i+n` -/
def readLe (data : List UInt8) (i n : Nat) : Nat := leValue ((data.drop i).take n)

theorem readLe_head {n v : Nat} (h : v < 256 ^ n) (rest : List UInt8) :
    readLe (leBytes n v ++ rest) 0 n = v := by
  unfold readLe
  rw [List.drop_zero, List.take_left' (length_leBytes n v), leValue_leBytes_of_lt h]

theorem readLe_skip (m v i n : Nat) (rest : List UInt8) :
    readLe (leBytes m v ++ rest) (m + i) n = readLe rest i n := by
  unfold readLe
  rw [← List.drop_drop, List.drop_left' (length_leBytes m v)]

/-- the parent field: 0 for none, one more than the id for a parent -/
def parentOfVal : Nat → Option CapId
  | 0 => none
  | v + 1 => some v

/-- the payload that 64 bytes stand for -/
def decodePayload (data : List UInt8) : CapPayload where
  holder := readLe data 0 16
  target := readLe data 16 16
  epoch := readLe data 32 8
  parent := parentOfVal (readLe data 40 16)
  rights := .fromBits (BitVec.ofNat 16 (readLe data 56 8))

/-- the fields are in the range of their types -/
structure CapPayload.Typed (p : CapPayload) : Prop where
  holder : p.holder < u128Size
  target : p.target < u128Size
  parent : ∀ q, p.parent = some q → q < u128Size
  epoch : p.epoch < u64Size

theorem u128Size_eq : u128Size = 256 ^ 16 := by decide

theorem u64Size_eq : u64Size = 256 ^ 8 := by decide

theorem readLe_fields {h t e v b : Nat} (hh : h < u128Size) (ht : t < u128Size)
    (he : e < u64Size) (hv : v < u128Size) (hb : b < u64Size) :
    let data := leBytes 16 h ++ leBytes 16 t ++ leBytes 8 e ++ leBytes 16 v ++ leBytes 8 b
    data.length = 64 ∧ readLe data 0 16 = h ∧ readLe data 16 16 = t ∧ readLe data 32 8 = e ∧
      readLe data 40 16 = v ∧ readLe data 56 8 = b := by
  rw [u128Size_eq] at hh ht hv
  rw [u64Size_eq] at he hb
  have hlast : readLe (leBytes 8 b) 0 8 = b := by
    have hnil := readLe_head hb []
    rwa [List.append_nil] at hnil
  simp only [List.append_assoc]
  refine ⟨?_, readLe_head hh _, ?_, ?_, ?_, ?_⟩
  · simp only [List.length_append, length_leBytes]
  · rw [readLe_skip 16 h 0]
    exact readLe_head ht _
  · rw [readLe_skip 16 h 16, readLe_skip 16 t 0]
    exact readLe_head he _
  · rw [readLe_skip 16 h 24, readLe_skip 16 t 8, readLe_skip 8 e 0]
    exact readLe_head hv _
  · rw [readLe_skip 16 h 40, readLe_skip 16 t 24, readLe_skip 8 e 16, readLe_skip 16 v 0]
    exact hlast

/-! ## writing and reading back -/

/-- the value of the parent field; only the last id has none -/
theorem serializePayload_of_parent {p : CapPayload} (hp : p.Typed)
    (hlast : p.parent ≠ some (u128Size - 1)) :
    ∃ v < u128Size, parentOfVal v = p.parent ∧ serializePayload p = some
      (leBytes 16 p.holder ++ leBytes 16 p.target ++ leBytes 8 p.epoch ++ leBytes 16 v ++
        leBytes 8 p.rights.toBits.toNat) := by
  cases hq : p.parent with
  | none =>
    refine ⟨0, by decide, rfl, ?_⟩
    unfold serializePayload
    rw [hq]
    rfl
  | some q =>
    have hlt := hp.parent q hq
    have hne : q ≠ u128Size - 1 := fun e => hlast (hq.trans (congrArg some e))
    have hsucc : q + 1 < u128Size :=
      Nat.lt_of_le_of_ne hlt fun e => hne (Nat.eq_sub_of_add_eq e)
    refine ⟨q + 1, hsucc, rfl, ?_⟩
    unfold serializePayload checkedAdd128
    rw [hq]
    simp only [if_pos hsucc, Option.map_some]

theorem decode_serialize {p : CapPayload} (hp : p.Typed)
    (hlast : p.parent ≠ some (u128Size - 1)) :
    ∃ data, serializePayload p = some data ∧ data.length = 64 ∧ decodePayload data = p := by
  obtain ⟨v, hv, hparent, hser⟩ := serializePayload_of_parent hp hlast
  have hrights : p.rights.toBits.toNat < u64Size :=
    Nat.lt_trans p.rights.toBits.isLt (by decide)
  obtain ⟨hlen, h1, h2, h3, h4, h5⟩ := readLe_fields hp.holder hp.target hp.epoch hv hrights
  refine ⟨_, hser, hlen, ?_⟩
  unfold decodePayload
  rw [h1, h2, h3, h4, h5, hparent, BitVec.ofNat_toNat, BitVec.setWidth_eq,
    Rights.fromBits_toBits]

theorem serialize_inj {p q : CapPayload} {data data' : List UInt8} (hp : decodePayload data = p)
    (hq : decodePayload data' = q) (h : data = data') : p = q := by
  rw [← hp, ← hq, h]

/-- **Main result**: two payloads whose parent is not the last id are serialized to 64 bytes each,
which are the same only for the same payload; so a tag that verifies for both is a tag of one
payload, or the two messages are a collision of the authentication code. -/
theorem sealed_encoding_injective (p q : CapPayload) (hp : p.Typed) (hq : q.Typed)
    (hp' : p.parent ≠ some (u128Size - 1)) (hq' : q.parent ≠ some (u128Size - 1)) :
    ∃ data data', serializePayload p = some data ∧ serializePayload q = some data' ∧
      data.length = 64 ∧ data'.length = 64 ∧ (data = data' → p = q) ∧
      ∀ (hmac : Hmac) (key : Key) (tag : SealedTag),
        verifySeal hmac key p tag = some true → verifySeal hmac key q tag = some true →
          p = q ∨ data ≠ data' ∧ hmac key data = hmac key data' := by
  obtain ⟨data, hser, hlen, hdec⟩ := decode_serialize hp hp'
  obtain ⟨data', hser', hlen', hdec'⟩ := decode_serialize hq hq'
  have hinj : data = data' → p = q := serialize_inj hdec hdec'
  refine ⟨data, data', hser, hser', hlen, hlen', hinj, fun hmac key tag hv hv' => ?_⟩
  have htag : hmac key data = tag := by
    rw [verifySeal_iff, sealPayload, hser] at hv
    exact Option.some.inj hv
  have htag' : hmac key data' = tag := by
    rw [verifySeal_iff, sealPayload, hser'] at hv'
    exact Option.some.inj hv'
  by_cases h : data = data'
  · exact Or.inl (hinj h)
  · exact Or.inr ⟨h, htag.trans htag'.symm⟩

/-- no parent, and the parent 0 -/
theorem sealed_encoding_injective_sample :
    let p : CapPayload := ⟨1, 100, .singleton .read, none, 0⟩
    let q : CapPayload := ⟨1, 100, .singleton .read, some 0, 0⟩
    ∃ data data', serializePayload p = some data ∧ serializePayload q = some data' ∧
      data.length = 64 ∧ data'.length = 64 ∧ (data = data' → p = q) ∧
      ∀ (hmac : Hmac) (key : Key) (tag : SealedTag),
        verifySeal hmac key p tag = some true → verifySeal hmac key q tag = some true →
          p = q ∨ data ≠ data' ∧ hmac key data = hmac key data' :=
  sealed_encoding_injective ⟨1, 100, .singleton .read, none, 0⟩
    ⟨1, 100, .singleton .read, some 0, 0⟩
    ⟨by decide, by decide, fun _ h => absurd h (Option.some_ne_none _).symm, by decide⟩
    ⟨by decide, by decide, fun _ h => Option.some.inj h ▸ by decide, by decide⟩
    (by decide) (by decide)

end LionCore
