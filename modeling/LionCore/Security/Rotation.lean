import LionCore.Security.Sealing

/-!
# Key rotation

Runs of the operations on a key state, from one key.

* `KeyOp.exec_cases`         an operation rotates or ends the grace period;
* `run_epoch`, `run_current` the epoch counts the rotations, and the key changes with it;
* `grace_window`             **main result**: an honest seal of epoch `e` verifies exactly while
                             the epoch is `e`, or `e + 1` with the grace period open;
* `accepted_iff`             **main result**: what a reached key state accepts at all;
* `crossed_seal_accepted`    a key that has been rotated out seals for the current epoch and for
                             epochs to come.
-/

namespace LionCore
open Base

inductive KeyOp
  | rotate (newKey : Key)
  | rotated (newKey : Key)
  | clearPrevious
  deriving DecidableEq

namespace KeyOp

def rotates : KeyOp → Bool
  | .rotate _ => true
  | .rotated _ => true
  | .clearPrevious => false

/-- the state that an operation leaves, also when it panics; `rotated` then leaves the old one -/
def exec (k : KeyState) : KeyOp → KeyState
  | .rotate newKey => (k.rotate newKey).2
  | .rotated newKey => (k.rotated newKey).getD k
  | .clearPrevious => k.clearPrevious

/-- the epoch does not overflow -/
def Fits (k : KeyState) (op : KeyOp) : Prop := op.rotates = true → k.epoch + 1 < u64Size

instance (k : KeyState) (op : KeyOp) : Decidable (Fits k op) :=
  inferInstanceAs (Decidable (_ → _))

theorem exec_clear (k : KeyState) {op : KeyOp} (h : op.rotates = false) :
    op = .clearPrevious ∧ op.exec k = k.clearPrevious := by
  cases op with
  | rotate _ | rotated _ => cases h
  | clearPrevious => exact ⟨rfl, rfl⟩

theorem exec_rotates {k : KeyState} {op : KeyOp} (h : op.rotates = true) (hfit : Fits k op) :
    ∃ newKey, op.exec k = ⟨newKey, k.epoch + 1, some k.current, some k.epoch⟩ := by
  have hlt := hfit h
  cases op with
  | rotate newKey =>
    refine ⟨newKey, ?_⟩
    simp only [exec, KeyState.rotate, checkedAdd64, if_pos hlt]
  | rotated newKey =>
    refine ⟨newKey, ?_⟩
    simp only [exec, KeyState.rotated, checkedAdd64, if_pos hlt, Option.map_some, Option.getD_some]
  | clearPrevious => cases h

/-! ## runs -/

theorem run_epoch (k : KeyState) (ops : List KeyOp) (hfit : Along exec Fits k ops) :
    (run exec k ops).epoch = k.epoch + ops.countP rotates := by
  induction ops generalizing k with
  | nil => rfl
  | cons op ops ih =>
    rw [run_cons, ih _ hfit.2, List.countP_cons]
    cases h : op.rotates with
    | true =>
      obtain ⟨newKey, e⟩ := exec_rotates h hfit.1
      rw [e, if_pos rfl]
      exact Nat.add_right_comm k.epoch 1 _
    | false =>
      rw [(exec_clear k h).2, if_neg nofun]
      rfl

theorem run_current (k : KeyState) (ops : List KeyOp) (h : ops.countP rotates = 0) :
    (run exec k ops).current = k.current := by
  induction ops generalizing k with
  | nil => rfl
  | cons op ops ih =>
    have hall := List.countP_eq_zero.mp h
    have hop : op.rotates = false := Bool.eq_false_iff.mpr (hall op List.mem_cons_self)
    have hrest : ops.countP rotates = 0 :=
      List.countP_eq_zero.mpr fun a ha => hall a (List.mem_cons_of_mem _ ha)
    rw [run_cons, ih _ hrest, (exec_clear k hop).2]
    rfl

end KeyOp

/-! ## what a key state accepts -/

/-- the previous key and its epoch come and go together, and the epoch is the one before -/
structure KeyState.Graced (k : KeyState) : Prop where
  together : k.previous = none ↔ k.previousEpoch = none
  epoch : ∀ prev, k.previousEpoch = some prev → prev ≤ k.epoch ∧ k.epoch ≤ prev + 1

theorem KeyState.Graced.initial (key : Key) : (KeyState.initial key).Graced :=
  ⟨iff_of_true rfl rfl, fun _ h => nomatch h⟩

theorem KeyState.Graced.exec {k : KeyState} (h : k.Graced) (op : KeyOp) : (op.exec k).Graced := by
  have hrotate : ∀ newKey, (k.rotate newKey).2.Graced := fun newKey => by
    obtain ⟨_, hprev, hpe, _⟩ := k.rotate_cases newKey
    have hle : k.epoch ≤ (k.rotate newKey).2.epoch ∧ (k.rotate newKey).2.epoch ≤ k.epoch + 1 := by
      unfold KeyState.rotate checkedAdd64
      by_cases hlt : k.epoch + 1 < u64Size
      · rw [if_pos hlt]
        exact ⟨Nat.le_succ _, le_rfl⟩
      · rw [if_neg hlt]
        exact ⟨le_rfl, Nat.le_succ _⟩
    refine ⟨by simp [hprev, hpe], fun prev e => ?_⟩
    rw [hpe] at e
    exact Option.some.inj e ▸ hle
  cases op with
  | rotate newKey => exact hrotate newKey
  | rotated newKey =>
    show ((k.rotated newKey).getD k).Graced
    rw [KeyState.rotated_eq]
    cases (k.rotate newKey).1 with
    | some _ => exact hrotate newKey
    | none => exact h
  | clearPrevious => exact ⟨iff_of_true rfl rfl, fun _ h => nomatch h⟩

theorem KeyState.Graced.epochValid_iff {k : KeyState} (h : k.Graced) (e : Nat) :
    k.epochValid e = true ↔ k.epoch ≤ e ∨ k.previousEpoch = some e := by
  rw [KeyState.epochValid_iff]
  constructor
  · rintro (hle | ⟨prev, hp, hle⟩)
    · exact Or.inl hle
    · obtain ⟨_, hnext⟩ := h.epoch prev hp
      rcases Nat.lt_or_ge prev e with hlt | hge
      · exact Or.inl (by omega)
      · exact Or.inr (le_antisymm hle hge ▸ hp)
  · rintro (hle | hp)
    · exact Or.inl hle
    · exact Or.inr ⟨e, hp, le_rfl⟩

theorem run_graced (key : Key) (ops : List KeyOp) :
    (run KeyOp.exec (.initial key) ops).Graced :=
  run_invariant (fun _ op h => h.exec op) ops (.initial key)

/-- **Main result**: a reached key state accepts a tag for an epoch that is current, later, or the
previous one while the grace period is open, and it asks for a seal under the current key or,
while the grace period is open, under the previous one: under either, for every such epoch. -/
theorem accepted_iff (hmac : Hmac) (key : Key) (ops : List KeyOp) (payload : CapPayload)
    (tag : SealedTag) :
    let k := run KeyOp.exec (.initial key) ops
    (k.verifyWithEpoch hmac payload tag payload.epoch = some true ↔
      (k.epoch ≤ payload.epoch ∨ k.previousEpoch = some payload.epoch) ∧
        (sealPayload hmac k.current payload = some tag ∨
          ∃ prev, k.previous = some prev ∧ sealPayload hmac prev payload = some tag)) ∧
    (k.previous = none ↔ k.previousEpoch = none) := by
  intro k
  have hk : k.Graced := run_graced key ops
  rw [KeyState.verifyWithEpoch_iff, hk.epochValid_iff]
  exact ⟨Iff.rfl, hk.together⟩

/-! ## the grace window -/

theorem KeyOp.same_epoch {k : KeyState} {ops : List KeyOp} (hfit : Along exec Fits k ops)
    (h : (run exec k ops).epoch = k.epoch) : (run exec k ops).current = k.current := by
  rw [run_epoch k ops hfit] at h
  exact run_current k ops (by omega)

/-- a state in the next epoch, if `ops` rotates and does not end the grace period after that -/
theorem KeyOp.next_epoch {k : KeyState} {pre post : List KeyOp} {op : KeyOp}
    (hfit : Along exec Fits k (pre ++ op :: post)) (hop : op.rotates = true)
    (hpost : KeyOp.clearPrevious ∉ post)
    (h : (run exec k (pre ++ op :: post)).epoch = k.epoch + 1) :
    (run exec k (pre ++ op :: post)).previous = some k.current ∧
      (run exec k (pre ++ op :: post)).previousEpoch = some k.epoch := by
  -- the epoch has moved by one, so this is the only rotation, and nothing follows it
  rw [run_epoch k _ hfit, List.countP_append, List.countP_cons, if_pos hop] at h
  have hpre : pre.countP rotates = 0 := by omega
  have hnone : post.countP rotates = 0 := by omega
  have hnil : post = [] := by
    apply List.eq_nil_iff_forall_not_mem.mpr
    intro a ha
    have hrot := Bool.eq_false_iff.mpr (List.countP_eq_zero.mp hnone a ha)
    obtain ⟨rfl, _⟩ := exec_clear k hrot
    exact hpost ha
  subst hnil
  obtain ⟨hfirst, hlast⟩ := (along_append pre [op]).mp hfit
  obtain ⟨newKey, e⟩ := exec_rotates hop hlast.1
  rw [run_append, run_cons, run_nil, e, run_current k pre hpre, run_epoch k pre hfirst, hpre]
  exact ⟨rfl, rfl⟩

theorem KeyOp.last_rotates {k : KeyState} {ops : List KeyOp}
    (hne : (run exec k ops).epoch ≠ k.epoch) (hopen : (run exec k ops).previousEpoch ≠ none) :
    ∃ pre op post, ops = pre ++ op :: post ∧ op.rotates = true ∧ KeyOp.clearPrevious ∉ post := by
  rcases List.eq_nil_or_concat ops with rfl | ⟨pre, op, rfl⟩
  · exact absurd rfl hne
  rw [List.concat_eq_append] at hopen ⊢
  refine ⟨pre, op, [], rfl, ?_, List.not_mem_nil⟩
  cases h : op.rotates with
  | true => rfl
  | false =>
    rw [run_append, run_cons, run_nil, (exec_clear _ h).2] at hopen
    exact absurd rfl hopen

/-- **Main result**: let a payload be sealed under the current key with the current epoch `e`.
Later it verifies iff the epoch is still `e`, or `e + 1` without an end of the grace period since
the rotation. -/
theorem grace_window (hmac : Hmac) (key : Key) (before after : List KeyOp)
    (hfit : Along KeyOp.exec KeyOp.Fits (.initial key) (before ++ after)) (payload : CapPayload)
    (tag : SealedTag) (he : payload.epoch = (run KeyOp.exec (.initial key) before).epoch)
    (hseal : sealPayload hmac (run KeyOp.exec (.initial key) before).current payload = some tag) :
    let k := run KeyOp.exec (.initial key) (before ++ after)
    k.verifyWithEpoch hmac payload tag payload.epoch = some true ↔
      k.epoch = payload.epoch ∨ (k.epoch = payload.epoch + 1 ∧ ∃ pre op post,
        after = pre ++ op :: post ∧ op.rotates = true ∧ KeyOp.clearPrevious ∉ post) := by
  intro k
  have hk : k.Graced := run_graced key _
  have hrun : k = run KeyOp.exec (run KeyOp.exec (.initial key) before) after := run_append ..
  have hfit' := ((along_append before after).mp hfit).2
  generalize run KeyOp.exec (.initial key) before = k₁ at he hseal hrun hfit'
  have hle : payload.epoch ≤ k.epoch := by
    have hcount := KeyOp.run_epoch k₁ after hfit'
    rw [← hrun] at hcount
    omega
  rw [KeyState.verifyWithEpoch_iff, hk.epochValid_iff]
  constructor
  · rintro ⟨hcur | hprev, _⟩
    · exact Or.inl (le_antisymm hcur hle)
    · by_cases hsame : k.epoch = payload.epoch
      · exact Or.inl hsame
      · have hnext := (hk.epoch _ hprev).2
        refine Or.inr ⟨by omega, KeyOp.last_rotates (k := k₁) ?_ ?_⟩
        · rw [← hrun, ← he]
          exact hsame
        · rw [← hrun, hprev]
          nofun
  · rintro (hsame | ⟨hnext, pre, op, post, rfl, hop, hpost⟩)
    · have hkey := KeyOp.same_epoch hfit' (by rw [← hrun, hsame, he])
      rw [← hrun] at hkey
      exact ⟨Or.inl hsame.le, Or.inl (hkey ▸ hseal)⟩
    · obtain ⟨hprev, hpe⟩ := KeyOp.next_epoch hfit' hop hpost (by rw [← hrun, hnext, he])
      rw [← hrun] at hprev hpe
      exact ⟨Or.inr (hpe.trans (congrArg some he.symm)), Or.inr ⟨_, hprev, hseal⟩⟩

/-! ## two keys -/

/-- the tag of epoch 0 under the zero key -/
def oldTag0 : SealedTag := sampleRootMac .empty []

/-- the tag of epoch 0 under the key that follows -/
def newTag0 : SealedTag :=
  ⟨#v[0x19, 0x0a, 0x50, 0xd5, 0xe3, 0x71, 0x95, 0x5e, 0x23, 0x66, 0x0e, 0x2d, 0x14, 0xe3, 0x73,
    0x84, 0xd2, 0x7d, 0xa5, 0xec, 0x1d, 0x82, 0xa5, 0xa4, 0x34, 0x15, 0x6c, 0xae, 0xbf, 0x77,
    0x7b, 0xb3]⟩

/-- the tag of epoch 1 under the zero key -/
def oldTag1 : SealedTag :=
  ⟨#v[0xb0, 0x91, 0x2a, 0xc1, 0x23, 0x61, 0xe7, 0x38, 0x04, 0xcd, 0xfb, 0x85, 0x5b, 0xa3, 0x6b,
    0xd7, 0x97, 0xfa, 0x1e, 0x06, 0xce, 0x9f, 0x5c, 0x2a, 0x65, 0x79, 0xe7, 0x64, 0xa2, 0x6d,
    0x80, 0x11]⟩

/-- the tag of epoch 1 under the key that follows -/
def newTag1 : SealedTag :=
  ⟨#v[0xf9, 0x9b, 0x25, 0x41, 0xf5, 0xf1, 0xcf, 0x22, 0x81, 0x97, 0x49, 0xd8, 0x9d, 0x84, 0x7e,
    0x85, 0xdf, 0x31, 0xac, 0xd3, 0xff, 0x7a, 0x76, 0x76, 0x1b, 0xcc, 0x9c, 0x08, 0x66, 0x60,
    0x66, 0x52]⟩

/-- 32 bytes, all one -/
def sampleNewKey : Key := ⟨Vector.replicate 32 1⟩

/-- the root of plugin 1, dated in an epoch -/
def samplePayload (epoch : Nat) : CapPayload := ⟨1, 0, .singleton .read, none, epoch⟩

/-- what HMAC-SHA256 gives with the two keys for the payloads of the epochs 0 and 1 -/
def twoKeyMac : Hmac := fun key data =>
  if data.getD 32 0 = 0 then if key = .empty then oldTag0 else newTag0
  else if key = .empty then oldTag1 else newTag1

/-- a seal of epoch 0 verifies after one rotation, by the old key -/
theorem grace_window_sample :
    (run KeyOp.exec (.initial .empty) ([] ++ [.rotate sampleNewKey])).verifyWithEpoch twoKeyMac
        (samplePayload 0) oldTag0 0 = some true ↔
      (run KeyOp.exec (.initial .empty) [.rotate sampleNewKey]).epoch = 0 ∨
        ((run KeyOp.exec (.initial .empty) [.rotate sampleNewKey]).epoch = 0 + 1 ∧
          ∃ pre op post, [KeyOp.rotate sampleNewKey] = pre ++ op :: post ∧
            op.rotates = true ∧ KeyOp.clearPrevious ∉ post) :=
  grace_window twoKeyMac .empty [] [.rotate sampleNewKey] ⟨fun _ => by decide, trivial⟩
    (samplePayload 0) oldTag0 rfl (by decide)

/-- the tag was made by the key of the payload's own epoch -/
def SealedInEpoch (hmac : Hmac) (k : KeyState) (payload : CapPayload) (tag : SealedTag) : Prop :=
  (payload.epoch = k.epoch ∧ sealPayload hmac k.current payload = some tag) ∨
    (k.previousEpoch = some payload.epoch ∧
      ∃ prev, k.previous = some prev ∧ sealPayload hmac prev payload = some tag)

/-- after a rotation to epoch 1 the old key still seals for epoch 1, and before it the key of
epoch 0 seals for epoch 1 -/
theorem crossed_seal_accepted :
    ((run KeyOp.exec (.initial .empty) [.rotate sampleNewKey]).verifyWithEpoch twoKeyMac
        (samplePayload 1) oldTag1 1 = some true ∧
      ¬ SealedInEpoch twoKeyMac (run KeyOp.exec (.initial .empty) [.rotate sampleNewKey])
        (samplePayload 1) oldTag1) ∧
    ((run KeyOp.exec (.initial .empty) []).verifyWithEpoch twoKeyMac
        (samplePayload 1) oldTag1 1 = some true ∧
      ¬ SealedInEpoch twoKeyMac (run KeyOp.exec (.initial .empty) []) (samplePayload 1)
        oldTag1) := by
  refine ⟨⟨by decide, ?_⟩, by decide, ?_⟩
  · rintro (⟨_, h⟩ | ⟨h, _⟩)
    · exact absurd h (by decide)
    · exact absurd h (by decide)
  · rintro (⟨h, _⟩ | ⟨h, _⟩)
    · exact absurd h (by decide)
    · exact absurd h (by decide)

end LionCore
