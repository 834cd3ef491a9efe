import LionCore.Security.SlowRevocation

/-!
# Seals

Delegations seal what they mint, raw insertions bring a tag of their own, and key rotations take
the keys of old seals away.  No check on the way to a host call verifies a seal.

* `KernelState.verifyCapSeal_iff`   what it takes to verify;
* `KeyCall`                         calls, and the operations on the keys;
* `KeyCall.authentic_iff`           when a call keeps every valid entry verified;
* `usable_sealed`                   **main result**: in a run of such calls a host call exercises
                                    sealed capabilities only;
* `forged_used`                     a root without a seal is used.
-/

namespace LionCore
open Base RevocationState

/-! ## verification -/

/-- the tag of the capability was made with this key -/
def SealedBy (hmac : Hmac) (key : Key) (cap : Capability) : Prop :=
  sealPayload hmac key cap.payload = some cap.signature

namespace KeyState

theorem epochValid_iff (k : KeyState) (e : Nat) :
    k.epochValid e = true ↔ k.epoch ≤ e ∨ ∃ prev, k.previousEpoch = some prev ∧ prev ≤ e := by
  unfold epochValid
  by_cases h : k.epoch ≤ e
  · rw [if_pos h]
    exact iff_of_true rfl (Or.inl h)
  · rw [if_neg h]
    cases k.previousEpoch <;> simp [h]

theorem verifySeal_iff (hmac : Hmac) (k : KeyState) (payload : CapPayload) (tag : SealedTag) :
    k.verifySeal hmac payload tag = some true ↔ sealPayload hmac k.current payload = some tag ∨
      ∃ key, k.previous = some key ∧ sealPayload hmac key payload = some tag := by
  unfold sealPayload KeyState.verifySeal LionCore.verifySeal
  cases serializePayload payload with
  | none => simp
  | some data =>
    simp only [Option.map_some, Option.some.injEq]
    by_cases h : hmac k.current data = tag
    · simp [h]
    · cases k.previous <;> simp [h]

theorem verifyWithEpoch_iff (hmac : Hmac) (k : KeyState) (payload : CapPayload)
    (tag : SealedTag) (e : Nat) :
    k.verifyWithEpoch hmac payload tag e = some true ↔ k.epochValid e = true ∧
      (sealPayload hmac k.current payload = some tag ∨
        ∃ key, k.previous = some key ∧ sealPayload hmac key payload = some tag) := by
  unfold verifyWithEpoch
  cases h : k.epochValid e with
  | false => simp
  | true =>
    rw [if_pos rfl, verifySeal_iff]
    exact (and_iff_right rfl).symm

/-- a rotation leaves the old key and its epoch, whether or not the epoch overflows -/
theorem rotate_cases (k : KeyState) (newKey : Key) :
    (k.rotate newKey).2.current = newKey ∧ (k.rotate newKey).2.previous = some k.current ∧
      (k.rotate newKey).2.previousEpoch = some k.epoch ∧
      k.epoch ≤ (k.rotate newKey).2.epoch := by
  unfold rotate checkedAdd64
  by_cases h : k.epoch + 1 < u64Size
  · rw [if_pos h]
    exact ⟨rfl, rfl, rfl, Nat.le_succ _⟩
  · rw [if_neg h]
    exact ⟨rfl, rfl, rfl, le_rfl⟩

theorem verify_rotate_iff (hmac : Hmac) (k : KeyState) (newKey : Key) (cap : Capability) :
    (k.rotate newKey).2.verifyWithEpoch hmac cap.payload cap.signature cap.epoch = some true ↔
      k.epoch ≤ cap.epoch ∧ (SealedBy hmac newKey cap ∨ SealedBy hmac k.current cap) := by
  obtain ⟨hcur, hprev, hpe, hle⟩ := k.rotate_cases newKey
  rw [verifyWithEpoch_iff, epochValid_iff, hcur, hprev, hpe]
  refine and_congr ⟨?_, fun h => Or.inr ⟨k.epoch, rfl, h⟩⟩ (or_congr Iff.rfl ?_)
  · rintro (h | ⟨prev, e, h⟩)
    · exact hle.trans h
    · exact Option.some.inj e ▸ h
  · constructor
    · rintro ⟨key, e, h⟩
      exact Option.some.inj e ▸ h
    · exact fun h => ⟨k.current, rfl, h⟩

theorem verify_clearPrevious_iff (hmac : Hmac) (k : KeyState) (cap : Capability) :
    k.clearPrevious.verifyWithEpoch hmac cap.payload cap.signature cap.epoch = some true ↔
      k.epoch ≤ cap.epoch ∧ SealedBy hmac k.current cap := by
  rw [verifyWithEpoch_iff, epochValid_iff]
  exact and_congr (or_iff_left nofun) (or_iff_left nofun)

end KeyState

theorem KernelState.verifyCapSeal_iff (hmac : Hmac) (k : KernelState) (cap : Capability) :
    k.verifyCapSeal hmac cap = some true ↔ k.keyState.epochValid cap.epoch = true ∧
      (SealedBy hmac k.keyState.current cap ∨
        ∃ key, k.keyState.previous = some key ∧ SealedBy hmac key cap) :=
  k.keyState.verifyWithEpoch_iff hmac cap.payload cap.signature cap.epoch

/-- a child verifies in the state in which it is minted -/
theorem SealedNow.verifies {hmac : Hmac} {s : State} {cap : Capability}
    (h : SealedNow hmac s cap) : s.kernel.verifyCapSeal hmac cap = some true := by
  rw [KernelState.verifyCapSeal_iff, KeyState.epochValid_iff]
  exact ⟨Or.inl h.epoch.ge, Or.inl h.tag⟩

/-! ## calls and key operations -/

inductive KeyCall
  | call (c : Call)
  | rotateKey (newKey : Key)
  | clearPrevious

def KeyCall.exec (hmac : Hmac) (s : State) : KeyCall → State
  | .call c => c.exec hmac s
  | .rotateKey newKey => { s with kernel := (s.kernel.rotateKey newKey).2 }
  | .clearPrevious =>
    { s with kernel := { s.kernel with keyState := s.kernel.keyState.clearPrevious } }

/-- every valid entry verifies -/
def Authentic (hmac : Hmac) (s : State) : Prop :=
  ∀ k cap, s.getCap k = some cap → cap.valid = true → s.kernel.verifyCapSeal hmac cap = some true

/-- a raw insertion of a valid capability brings a seal that verifies; when the keys change, the
valid entries have the current epoch and a seal with a key that remains -/
def KeyCall.KeepsSeals (hmac : Hmac) (s : State) : KeyCall → Prop
  | .call (.insertCapRaw cap _) => s.getCap cap.id = none → cap.valid = true →
      s.kernel.verifyCapSeal hmac cap = some true
  | .call _ => True
  | .rotateKey newKey => ∀ k cap, s.getCap k = some cap → cap.valid = true →
      s.kernel.keyState.epoch ≤ cap.epoch ∧
        (SealedBy hmac newKey cap ∨ SealedBy hmac s.kernel.keyState.current cap)
  | .clearPrevious => ∀ k cap, s.getCap k = some cap → cap.valid = true →
      s.kernel.keyState.epoch ≤ cap.epoch ∧ SealedBy hmac s.kernel.keyState.current cap

/-- valid entries stay, and the keys -/
theorem Authentic.of_cut {hmac : Hmac} {s s' : State} (h : Authentic hmac s) {S : CapId → Prop}
    (hcut : s.kernel.revocation.CutBy S s'.kernel.revocation)
    (hkeys : s'.kernel.keyState = s.kernel.keyState) : Authentic hmac s' := by
  intro k cap hk hv
  unfold KernelState.verifyCapSeal
  rw [hkeys]
  obtain ⟨cap', hk', rfl | rfl⟩ := hcut.of_get hk
  · exact h k cap hk' hv
  · cases hv

theorem Authentic.inserted {hmac : Hmac} {s s' : State} (h : Authentic hmac s)
    (hs : s.kernel.revocation.caps.Sorted) {cap : Capability}
    (hi : s.kernel.revocation.Inserted cap s'.kernel.revocation)
    (hkeys : s'.kernel.keyState = s.kernel.keyState)
    (hcap : cap.valid = true → s.kernel.verifyCapSeal hmac cap = some true) :
    Authentic hmac s' := by
  intro k cap' hk hv
  unfold KernelState.verifyCapSeal
  rw [hkeys]
  rw [show s'.getCap k = _ from hi.get hs k] at hk
  split at hk
  · cases hk
    exact hcap hv
  · exact h k cap' hk hv

theorem Call.authentic (hmac : Hmac) {s : State} (c : Call)
    (hs : s.kernel.revocation.caps.Sorted) (h : Authentic hmac s)
    (hok : (KeyCall.call c).KeepsSeals hmac s) : Authentic hmac (c.exec hmac s) := by
  have hl := c.leaves hmac s
  generalize c.exec hmac s = s' at hl ⊢
  cases hl with
  | same | plugin | actor | resource | workflow | alloc | free | tick => exact h
  | raw hi =>
    have hins := inserted_of_insertMut hi
    exact h.inserted hs hins rfl (hok hins.fresh)
  | delegation hd =>
    cases hd with
    | refused | unminted | collision => exact h
    | minted _ hseal hi =>
      exact h.inserted hs (inserted_of_insertMut hi) rfl fun _ => hseal.verifies
  | revoke _ hr =>
    obtain ⟨S, hcut⟩ := Path.revokes_cutBy (p := .inPlace) hs hr
    exact h.of_cut hcut rfl
  | execute he | executeMut he =>
    obtain ⟨S, hcut⟩ := (he.frame hs).entries
    exact h.of_cut hcut (he.frame hs).keyState

theorem KeyCall.sorted (hmac : Hmac) {s : State} (kc : KeyCall)
    (hs : s.kernel.revocation.caps.Sorted) :
    (kc.exec hmac s).kernel.revocation.caps.Sorted := by
  cases kc with
  | call c => exact c.sorted hmac hs
  | rotateKey _ | clearPrevious => exact hs

/-- **A call keeps every valid entry verified exactly under its condition.** -/
theorem KeyCall.authentic_iff (hmac : Hmac) {s : State} (kc : KeyCall)
    (hs : s.kernel.revocation.caps.Sorted) (h : Authentic hmac s) :
    Authentic hmac (kc.exec hmac s) ↔ kc.KeepsSeals hmac s := by
  cases kc with
  | call c =>
    refine ⟨fun h' => ?_, c.authentic hmac hs h⟩
    cases c with
    | insertCapRaw cap target =>
      intro hnew hv
      obtain ⟨r, hins, hx⟩ := Call.exec_insertCapRaw hmac target hnew
      rw [show (KeyCall.call (.insertCapRaw cap target)).exec hmac s = _ from hx] at h'
      exact h' cap.id cap ((hins.get hs cap.id).trans (if_pos rfl)) hv
    | registerPlugin _ _ _ | insertPlugin _ _ | insertActor _ _ | insertResource _ _
    | insertWorkflow _ _ | delegateCap _ _ _ | revokeCap _ | alloc _ _ | free _ | tick
    | execute _ | executeMut _ => trivial
  | rotateKey newKey =>
    exact forall₄_congr fun _ cap _ _ =>
      s.kernel.keyState.verify_rotate_iff hmac newKey cap
  | clearPrevious =>
    exact forall₄_congr fun _ cap _ _ => s.kernel.keyState.verify_clearPrevious_iff hmac cap

/-! ## the main result -/

/-- **Main result**: in every state that a run from an empty state reaches, all of whose calls
keep the seals, the entry behind a host call that is carried out verifies; so it has the epoch of
a key that is still there, and a tag that was made with one.  The condition is exact for keeping
every valid entry verified. -/
theorem usable_sealed (hmac : Hmac) (key : Key) (policy : PolicyState) (cs : List KeyCall) :
    let s := run (KeyCall.exec hmac) (.initial key policy) cs
    (Along (KeyCall.exec hmac) (KeyCall.KeepsSeals hmac) (.initial key policy) cs →
      ∀ p hc auth res s', Exec p (.hostCall hc auth res) s s' →
        ∃ cap, s.getCap auth.cap.id = some cap ∧
          s.kernel.verifyCapSeal hmac cap = some true ∧
          s.kernel.keyState.epochValid cap.epoch = true ∧
          (SealedBy hmac s.kernel.keyState.current cap ∨
            ∃ prev, s.kernel.keyState.previous = some prev ∧ SealedBy hmac prev cap)) ∧
    ((∀ n, Authentic hmac (run (KeyCall.exec hmac) (.initial key policy) (cs.take n))) ↔
      Along (KeyCall.exec hmac) (KeyCall.KeepsSeals hmac) (.initial key policy) cs) := by
  intro s
  have start : (State.initial key policy).kernel.revocation.caps.Sorted := .nil
  have keep : ∀ (s : State) (kc : KeyCall), s.kernel.revocation.caps.Sorted →
      (kc.exec hmac s).kernel.revocation.caps.Sorted := fun _ kc hs => kc.sorted hmac hs
  have exact_iff := prefixes_iff_along keep (fun _ kc => kc.authentic_iff hmac) cs start
    fun _ _ h _ => nomatch h
  refine ⟨fun hok p hc auth res s' hx => ?_, exact_iff⟩
  have hauth : Authentic hmac s := by
    have h := exact_iff.mpr hok cs.length
    rwa [List.take_length] at h
  obtain ⟨_, _, hgood, _⟩ := (checkHostCall_ok_iff s hc auth).mp hx.effect.hostCall.1
  obtain ⟨cap, hcap, hv⟩ := isValid_iff.mp hgood.entry
  have hver := hauth auth.cap.id cap hcap hv
  exact ⟨cap, hcap, hver, (KernelState.verifyCapSeal_iff hmac s.kernel cap).mp hver⟩

/-- the tag that HMAC-SHA256 gives with the zero key to the payload of `sampleRoot` -/
def sampleRootMac : Hmac := fun _ _ =>
  ⟨#v[0x93, 0xaa, 0x4b, 0xb2, 0x5e, 0x82, 0x43, 0xb5, 0x6b, 0x4d, 0xe0, 0xed, 0xb1, 0xde, 0x21,
    0x9a, 0xc7, 0x70, 0x23, 0xa2, 0x01, 0xa0, 0xe1, 0x59, 0x91, 0x1d, 0x00, 0x4f, 0xa8, 0x3b,
    0xaa, 0xc9]⟩

/-- the root, whose tag is empty, is put into the table as it is -/
def sampleUnsealed : State :=
  run (KeyCall.exec sampleRootMac) (.initial .empty .permitAll)
    [.call (.alloc 1 8), .call (.registerPlugin 1 .Public 0), .call (.insertCapRaw sampleRoot 1)]

/-- plugin 1 calls with the root, and the call is carried out -/
theorem forged_used :
    ∃ t, Step.hostCallAtomic sampleUnsealed ⟨1, .capCall, [0], [], []⟩ 100 ⟨0, none⟩ .empty =
        .ok t ∧
      t = .hostCall ⟨1, .capCall, [0], [], []⟩
        ⟨sampleRoot, ⟨1, 0, .singleton .read, "cap_call"⟩, ⟨0, none⟩⟩ .empty ∧
      t.execute sampleUnsealed = .ok sampleUnsealed ∧
      sampleUnsealed.getCap sampleRoot.id = some sampleRoot ∧
      sampleUnsealed.kernel.verifyCapSeal sampleRootMac sampleRoot = some false :=
  ⟨_, by decide, rfl, by decide, by decide, by decide⟩

end LionCore
