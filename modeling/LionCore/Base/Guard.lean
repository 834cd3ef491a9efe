import Mathlib.Data.List.Basic

/-!
# Fallible operations, cloning and in place

An operation on `&S` is an `Except E S`: a new state or an error.  An operation on `&mut S` is a
pair of a result and the state that is left behind.

* `guardMut`            a check in front of an operation in place;
* `Agrees`              the two forms of an operation have the same outcome;
* `agrees_guard_iff`    behind the same check, two forms agree if the check fails or they do.
-/

namespace Base

section
variable {S E R : Type}

/-- run `act` if the check passes; if it fails, its error is the result and nothing has changed -/
def guardMut (check : Except E Unit) (s : S) (act : Except E R × S) : Except E R × S :=
  match check with
  | .error e => (.error e, s)
  | .ok () => act

/-- the cloning form `p` and the form in place `m` succeed together, with the same state, and
fail together, with the same error -/
def Agrees (p : Except E S) (m : Except E Unit × S) : Prop :=
  match p with
  | .ok s' => m = (.ok (), s')
  | .error e => m.1 = .error e

theorem bind_ok_iff {A : Type} {c : Except E A} {f : A → Except E R} {x : R} :
    (c >>= f) = .ok x ↔ ∃ a, c = .ok a ∧ f a = .ok x := by
  cases c with
  | error e => exact ⟨nofun, fun ⟨_, h, _⟩ => nomatch h⟩
  | ok a => exact ⟨fun h => ⟨a, rfl, h⟩, fun ⟨_, h, h'⟩ => by cases h; exact h'⟩

theorem mapError_ok_iff {E' : Type} {c : Except E R} {f : E → E'} {x : R} :
    c.mapError f = .ok x ↔ c = .ok x := by
  cases c with
  | error e => exact ⟨nofun, nofun⟩
  | ok a => exact ⟨fun h => by cases h; rfl, fun h => by cases h; rfl⟩

theorem check_bind_ok_iff {c : Except E Unit} {f : Unit → Except E R} {x : R} :
    (c >>= f) = .ok x ↔ c = .ok () ∧ f () = .ok x := by
  cases c with
  | error e => exact ⟨nofun, fun h => nomatch h.1⟩
  | ok u => exact ⟨fun h => ⟨rfl, h⟩, fun h => h.2⟩

theorem guardMut_ok_iff {c : Except E Unit} {s s' : S} {act : Except E R × S} {x : R} :
    guardMut c s act = (.ok x, s') ↔ c = .ok () ∧ act = (.ok x, s') := by
  cases c with
  | error e => exact ⟨nofun, fun h => nomatch h.1⟩
  | ok u => exact ⟨fun h => ⟨rfl, h⟩, fun h => h.2⟩

/-- a guarded operation fails without a change if the operation behind the guard does -/
theorem guardMut_error {c : Except E Unit} {s s' : S} {act : Except E R × S} {e : E}
    (hact : ∀ e' t, act = (.error e', t) → t = s) (h : guardMut c s act = (.error e, s')) :
    s' = s := by
  cases c with
  | error e' => exact (Prod.mk.inj h).2.symm
  | ok u => exact hact e s' h

theorem agrees_guard_iff {c : Except E Unit} {s : S} {p : Except E S} {m : Except E Unit × S} :
    Agrees (c >>= fun _ => p) (guardMut c s m) ↔ c ≠ .ok () ∨ Agrees p m := by
  cases c with
  | error e => exact iff_of_true rfl (Or.inl nofun)
  | ok u => exact ⟨Or.inr, fun h => h.resolve_left fun h => h rfl⟩

theorem Agrees.ok (s : S) : Agrees (E := E) (.ok s) (.ok (), s) := rfl

end
end Base
