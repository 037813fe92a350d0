import Mathlib.Logic.Basic

namespace Lib

section Fallible

variable {ε ε' α β : Type} {e : Except ε α} {a : α} {b : β}

theorem ok_bind (a : α) (f : α → Except ε β) : (Except.ok a >>= f) = f a := rfl

theorem bind_eq_ok {f : α → Except ε β} :
    (e >>= f) = .ok b ↔ ∃ a, e = .ok a ∧ f a = .ok b := by
  cases e with
  | error e => exact ⟨nofun, fun ⟨_, h, _⟩ => nomatch h⟩
  | ok a =>
    constructor
    · exact fun h => ⟨a, rfl, h⟩
    · rintro ⟨a', ha, h⟩
      rw [Except.ok.inj ha]
      exact h

theorem mapError_eq_ok_iff {f : ε → ε'} : e.mapError f = .ok a ↔ e = .ok a := by
  cases e with
  | error e => exact iff_of_false nofun nofun
  | ok b =>
    constructor
    · exact fun h => congrArg Except.ok (Except.ok.inj h)
    · exact fun h => congrArg Except.ok (Except.ok.inj h)

end Fallible

inductive Ending where
  | done
  | raises (applied : Bool)
deriving DecidableEq

def Ending.raised : Ending → Bool
  | .done => false
  | .raises _ => true

def Ending.isApplied : Ending → Bool
  | .done => true
  | .raises applied => applied

end Lib
