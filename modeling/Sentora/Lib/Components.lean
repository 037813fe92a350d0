import Mathlib.Data.List.Basic
import Mathlib.Data.Nat.Digits.Defs

namespace Lib

def Lower (a b : List Nat) : Prop :=
  ∃ n, (∀ i < n, a.getD i 0 = b.getD i 0) ∧ a.getD n 0 < b.getD n 0

/-- The comparison from the left. -/
def isLower : List Nat → List Nat → Bool
  | _, [] => false
  | [], y :: ys => decide (0 < y) || isLower [] ys
  | x :: xs, y :: ys => decide (x < y) || decide (x = y) && isLower xs ys

section Lower

variable {x y : Nat} {xs ys : List Nat}

theorem not_lower_zeros (h : ∀ n, ys.getD n 0 = 0) : ¬Lower xs ys := by
  rintro ⟨n, -, hn⟩
  rw [h n] at hn
  exact absurd hn (Nat.not_lt_zero _)

theorem lower_nil_cons : Lower [] (y :: ys) ↔ 0 < y ∨ Lower [] ys := by
  constructor
  · rintro ⟨n, hsame, hn⟩
    cases n with
    | zero => exact .inl hn
    | succ n => exact .inr ⟨n, fun i hi => hsame (i + 1) (by omega), hn⟩
  · rintro (hy | ⟨n, hsame, hn⟩)
    · exact ⟨0, fun i hi => absurd hi (Nat.not_lt_zero i), hy⟩
    · by_cases hy : y = 0
      · refine ⟨n + 1, fun i hi => ?_, hn⟩
        cases i with
        | zero => exact hy.symm
        | succ i => exact hsame i (by omega)
      · exact ⟨0, fun i hi => absurd hi (Nat.not_lt_zero i), Nat.pos_of_ne_zero hy⟩

theorem lower_cons : Lower (x :: xs) (y :: ys) ↔ x < y ∨ x = y ∧ Lower xs ys := by
  constructor
  · rintro ⟨n, hsame, hn⟩
    cases n with
    | zero => exact .inl hn
    | succ n => exact .inr ⟨hsame 0 (by omega), n, fun i hi => hsame (i + 1) (by omega), hn⟩
  · rintro (hlt | ⟨rfl, n, hsame, hn⟩)
    · exact ⟨0, fun i hi => absurd hi (Nat.not_lt_zero i), hlt⟩
    · refine ⟨n + 1, fun i hi => ?_, hn⟩
      cases i with
      | zero => rfl
      | succ i => exact hsame i (by omega)

theorem isLower_iff (xs ys : List Nat) : isLower xs ys = true ↔ Lower xs ys := by
  induction ys generalizing xs with
  | nil =>
    unfold isLower
    exact iff_of_false Bool.false_ne_true (not_lower_zeros fun n => List.getD_nil)
  | cons y ys ih =>
    cases xs with
    | nil =>
      unfold isLower
      rw [Bool.or_eq_true, decide_eq_true_iff, ih, lower_nil_cons]
    | cons x xs =>
      unfold isLower
      rw [Bool.or_eq_true, Bool.and_eq_true, decide_eq_true_iff, decide_eq_true_iff, ih,
        lower_cons]

instance (xs ys : List Nat) : Decidable (Lower xs ys) := decidable_of_iff _ (isLower_iff xs ys)

end Lower

def numeral (digits : List Char) : Nat :=
  if digits.all Char.isDigit then
    Nat.ofDigits 10 (digits.reverse.map fun c => c.toNat - '0'.toNat)
  else 0

def components (version : String) : List Nat := (version.toList.splitOn '.').map numeral

example : Lower (components "23.1") (components "23.1.4") := by decide

example : ¬Lower (components "23.1-rc") (components "23.0.0") := by decide

end Lib
