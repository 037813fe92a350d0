import Mathlib.Data.List.Basic
import Mathlib.Logic.Relation

namespace Lib

section Trees

variable {ν β : Type}

/-- A path with the content of its file, or `none` for a directory. -/
abbrev FileTree (ν β : Type) := List (List ν × Option β)

namespace FileTree

variable [DecidableEq ν] {t u : FileTree ν β} {p q : List ν} {e : List ν × Option β}

/-- What exists at a path and under it, as seen from there. -/
def below (t : FileTree ν β) (p : List ν) : FileTree ν β :=
  (t.filter fun e => p <+: e.1).map fun e => (e.1.drop p.length, e.2)

def hasPath (t : FileTree ν β) (p : List ν) : Bool := t.any fun e => p <+: e.1

def isFile (t : FileTree ν β) (p : List ν) : Bool := t.any fun e => e.1 = p ∧ e.2.isSome

def without (t : FileTree ν β) (p : List ν) : FileTree ν β := t.filter fun e => ¬p <+: e.1

def put (t : FileTree ν β) (p : List ν) (u : FileTree ν β) : FileTree ν β :=
  t.without p ++ u.map fun e => (p ++ e.1, e.2)

@[simp] theorem mem_without : e ∈ t.without p ↔ e ∈ t ∧ ¬p <+: e.1 := by
  rw [without, List.mem_filter, decide_eq_true_iff]

theorem below_eq_nil_iff : t.below p = [] ↔ t.hasPath p = false := by
  rw [below, hasPath, List.map_eq_nil_iff, List.filter_eq_nil_iff, List.any_eq_false]

theorem without_of_not_hasPath (h : t.hasPath p = false) : t.without p = t := by
  rw [hasPath, List.any_eq_false] at h
  rw [without, List.filter_eq_self]
  exact fun e he => decide_eq_true fun hp => h e he (decide_eq_true hp)

@[simp] theorem below_nil : t.below [] = t := by
  rw [below, List.filter_eq_self.mpr fun e _ => decide_eq_true ⟨e.1, rfl⟩]
  exact List.map_id t

/-- What exists under a path that continues another one. -/
theorem below_append : t.below (p ++ q) = (t.below p).below q := by
  rw [below, below, below, List.filter_map, List.filter_filter, List.map_map]
  have hfilter : t.filter (fun e => p ++ q <+: e.1) =
      t.filter fun e => ((fun e : List ν × Option β => decide (q <+: e.1)) ∘
        fun e => (e.1.drop p.length, e.2)) e && decide (p <+: e.1) := by
    apply List.filter_congr
    intro e _
    rw [Bool.eq_iff_iff, Bool.and_eq_true, decide_eq_true_iff, Function.comp_apply,
      decide_eq_true_iff, decide_eq_true_iff]
    constructor
    · intro ⟨rest, heq⟩
      rw [← heq, List.append_assoc, List.drop_left]
      exact ⟨List.prefix_append q rest, List.prefix_append p _⟩
    · intro ⟨hq, rest, heq⟩
      rw [← heq, List.drop_left] at hq
      rw [← heq, List.prefix_append_right_inj]
      exact hq
  rw [hfilter]
  apply List.map_congr_left
  intro e _
  rw [Function.comp_apply, List.drop_drop, List.length_append]

theorem hasPath_eq : t.hasPath p = !(t.below p).isEmpty := by
  rw [Bool.eq_iff_iff, Bool.not_eq_true', List.isEmpty_eq_false_iff, ne_eq, below_eq_nil_iff,
    Bool.not_eq_false]

theorem hasPath_append : t.hasPath (p ++ q) = (t.below p).hasPath q := by
  rw [hasPath_eq, hasPath_eq, below_append]

theorem below_filter_iff {keep : List ν × Option β → Bool} :
    below (t.filter keep) q = t.below q ↔ ∀ e ∈ t, q <+: e.1 → keep e = true := by
  have hsub : ((t.filter keep).filter fun e => q <+: e.1).Sublist (t.filter fun e => q <+: e.1) :=
    List.filter_sublist.filter _
  constructor
  · intro heq e he hq
    have hlength := congrArg List.length heq
    rw [below, below, List.length_map, List.length_map] at hlength
    have hmem : e ∈ t.filter fun e => q <+: e.1 := List.mem_filter.mpr ⟨he, decide_eq_true hq⟩
    rw [← hsub.eq_of_length hlength] at hmem
    exact (List.mem_filter.mp (List.mem_of_mem_filter hmem)).2
  · intro hall
    rw [below, below, List.filter_filter]
    congr 1
    apply List.filter_congr
    intro e he
    by_cases hq : q <+: e.1
    · simp [hq, hall e he hq]
    · simp [hq]

end FileTree

end Trees

section Pieces

variable {α : Type*} {xs ys : List (List α)} {a b : List α}

/-- One cut is moved, or an empty piece is added. -/
inductive Recut1 : List (List α) → List (List α) → Prop where
  | move (before after : List (List α)) (a b c : List α) :
    Recut1 (before ++ (a ++ b) :: c :: after) (before ++ a :: (b ++ c) :: after)
  | addEmpty (before after : List (List α)) :
    Recut1 (before ++ after) (before ++ [] :: after)

/-- The pieces come from one another by moving cuts and by adding and removing empty pieces. -/
def Recut (xs ys : List (List α)) : Prop := Relation.EqvGen Recut1 xs ys

theorem Recut1.flatten_eq (h : Recut1 xs ys) : xs.flatten = ys.flatten := by
  cases h with
  | move before after a b c => simp
  | addEmpty before after => simp

theorem Recut1.cons (h : Recut1 xs ys) : Recut1 (a :: xs) (a :: ys) := by
  cases h with
  | move before after b c d => exact .move (a :: before) after b c d
  | addEmpty before after => exact .addEmpty (a :: before) after

theorem Recut.flatten_eq (h : Recut xs ys) : xs.flatten = ys.flatten := by
  induction h with
  | rel xs ys h => exact h.flatten_eq
  | refl xs => rfl
  | symm xs ys _ ih => exact ih.symm
  | trans xs ys zs _ _ ih ih' => exact ih.trans ih'

theorem Recut.cons (h : Recut xs ys) : Recut (a :: xs) (a :: ys) := by
  induction h with
  | rel xs ys h => exact .rel _ _ h.cons
  | refl xs => exact .refl _
  | symm xs ys _ ih => exact ih.symm
  | trans xs ys zs _ _ ih ih' => exact ih.trans _ _ _ ih'

/-- Two neighbours are joined by moving all of the first one to the second. -/
theorem recut_join : Recut [a, b] [a ++ b] := by
  have hmove : Recut [[] ++ a, b] [[], a ++ b] := .rel _ _ (.move [] [] [] a b)
  have hempty : Recut [a ++ b] [[], a ++ b] := .rel _ _ (.addEmpty [] [a ++ b])
  exact hmove.trans _ _ _ hempty.symm

/-- Every list of pieces comes from the whole text as one piece. -/
theorem recut_flatten : Recut xs [xs.flatten] := by
  induction xs with
  | nil => exact .rel _ _ (.addEmpty [] [])
  | cons a xs ih =>
    rw [List.flatten_cons]
    exact ih.cons.trans _ _ _ recut_join

theorem recut_iff : Recut xs ys ↔ xs.flatten = ys.flatten := by
  constructor
  · exact Recut.flatten_eq
  · intro heq
    have hys : Recut ys [xs.flatten] := by
      rw [heq]
      exact recut_flatten
    exact recut_flatten.trans _ _ _ hys.symm

end Pieces

end Lib
