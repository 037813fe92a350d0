import Mathlib.Data.List.Basic

namespace Lib

variable {ι κ β : Type} [DecidableEq κ]

section Firsts

variable (entry : ι → Option (κ × Option β))

def firsts : List κ → List ι → List β
  | _, [] => []
  | seen, i :: rest =>
    match entry i with
    | none => firsts seen rest
    | some (k, b) =>
      if k ∈ seen then firsts seen rest else b.toList ++ firsts (k :: seen) rest

/-- The memory behind the items. -/
def marked : List κ → List ι → List κ
  | seen, [] => seen
  | seen, i :: rest =>
    match entry i with
    | none => marked seen rest
    | some (k, _) => if k ∈ seen then marked seen rest else marked (k :: seen) rest

end Firsts

variable {entry : ι → Option (κ × Option β)} {seen seen' : List κ} {xs ys : List ι} {b : β}

theorem firsts_append :
    firsts entry seen (xs ++ ys) =
      firsts entry seen xs ++ firsts entry (marked entry seen xs) ys := by
  induction xs generalizing seen with
  | nil => rfl
  | cons i rest ih =>
    rw [List.cons_append, firsts, firsts, marked]
    split
    · exact ih
    · split
      · exact ih
      · rw [ih, List.append_assoc]

theorem exists_of_mem_firsts (h : b ∈ firsts entry seen xs) :
    ∃ i ∈ xs, ∃ k, k ∉ seen ∧ entry i = some (k, some b) := by
  induction xs generalizing seen with
  | nil => exact absurd h List.not_mem_nil
  | cons i rest ih =>
    rw [firsts] at h
    split at h
    · obtain ⟨j, hj, hb⟩ := ih h
      exact ⟨j, List.mem_cons_of_mem _ hj, hb⟩
    · rename_i k c hi
      split at h
      · obtain ⟨j, hj, hb⟩ := ih h
        exact ⟨j, List.mem_cons_of_mem _ hj, hb⟩
      · rename_i hk
        rcases List.mem_append.mp h with hc | hrest
        · rw [Option.mem_toList] at hc
          exact ⟨i, List.mem_cons_self .., k, hk, hi.trans (by rw [hc])⟩
        · obtain ⟨j, hj, k', hk', hb⟩ := ih hrest
          exact ⟨j, List.mem_cons_of_mem _ hj, k', fun hmem =>
            hk' (List.mem_cons_of_mem _ hmem), hb⟩

/-- A larger memory passes over more. -/
theorem firsts_sublist (h : ∀ k ∈ seen, k ∈ seen') :
    (firsts entry seen' xs).Sublist (firsts entry seen xs) := by
  induction xs generalizing seen seen' with
  | nil => exact List.Sublist.refl _
  | cons i rest ih =>
    rw [firsts, firsts]
    split
    · exact ih h
    · rename_i k b hi
      by_cases hk : k ∈ seen
      · rw [if_pos hk, if_pos (h k hk)]
        exact ih h
      · rw [if_neg hk]
        by_cases hk' : k ∈ seen'
        · rw [if_pos hk']
          refine (ih fun k'' hmem => ?_).trans (List.sublist_append_right ..)
          rcases List.mem_cons.mp hmem with rfl | hmem
          · exact hk'
          · exact h k'' hmem
        · rw [if_neg hk']
          refine List.Sublist.append_left (ih fun k'' hmem => ?_) _
          rcases List.mem_cons.mp hmem with rfl | hmem
          · exact List.mem_cons_self ..
          · exact List.mem_cons_of_mem _ (h k'' hmem)

/-- Keys that come back are all that the memory makes a difference for. -/
theorem firsts_of_new (h : ∀ i ∈ xs, ∀ k c, entry i = some (k, c) → (k ∈ seen ↔ k ∈ seen')) :
    firsts entry seen xs = firsts entry seen' xs := by
  induction xs generalizing seen seen' with
  | nil => rfl
  | cons i rest ih =>
    have hrest : ∀ j ∈ rest, ∀ k c, entry j = some (k, c) → (k ∈ seen ↔ k ∈ seen') :=
      fun j hj => h j (List.mem_cons_of_mem _ hj)
    rw [firsts, firsts]
    split
    · exact ih hrest
    · rename_i k b hi
      have hiff := h i (List.mem_cons_self ..) k b hi
      by_cases hk : k ∈ seen
      · rw [if_pos hk, if_pos (hiff.mp hk)]
        exact ih hrest
      · rw [if_neg hk, if_neg fun hk' => hk (hiff.mpr hk')]
        refine congrArg (b.toList ++ ·) (ih fun j hj k' c hc => ?_)
        rw [List.mem_cons, List.mem_cons, hrest j hj k' c hc]

/-- Values that determine their key come at most once. -/
theorem nodup_firsts {α : Type} {f : β → α}
    (hf : ∀ i ∈ xs, ∀ j ∈ xs, ∀ k k' b b',
      entry i = some (k, some b) → entry j = some (k', some b') →
      f b = f b' → k = k') : ((firsts entry seen xs).map f).Nodup := by
  induction xs generalizing seen with
  | nil => exact List.nodup_nil
  | cons i rest ih =>
    have hrest : ∀ seen, ((firsts entry seen rest).map f).Nodup := fun seen =>
      ih fun j hj j' hj' => hf j (List.mem_cons_of_mem _ hj) j' (List.mem_cons_of_mem _ hj')
    rw [firsts]
    split
    · exact hrest _
    · rename_i k c hi
      split
      · exact hrest _
      · cases c with
        | none => exact hrest _
        | some b =>
          show (f b :: (firsts entry (k :: seen) rest).map f).Nodup
          refine List.nodup_cons.mpr ⟨fun hmem => ?_, hrest _⟩
          obtain ⟨b', hb', heq⟩ := List.mem_map.mp hmem
          obtain ⟨j, hj, k', hk', hentry⟩ := exists_of_mem_firsts hb'
          have hsame := hf i (List.mem_cons_self ..) j (List.mem_cons_of_mem _ hj) k k' b b' hi
            hentry heq.symm
          exact hk' (hsame ▸ List.mem_cons_self ..)

end Lib
