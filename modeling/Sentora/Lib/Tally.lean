import Mathlib.Data.List.Induction
import Mathlib.Data.List.Nodup

namespace Lib

abbrev Counts (κ : Type) := List (κ × Nat)

variable {α κ : Type} [DecidableEq κ]

/-- `counts[a] = counts.get(a, 0) + 1`. -/
def increment (a : κ) : Counts κ → Counts κ
  | [] => [(a, 1)]
  | (k, n) :: counts => if k = a then (k, n + 1) :: counts else (k, n) :: increment a counts

def countOf (a : κ) : Counts κ → Nat
  | [] => 0
  | (k, n) :: counts => if k = a then n else countOf a counts

def tally (xs : List κ) : Counts κ := xs.foldl (fun counts a => increment a counts) []

section Tally

variable {a b : κ} {n : Nat} {counts : Counts κ} {xs : List κ}

theorem tally_concat : tally (xs ++ [a]) = increment a (tally xs) := List.foldl_concat ..

theorem countOf_increment :
    countOf b (increment a counts) = countOf b counts + if a = b then 1 else 0 := by
  induction counts with
  | nil => simp [increment, countOf]
  | cons p counts ih =>
    obtain ⟨k, n⟩ := p
    rw [increment]
    by_cases hk : k = a
    · rw [if_pos hk, countOf, countOf, hk]
      by_cases hab : a = b <;> simp [hab]
    · rw [if_neg hk, countOf, countOf, ih]
      by_cases hkb : k = b
      · rw [if_pos hkb, if_pos hkb, if_neg fun hab => hk (hkb.trans hab.symm), Nat.add_zero]
      · rw [if_neg hkb, if_neg hkb]

theorem mem_keys_increment :
    b ∈ (increment a counts).map Prod.fst ↔ b = a ∨ b ∈ counts.map Prod.fst := by
  induction counts with
  | nil => simp [increment]
  | cons p counts ih =>
    obtain ⟨k, n⟩ := p
    rw [increment]
    by_cases hk : k = a
    · rw [if_pos hk, List.map_cons, List.map_cons, List.mem_cons, hk]
      exact ⟨Or.inr, fun h => h.elim Or.inl id⟩
    · rw [if_neg hk, List.map_cons, List.map_cons, List.mem_cons, List.mem_cons, ih]
      exact or_left_comm

theorem nodup_keys_increment (h : (counts.map Prod.fst).Nodup) :
    ((increment a counts).map Prod.fst).Nodup := by
  induction counts with
  | nil => exact List.nodup_singleton a
  | cons p counts ih =>
    obtain ⟨k, n⟩ := p
    rw [List.map_cons, List.nodup_cons] at h
    rw [increment]
    by_cases hk : k = a
    · rw [if_pos hk, List.map_cons, List.nodup_cons]
      exact h
    · rw [if_neg hk, List.map_cons, List.nodup_cons, mem_keys_increment]
      exact ⟨fun hmem => hmem.elim hk h.1, ih h.2⟩

theorem countOf_tally : countOf a (tally xs) = xs.count a := by
  induction xs using List.reverseRecOn with
  | nil => rfl
  | append_singleton xs b ih =>
    rw [tally_concat, countOf_increment, ih, List.count_append, List.count_singleton]
    by_cases hba : b = a <;> simp [hba]

theorem mem_keys_tally : a ∈ (tally xs).map Prod.fst ↔ a ∈ xs := by
  induction xs using List.reverseRecOn with
  | nil => rfl
  | append_singleton xs b ih =>
    rw [tally_concat, mem_keys_increment, ih, List.mem_append, List.mem_singleton, or_comm]

theorem nodup_keys_tally : ((tally xs).map Prod.fst).Nodup := by
  induction xs using List.reverseRecOn with
  | nil => exact List.nodup_nil
  | append_singleton xs b ih =>
    rw [tally_concat]
    exact nodup_keys_increment ih

theorem mem_iff_countOf (h : (counts.map Prod.fst).Nodup) :
    (a, n) ∈ counts ↔ a ∈ counts.map Prod.fst ∧ n = countOf a counts := by
  induction counts with
  | nil => simp
  | cons p counts ih =>
    obtain ⟨k, m⟩ := p
    rw [List.map_cons, List.nodup_cons] at h
    rw [List.mem_cons, ih h.2, List.map_cons, List.mem_cons, countOf, Prod.mk.injEq]
    by_cases hk : k = a
    · have hlater : a ∉ counts.map Prod.fst := hk ▸ h.1
      simp [hk, hlater]
    · simp [hk, Ne.symm hk]

theorem mem_tally : (a, n) ∈ tally xs ↔ a ∈ xs ∧ n = xs.count a := by
  rw [mem_iff_countOf nodup_keys_tally, mem_keys_tally, countOf_tally]

end Tally

section Values

variable {values : α → List κ} {a : κ} {xs : List α}

theorem countP_le_count_flatMap :
    (xs.countP fun x => a ∈ values x) ≤ (xs.flatMap values).count a := by
  induction xs with
  | nil => exact Nat.le_refl 0
  | cons x xs ih =>
    rw [List.countP_cons, List.flatMap_cons, List.count_append]
    by_cases hx : a ∈ values x
    · have hpos := List.count_pos_iff.mpr hx
      simp only [hx, decide_true, if_true]
      omega
    · simp only [hx, decide_false, Bool.false_eq_true, if_false]
      omega

theorem count_flatMap_eq_countP_iff :
    (xs.flatMap values).count a = (xs.countP fun x => a ∈ values x) ↔
      ∀ x ∈ xs, (values x).count a ≤ 1 := by
  induction xs with
  | nil => simp
  | cons x xs ih =>
    have hle : (xs.countP fun x => a ∈ values x) ≤ (xs.flatMap values).count a :=
      countP_le_count_flatMap
    rw [List.countP_cons, List.flatMap_cons, List.count_append, List.forall_mem_cons, ← ih]
    by_cases hx : a ∈ values x
    · have hpos := List.count_pos_iff.mpr hx
      simp only [hx, decide_true, if_true]
      omega
    · have hzero := List.count_eq_zero.mpr hx
      simp only [hx, decide_false, Bool.false_eq_true, if_false]
      omega

end Values

end Lib
