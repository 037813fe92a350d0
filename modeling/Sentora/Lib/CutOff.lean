import Mathlib.Data.Fintype.BigOperators
import Sentora.Lib.Machine
import Sentora.Lib.Process

namespace Lib

variable {ι σ ℓ α : Type} [DecidableEq ι]

namespace Pool

/-- A process takes its next step, or is cut off before it. -/
inductive Event (ι : Type) where
  | turn (i : ι)
  | cut (i : ι)

variable {c : Pool ι σ ℓ (fun _ => α)} {i j : ι} {l : ℓ} {a : α}

/-- Process `i` ends with `a`.  A finished process has its result. -/
def cut (a : α) (c : Pool ι σ ℓ (fun _ => α)) (i : ι) : Pool ι σ ℓ (fun _ => α) :=
  match c.procs i with
  | .ret _ => c
  | .step _ _ _ => ⟨c.state, Function.update c.procs i (.ret a)⟩

def react (a : α) (c : Pool ι σ ℓ (fun _ => α)) : Event ι → Pool ι σ ℓ (fun _ => α)
  | .turn i => c.turn i
  | .cut i => c.cut a i

/-- Every process may take its turn, or be cut off with `a`, at any time. -/
def cuttable (a : α) : Machine (Pool ι σ ℓ (fun _ => α)) (Event ι) where
  Enabled _ _ := True
  next := react a

theorem state_cut : (c.cut a i).state = c.state := by
  unfold cut
  split
  · rfl
  · rfl

theorem cut_of_next?_none (h : (c.procs i).next? = none) : c.cut a i = c := by
  unfold cut
  cases hp : c.procs i with
  | ret b => rfl
  | step l u k =>
    rw [hp] at h
    cases h

theorem procs_cut_of_ne (h : j ≠ i) : (c.cut a i).procs j = c.procs j := by
  unfold cut
  split
  · rfl
  · exact Function.update_of_ne h ..

theorem procs_cut_self (h : (c.procs i).next? = some l) : (c.cut a i).procs i = .ret a := by
  unfold cut
  cases hp : c.procs i with
  | ret b =>
    rw [hp] at h
    cases h
  | step l' u k => exact Function.update_self ..

theorem cut_always {P : Process σ ℓ α → Prop} (h : ∀ i, (c.procs i).Always P) (ha : P (.ret a))
    (i : ι) : ∀ j, ((c.cut a i).procs j).Always P := by
  intro j
  by_cases hj : j = i
  · subst hj
    cases hl : (c.procs j).next? with
    | none =>
      rw [cut_of_next?_none hl]
      exact h j
    | some l =>
      rw [procs_cut_self hl]
      exact ha
  · rw [procs_cut_of_ne hj]
    exact h j

section Owing

variable [Fintype ι]

def owing (w : ℓ → Int) (c : Pool ι σ ℓ (fun _ => α)) : Int :=
  ∑ i, (c.procs i).next?.elim 0 w

variable {w : ℓ → Int}

/-- Pools that differ in one process. -/
theorem owing_of_others {d : Pool ι σ ℓ (fun _ => α)}
    (h : ∀ j, j ≠ i → d.procs j = c.procs j) :
    d.owing w = c.owing w - (c.procs i).next?.elim 0 w + (d.procs i).next?.elim 0 w := by
  unfold owing
  rw [← Finset.add_sum_erase Finset.univ _ (Finset.mem_univ i),
    ← Finset.add_sum_erase Finset.univ _ (Finset.mem_univ i)]
  have hrest : ∑ j ∈ Finset.univ.erase i, (d.procs j).next?.elim 0 w =
      ∑ j ∈ Finset.univ.erase i, (c.procs j).next?.elim 0 w :=
    Finset.sum_congr rfl fun j hj => by rw [h j (Finset.ne_of_mem_erase hj)]
  rw [hrest]
  omega

theorem owing_turn (hl : (c.procs i).next? = some l) :
    (c.turn i).owing w = c.owing w - w l + ((c.turn i).procs i).next?.elim 0 w := by
  rw [owing_of_others fun j hj => turn_procs_of_ne hj, hl]
  rfl

theorem owing_cut (hl : (c.procs i).next? = some l) :
    (c.cut a i).owing w = c.owing w - w l := by
  rw [owing_of_others fun j hj => procs_cut_of_ne hj, hl, procs_cut_self hl]
  exact Int.add_zero _

omit [DecidableEq ι] in
theorem owing_finished (h : ∀ i, (c.procs i).next? = none) : c.owing w = 0 :=
  Finset.sum_eq_zero fun i _ => by
    rw [h i]
    rfl

def standing (P : Option ℓ → Bool) (c : Pool ι σ ℓ (fun _ => α)) : Nat :=
  (Finset.univ.filter fun i => P (c.procs i).next? = true).card

variable {P : Option ℓ → Bool}

theorem standing_turn (P : Option ℓ → Bool) (c : Pool ι σ ℓ (fun _ => α)) (i : ι) :
    (c.turn i).standing P + (P (c.procs i).next?).toNat =
      c.standing P + (P ((c.turn i).procs i).next?).toNat := by
  unfold standing
  rw [Finset.card_filter, Finset.card_filter,
    ← Finset.add_sum_erase Finset.univ _ (Finset.mem_univ i),
    ← Finset.add_sum_erase Finset.univ _ (Finset.mem_univ i)]
  have hrest : (∑ j ∈ Finset.univ.erase i, if P ((c.turn i).procs j).next? = true then 1 else 0) =
      ∑ j ∈ Finset.univ.erase i, if P (c.procs j).next? = true then 1 else 0 :=
    Finset.sum_congr rfl fun j hj => by rw [turn_procs_of_ne (Finset.ne_of_mem_erase hj)]
  rw [hrest]
  cases P (c.procs i).next? <;> cases P ((c.turn i).procs i).next? <;> simp <;> omega

omit [DecidableEq ι] in
theorem standing_eq_zero (h : ∀ i, P (c.procs i).next? = false) : c.standing P = 0 := by
  unfold standing
  rw [Finset.card_eq_zero, Finset.filter_eq_empty_iff]
  intro i _ hi
  exact absurd ((h i).symm.trans hi) Bool.false_ne_true

end Owing

end Pool

end Lib
