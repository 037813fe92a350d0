import Mathlib.Data.List.Basic

namespace Lib

/-- What is known of characters. -/
structure Casing where
  cased : Char → Bool
  ignorable : Char → Bool
  lowerChar : Char → List Char

namespace Casing

variable (k : Casing)

def nextCased (cs : List Char) : Bool := (cs.find? fun c => !k.ignorable c).any k.cased

def finalSigma (before after : List Char) : Bool := k.nextCased before && !k.nextCased after

def lowerFrom (before : List Char) : List Char → List Char
  | [] => []
  | c :: after =>
    (if c = 'Σ' then [if k.finalSigma before after then 'ς' else 'σ'] else k.lowerChar c) ++
      lowerFrom (c :: before) after

def lowerText (cs : List Char) : List Char := k.lowerFrom [] cs

def finalSigmasFrom (before : List Char) : List Char → List Bool
  | [] => []
  | c :: after =>
    if c = 'Σ' then k.finalSigma before after :: finalSigmasFrom (c :: before) after
    else finalSigmasFrom (c :: before) after

def finalSigmas (cs : List Char) : List Bool := k.finalSigmasFrom [] cs

/-- The text in lower case, where the forms of its sigmas are known. -/
def lowerWith : List Bool → List Char → List Char
  | _, [] => []
  | finals, c :: cs =>
    if c = 'Σ' then
      (if finals.headD false then 'ς' else 'σ') :: lowerWith finals.tail cs
    else k.lowerChar c ++ lowerWith finals cs

variable {k} {before cs ds : List Char} {finals : List Bool} {keep : Char → Bool}

theorem lowerFrom_eq : k.lowerFrom before cs = k.lowerWith (k.finalSigmasFrom before cs) cs := by
  induction cs generalizing before with
  | nil => rfl
  | cons c after ih =>
    rw [lowerFrom, finalSigmasFrom]
    by_cases hc : c = 'Σ'
    · rw [if_pos hc, if_pos hc, lowerWith, if_pos hc, ih]
      rfl
    · rw [if_neg hc, if_neg hc, lowerWith, if_neg hc, ih]

theorem filter_lowerWith
    (hkeep : ∀ c, keep c = false → c ≠ 'Σ' ∧ ∀ d ∈ k.lowerChar c, keep d = false) :
    (k.lowerWith finals cs).filter keep = (k.lowerWith finals (cs.filter keep)).filter keep := by
  induction cs generalizing finals with
  | nil => rfl
  | cons c cs ih =>
    cases hc : keep c with
    | false =>
      obtain ⟨hsigma, hgone⟩ := hkeep c hc
      have hnone : (k.lowerChar c).filter keep = [] :=
        List.filter_eq_nil_iff.mpr fun d hd => by
          rw [hgone d hd]
          exact Bool.false_ne_true
      rw [List.filter_cons_of_neg (by rw [hc]; exact Bool.false_ne_true), lowerWith, if_neg hsigma,
        List.filter_append, hnone, List.nil_append, ih]
    | true =>
      rw [List.filter_cons_of_pos hc, lowerWith, lowerWith]
      by_cases hsigma : c = 'Σ'
      · rw [if_pos hsigma, if_pos hsigma, List.filter_cons, List.filter_cons, ih]
      · rw [if_neg hsigma, if_neg hsigma, List.filter_append, List.filter_append, ih]

theorem filter_lowerText_eq
    (hkeep : ∀ c, keep c = false → c ≠ 'Σ' ∧ ∀ d ∈ k.lowerChar c, keep d = false)
    (hcs : cs.filter keep = ds.filter keep) (hfinals : k.finalSigmas cs = k.finalSigmas ds) :
    (k.lowerText cs).filter keep = (k.lowerText ds).filter keep := by
  calc (k.lowerText cs).filter keep
      = (k.lowerWith (k.finalSigmas cs) cs).filter keep := by rw [lowerText, lowerFrom_eq]; rfl
    _ = (k.lowerWith (k.finalSigmas ds) (ds.filter keep)).filter keep := by
        rw [filter_lowerWith hkeep, hcs, hfinals]
    _ = (k.lowerText ds).filter keep := by
        rw [← filter_lowerWith hkeep, lowerText, lowerFrom_eq]
        rfl

theorem lowerText_of_fixed (h : ∀ c ∈ cs, c ≠ 'Σ' ∧ k.lowerChar c = [c]) :
    k.lowerText cs = cs := by
  have hfrom : ∀ before, k.lowerFrom before cs = cs := by
    induction cs with
    | nil => exact fun _ => rfl
    | cons c cs ih =>
      intro before
      obtain ⟨hc, hcs⟩ := List.forall_mem_cons.mp h
      rw [lowerFrom, if_neg hc.1, hc.2, ih hcs]
      rfl
  exact hfrom []

theorem mem_lowerFrom {d : Char} (h : d ∈ k.lowerFrom before cs) :
    d = 'σ' ∨ d = 'ς' ∨ ∃ c ∈ cs, c ≠ 'Σ' ∧ d ∈ k.lowerChar c := by
  induction cs generalizing before with
  | nil => cases h
  | cons c cs ih =>
    rw [lowerFrom, List.mem_append] at h
    rcases h with h | h
    · by_cases hc : c = 'Σ'
      · rw [if_pos hc, List.mem_singleton] at h
        split at h
        · exact Or.inr (Or.inl h)
        · exact Or.inl h
      · rw [if_neg hc] at h
        exact Or.inr (Or.inr ⟨c, List.mem_cons_self, hc, h⟩)
    · rcases ih h with h | h | ⟨c', hc', h⟩
      · exact Or.inl h
      · exact Or.inr (Or.inl h)
      · exact Or.inr (Or.inr ⟨c', List.mem_cons_of_mem c hc', h⟩)

end Casing

end Lib
