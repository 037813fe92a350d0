/-!
# Machines

A machine says which acts are enabled in a state and what each of them does.  A
run is a list of enabled acts; `good` is a condition on each act where it is
done.  An invariant is kept by one act and with it by every run.

Where one request leaves a property if and only if it meets a condition, the property holds
after each of some requests if and only if all of them meet the condition.
-/

namespace Lib

structure Machine (σ α : Type) where
  Enabled : σ → α → Prop
  next : σ → α → σ

namespace Machine

variable {σ α : Type} {M : Machine σ α} {good better : σ → α → Prop} {I J : σ → Prop}

def after (M : Machine σ α) (s : σ) (acts : List α) : σ := acts.foldl M.next s

/-- Every act is enabled where it is done, and is good there. -/
def Runs (M : Machine σ α) (good : σ → α → Prop) : σ → List α → Prop
  | _, [] => True
  | s, act :: acts => (M.Enabled s act ∧ good s act) ∧ M.Runs good (M.next s act) acts

instance Runs.decidable [∀ s act, Decidable (M.Enabled s act)] [∀ s act, Decidable (good s act)] :
    ∀ s acts, Decidable (M.Runs good s acts)
  | _, [] => isTrue trivial
  | s, act :: acts =>
    have := Runs.decidable (M.next s act) acts
    inferInstanceAs (Decidable ((M.Enabled s act ∧ good s act) ∧ _))

def Keeps (M : Machine σ α) (good : σ → α → Prop) (I : σ → Prop) : Prop :=
  ∀ s act, M.Enabled s act → good s act → I s → I (M.next s act)

/-- A part of a run from its start is a run. -/
theorem Runs.initial {s : σ} {before acts : List α} (h : M.Runs good s acts)
    (hbefore : before <+: acts) : M.Runs good s before := by
  induction before generalizing s acts with
  | nil => trivial
  | cons act before ih =>
    cases acts with
    | nil => cases List.prefix_nil.mp hbefore
    | cons first acts =>
      obtain ⟨rfl, hrest⟩ := List.cons_prefix_cons.mp hbefore
      exact ⟨h.1, ih h.2 hrest⟩

theorem Keeps.mono (h : M.Keeps good I) (hgood : ∀ s act, better s act → good s act) :
    M.Keeps better I :=
  fun s act henabled hbetter hs => h s act henabled (hgood s act hbetter) hs

/-- An invariant whose acts rely on another one. -/
theorem Keeps.and (hI : M.Keeps good I)
    (hJ : ∀ s act, M.Enabled s act → good s act → I s → J s → J (M.next s act)) :
    M.Keeps good fun s => I s ∧ J s :=
  fun s act henabled hgood hs =>
    ⟨hI s act henabled hgood hs.1, hJ s act henabled hgood hs.1 hs.2⟩

theorem Keeps.run (hI : M.Keeps good I)
    (hbetter : ∀ s act, M.Enabled s act → good s act → I s → better s act) {s : σ}
    {acts : List α} (hrun : M.Runs good s acts) (hs : I s) : M.Runs better s acts := by
  induction acts generalizing s with
  | nil => trivial
  | cons act acts ih =>
    obtain ⟨⟨henabled, hgood⟩, hrest⟩ := hrun
    exact ⟨⟨henabled, hbetter s act henabled hgood hs⟩,
      ih hrest (hI s act henabled hgood hs)⟩

theorem Keeps.after (h : M.Keeps good I) {s : σ} {acts : List α} (hrun : M.Runs good s acts)
    (hs : I s) : I (M.after s acts) := by
  induction acts generalizing s with
  | nil => exact hs
  | cons act acts ih => exact ih hrun.2 (h s act hrun.1.1 hrun.1.2 hs)

end Machine

section Requests

variable {σ α : Type} {step : σ → α → σ} {meets : σ → α → Prop} {I : σ → Prop} {s : σ}
variable {requests : List α}

/-- Every request meets the condition in the state where it is made. -/
def AllMeet (step : σ → α → σ) (meets : σ → α → Prop) : σ → List α → Prop
  | _, [] => True
  | s, request :: rest => meets s request ∧ AllMeet step meets (step s request) rest

instance AllMeet.decidable [∀ s request, Decidable (meets s request)] :
    ∀ s requests, Decidable (AllMeet step meets s requests)
  | _, [] => isTrue trivial
  | s, request :: rest =>
    have := AllMeet.decidable (step s request) rest
    inferInstanceAs (Decidable (meets s request ∧ _))

theorem allMeet_append {first rest : List α} :
    AllMeet step meets s (first ++ rest) ↔
      AllMeet step meets s first ∧ AllMeet step meets (first.foldl step s) rest := by
  induction first generalizing s with
  | nil => exact ⟨fun h => ⟨trivial, h⟩, fun h => h.2⟩
  | cons request first ih =>
    show meets s request ∧ AllMeet step meets _ (first ++ rest) ↔ (meets s request ∧ _) ∧ _
    rw [ih, and_assoc]
    rfl

theorem forall_take_iff_allMeet_of_keeps {R : σ → Prop} (hR : ∀ s, I s → R s)
    (hkeep : ∀ s request, I s → meets s request → I (step s request))
    (hmeets : ∀ s request, I s → R (step s request) → meets s request)
    (hs : I s) :
    (∀ n, R ((requests.take n).foldl step s)) ↔ AllMeet step meets s requests := by
  induction requests generalizing s with
  | nil =>
    refine iff_of_true (fun n => ?_) trivial
    rw [List.take_nil]
    exact hR s hs
  | cons request rest ih =>
    constructor
    · intro hall
      have hfirst := hmeets s request hs (hall 1)
      exact ⟨hfirst, (ih (hkeep s request hs hfirst)).mp fun n => hall (n + 1)⟩
    · intro ⟨hfirst, hrest⟩ n
      cases n with
      | zero => exact hR s hs
      | succ n => exact (ih (hkeep s request hs hfirst)).mpr hrest n

theorem forall_take_iff_allMeet (hstep : ∀ s request, I s → (I (step s request) ↔ meets s request))
    (hs : I s) :
    (∀ n, I ((requests.take n).foldl step s)) ↔ AllMeet step meets s requests :=
  forall_take_iff_allMeet_of_keeps (fun _ h => h)
    (fun s request h => (hstep s request h).mpr) (fun s request h => (hstep s request h).mp) hs

theorem AllMeet.after (hkeep : ∀ s request, I s → meets s request → I (step s request))
    (hs : I s) (h : AllMeet step meets s requests) : I (requests.foldl step s) := by
  induction requests generalizing s with
  | nil => exact hs
  | cons request rest ih => exact ih (hkeep s request hs h.1) h.2

/-- One condition implies another where an invariant holds. -/
theorem AllMeet.imp {better : σ → α → Prop}
    (hkeep : ∀ s request, I s → better s request → I (step s request))
    (himp : ∀ s request, I s → better s request → meets s request) (hs : I s)
    (h : AllMeet step better s requests) : AllMeet step meets s requests := by
  induction requests generalizing s with
  | nil => trivial
  | cons request rest ih =>
    exact ⟨himp s request hs h.1, ih (hkeep s request hs h.1) h.2⟩

end Requests

end Lib
