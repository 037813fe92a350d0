import Sentora.Lib.Process

/-!
# Processes that are cut off and started again

`cut` gives the state that a process leaves when it is cut off.  `Endures` is the
rule for what a process does while an environment changes the state between its
steps: `R` says what the environment may do, `I` is kept by both, and a result
satisfies `Q` in the state in which it is there.  Where nothing else runs, `R` is
equality.  An `Attempts` is a program in its environment, in which it may be cut
off and started again at any time.
-/

namespace Lib

namespace Process

variable {σ ℓ α β ε : Type}

def cut : Nat → Process σ ℓ α → σ → σ
  | 0, _, s => s
  | _ + 1, .ret _, s => s
  | n + 1, .step _ u k, s => cut n (k s) (u s)

def upTo : Nat → Process σ ℓ α → Process σ ℓ Unit
  | 0, _ => .ret ()
  | _ + 1, .ret _ => .ret ()
  | n + 1, .step l u k => .step l u fun s => upTo n (k s)

theorem run_upTo (n : Nat) (p : Process σ ℓ α) (s : σ) : (p.upTo n).run s = (p.cut n s, ()) := by
  induction n generalizing p s with
  | zero => rfl
  | succ n ih =>
    cases p with
    | ret a => rfl
    | step l u k => exact ih (k s) (u s)

section Endures

variable {R : σ → σ → Prop} {I : σ → Prop}
variable {p : Process σ ℓ α} {Q : σ → α → Prop} {s : σ}

/-- From `s` on, whatever the environment does, every step keeps `I`. -/
def Endures (R : σ → σ → Prop) (I : σ → Prop) (Q : σ → α → Prop) : σ → Process σ ℓ α → Prop
  | s, .ret a => Q s a
  | s, .step _ u k => ∀ t, R s t → I t → I (u t) ∧ Endures R I Q (u t) (k t)

theorem Endures.bind {Q' : σ → β → Prop}
    {f : α → Process σ ℓ β} (hp : Endures R I Q s p)
    (hf : ∀ t a, Q t a → Endures R I Q' t (f a)) : Endures R I Q' s (p >>= f) := by
  induction p generalizing s with
  | ret a => exact hf s a hp
  | step l u k ih => exact fun t hst ht => ⟨(hp t hst ht).1, ih t (hp t hst ht).2⟩

theorem endures_atomic {l : ℓ} {f : σ → σ × α}
    (h : ∀ t, R s t → I t → I (f t).1 ∧ Q (f t).1 (f t).2) : Endures R I Q s (atomic l f) := h

theorem Endures.mono {Q Q' : σ → α → Prop} (hp : Endures R I Q s p)
    (h : ∀ t a, Q t a → Q' t a) : Endures R I Q' s p := by
  induction p generalizing s with
  | ret a => exact h s a hp
  | step l u k ih => exact fun t hst ht => ⟨(hp t hst ht).1, ih t (hp t hst ht).2⟩

/-- Alone a process keeps the invariant wherever it is cut off. -/
theorem Endures.cut (hp : Endures Eq I Q s p)
    (hs : I s) (n : Nat) : I (p.cut n s) := by
  induction n generalizing p s with
  | zero => exact hs
  | succ n ih =>
    cases p with
    | ret a => exact hs
    | step l u k =>
      obtain ⟨hI, hrest⟩ := hp s rfl hs
      exact ih hrest hI

theorem Endures.run (hp : Endures Eq I Q s p)
    (hs : I s) : I (p.run s).1 ∧ Q (p.run s).1 (p.run s).2 := by
  induction p generalizing s with
  | ret a => exact ⟨hs, hp⟩
  | step l u k ih =>
    obtain ⟨hI, hrest⟩ := hp s rfl hs
    exact ih s hrest hI

theorem endures_of_cut (hcut : ∀ n, I (p.cut n s))
    (hrun : Q (p.run s).1 (p.run s).2) : Endures Eq I Q s p := by
  induction p generalizing s with
  | ret a => exact hrun
  | step l u k ih =>
    intro t hst _
    subst hst
    exact ⟨hcut 1, ih s (fun n => hcut (n + 1)) hrun⟩

end Endures

theorem cut_zoom {τ ℓ' : Type} {get : τ → σ} {set : σ → τ → τ} {f : ℓ → ℓ'}
    (hget : ∀ s t, get (set s t) = s) (hset : ∀ s s' t, set s (set s' t) = set s t)
    (hself : ∀ t, set (get t) t = t) (n : Nat) (p : Process σ ℓ α) (t : τ) :
    (p.zoom get set f).cut n t = set (p.cut n (get t)) t := by
  induction n generalizing p t with
  | zero => exact (hself t).symm
  | succ n ih =>
    cases p with
    | ret a => exact (hself t).symm
    | step l u k =>
      show ((k (get t)).zoom get set f).cut n (set (u (get t)) t) = _
      rw [ih, hget, hset]
      rfl

/-- A condition on the value, or one on the failure. -/
def Outcome (Q : α → Prop) (E : ε → Prop) : Except ε α → Prop
  | .ok a => Q a
  | .error e => E e

/-- As `Endures`, where a result satisfies `Q` and a failure satisfies `E`. -/
abbrev EnduresOr (R : σ → σ → Prop) (I : σ → Prop) (Q : σ → α → Prop) (E : σ → ε → Prop) (s : σ)
    (p : ExceptT ε (Process σ ℓ) α) : Prop :=
  Endures R I (fun t => Outcome (Q t) (E t)) s p.run

section EnduresOr

variable {R : σ → σ → Prop} {I : σ → Prop} {Q : σ → α → Prop} {Q' : σ → β → Prop}
  {E : σ → ε → Prop} {s : σ}
variable {p : ExceptT ε (Process σ ℓ) α}

theorem EnduresOr.bind {f : α → ExceptT ε (Process σ ℓ) β}
    (hp : EnduresOr R I Q E s p) (hf : ∀ t a, Q t a → EnduresOr R I Q' E t (f a)) :
    EnduresOr R I Q' E s (p >>= f) := by
  refine Endures.bind hp fun t r hr => ?_
  cases r with
  | ok a => exact hf t a hr
  | error e => exact hr

theorem enduresOr_pure {a : α} (ha : Q s a) :
    EnduresOr R I Q E s (pure a : ExceptT ε (Process σ ℓ) α) := ha

theorem enduresOr_throw {e : ε} (he : E s e) :
    EnduresOr R I Q E s (throw e : ExceptT ε (Process σ ℓ) α) := he

theorem enduresOr_lift {p : Process σ ℓ α} (hp : Endures R I Q s p) :
    EnduresOr R I Q E s (liftM p : ExceptT ε (Process σ ℓ) α) :=
  Endures.bind hp fun _ _ ha => ha

theorem enduresOr_atomic {l : ℓ} {f : σ → σ × α}
    (h : ∀ t, R s t → I t → I (f t).1 ∧ Q (f t).1 (f t).2) :
    EnduresOr R I Q E s (liftM (atomic l f) : ExceptT ε (Process σ ℓ) α) :=
  enduresOr_lift (endures_atomic h)

theorem EnduresOr.mono {Q₁ : σ → α → Prop} {E₁ : σ → ε → Prop}
    (hp : EnduresOr R I Q E s p) (h : ∀ t a, Q t a → Q₁ t a) (he : ∀ t e, E t e → E₁ t e) :
    EnduresOr R I Q₁ E₁ s p := by
  refine Endures.mono hp fun t r hr => ?_
  cases r with
  | ok a => exact h t a hr
  | error e => exact he t e hr

theorem EnduresOr.of_returns {a : α} {t : σ}
    (hp : EnduresOr Eq I Q E s p) (hs : I s) (h : Returns p s a t) : I t ∧ Q t a := by
  have hrun := Endures.run hp hs
  rw [show Process.run p.run s = (t, .ok a) from h] at hrun
  exact hrun

theorem EnduresOr.returns (hp : EnduresOr Eq I Q E s p) (hs : I s)
    (hE : ∀ t e, ¬E t e) : ∃ a t, Returns p s a t := by
  have hrun := Endures.run hp hs
  cases hresult : Process.run p.run s with
  | mk t r =>
    rw [hresult] at hrun
    cases r with
    | ok a => exact ⟨a, t, hresult⟩
    | error e => exact absurd hrun.2 (hE t e)

/-- One item after the other, with an assertion on what remains. -/
theorem enduresOr_foldlM {ι : Type} {K : List ι → β → σ → Prop}
    {f : β → ι → ExceptT ε (Process σ ℓ) β}
    (hf : ∀ y ys b t, K (y :: ys) b t → EnduresOr R I (fun t b' => K ys b' t) E t (f b y))
    {ys : List ι} {b : β} (h : K ys b s) :
    EnduresOr R I (fun t b' => K [] b' t) E s (ys.foldlM f b) := by
  induction ys generalizing b s with
  | nil => exact enduresOr_pure h
  | cons y ys ih =>
    rw [List.foldlM_cons]
    exact (hf y ys b s h).bind fun t b' hb' => ih hb'

end EnduresOr

section EnduresIf

variable {R : σ → σ → Prop} {I : σ → Prop} {G : ℓ → σ → Prop}
variable {Q : σ → α → Prop} {p : Process σ ℓ α} {s : σ}

/-- As `Endures`, where a step is taken only where `G` allows it. -/
def EnduresIf (R : σ → σ → Prop) (I : σ → Prop) (G : ℓ → σ → Prop) (Q : σ → α → Prop) :
    σ → Process σ ℓ α → Prop
  | s, .ret a => Q s a
  | s, .step l u k => ∀ t, R s t → I t → G l t → I (u t) ∧ EnduresIf R I G Q (u t) (k t)

theorem Endures.enduresIf
    (hp : Endures R I Q s p) : EnduresIf R I G Q s p := by
  induction p generalizing s with
  | ret a => exact hp
  | step l u k ih => exact fun t hst ht _ => ⟨(hp t hst ht).1, ih t (hp t hst ht).2⟩

theorem EnduresIf.bind {Q' : σ → β → Prop}
    {f : α → Process σ ℓ β} (hp : EnduresIf R I G Q s p)
    (hf : ∀ t a, Q t a → EnduresIf R I G Q' t (f a)) : EnduresIf R I G Q' s (p >>= f) := by
  induction p generalizing s with
  | ret a => exact hf s a hp
  | step l u k ih => exact fun t hst ht hG => ⟨(hp t hst ht hG).1, ih t (hp t hst ht hG).2⟩

theorem EnduresIf.later (htrans : ∀ s t u, R s t → R t u → R s u)
    (hQ : ∀ s t a, R s t → Q s a → Q t a) {s t : σ}
    (hp : EnduresIf R I G Q s p) (hst : R s t) : EnduresIf R I G Q t p := by
  cases p with
  | ret a => exact hQ s t a hst hp
  | step l u k => exact fun t' htt' ht' => hp t' (htrans s t t' hst htt') ht'

abbrev EnduresOrIf (R : σ → σ → Prop) (I : σ → Prop) (G : ℓ → σ → Prop) (Q : σ → α → Prop)
    (E : σ → ε → Prop) (s : σ) (p : ExceptT ε (Process σ ℓ) α) : Prop :=
  EnduresIf R I G (fun t => Outcome (Q t) (E t)) s p.run

theorem EnduresOrIf.bind {Q' : σ → β → Prop} {E : σ → ε → Prop}
    {p : ExceptT ε (Process σ ℓ) α} {f : α → ExceptT ε (Process σ ℓ) β}
    (hp : EnduresOrIf R I G Q E s p) (hf : ∀ t a, Q t a → EnduresOrIf R I G Q' E t (f a)) :
    EnduresOrIf R I G Q' E s (p >>= f) := by
  refine EnduresIf.bind hp fun t r hr => ?_
  cases r with
  | ok a => exact hf t a hr
  | error e => exact hr

theorem enduresOrIf_atomic {E : σ → ε → Prop} {l : ℓ} {f : σ → σ × α}
    (h : ∀ t, R s t → I t → G l t → I (f t).1 ∧ Q (f t).1 (f t).2) :
    EnduresOrIf R I G Q E s (liftM (atomic l f) : ExceptT ε (Process σ ℓ) α) := h

end EnduresIf

/-- A failure after which no try is made, or one after which the next try starts
from what the failed one leaves. -/
inductive Stop (ε ρ β : Type) where
  | failed (e : ε)
  | again (reason : ρ) (b : β)

/-- So many tries after the first one. -/
def retrying {ρ : Type} (attempt : β → ExceptT (Stop ε ρ β) (Process σ ℓ) α) (giveUp : ρ → ε) :
    Nat → β → ExceptT ε (Process σ ℓ) α
  | 0, b => do
    match ← (liftM (attempt b).run : ExceptT ε (Process σ ℓ) (Except (Stop ε ρ β) α)) with
    | .ok a => pure a
    | .error (.failed e) => throw e
    | .error (.again reason _) => throw (giveUp reason)
  | tries + 1, b => do
    match ← (liftM (attempt b).run : ExceptT ε (Process σ ℓ) (Except (Stop ε ρ β) α)) with
    | .ok a => pure a
    | .error (.failed e) => throw e
    | .error (.again _ b') => retrying attempt giveUp tries b'

theorem enduresOr_retrying {ρ : Type} {R : σ → σ → Prop} {I : σ → Prop} {Q : σ → α → Prop}
    {E : σ → ε → Prop} {attempt : β → ExceptT (Stop ε ρ β) (Process σ ℓ) α} {giveUp : ρ → ε}
    (J : Nat → β → σ → Prop) (F : Nat → σ → Stop ε ρ β → Prop)
    (hattempt : ∀ n b s, J n b s → EnduresOr R I Q (F n) s (attempt b))
    (hfailed : ∀ n s e, F n s (.failed e) → E s e)
    (hagain : ∀ n s reason b, F (n + 1) s (.again reason b) → J n b s)
    (hgiveUp : ∀ s reason b, F 0 s (.again reason b) → E s (giveUp reason))
    {tries : Nat} {b : β} {s : σ} (h : J tries b s) :
    EnduresOr R I Q E s (retrying attempt giveUp tries b) := by
  induction tries generalizing b s with
  | zero =>
    rw [retrying]
    refine EnduresOr.bind (enduresOr_lift (hattempt 0 b s h)) fun t r hr => ?_
    match r, hr with
    | .ok a, ha => exact enduresOr_pure ha
    | .error (.failed e), he => exact enduresOr_throw (hfailed 0 t e he)
    | .error (.again reason b'), hb => exact enduresOr_throw (hgiveUp t reason b' hb)
  | succ tries ih =>
    rw [retrying]
    refine EnduresOr.bind (enduresOr_lift (hattempt (tries + 1) b s h)) fun t r hr => ?_
    match r, hr with
    | .ok a, ha => exact enduresOr_pure ha
    | .error (.failed e), he => exact enduresOr_throw (hfailed (tries + 1) t e he)
    | .error (.again reason b'), hb => exact ih (hagain tries t reason b' hb)

end Process

/-- The state, and what is left of the attempt under way. -/
structure Attempts (σ ℓ α : Type) where
  state : σ
  current : Process σ ℓ α

namespace Attempts

variable {σ ℓ α κ : Type}

/-- The attempt takes a step, the environment acts, or the attempt is cut off and
the program starts again. -/
inductive Act (κ : Type) where
  | turn
  | env (e : κ)
  | start

variable {program : Process σ ℓ α} {effect : κ → σ → σ}

def perform (program : Process σ ℓ α) (effect : κ → σ → σ) (c : Attempts σ ℓ α) :
    Act κ → Attempts σ ℓ α
  | .turn =>
    match c.current with
    | .ret _ => c
    | .step _ u k => ⟨u c.state, k c.state⟩
  | .env e => ⟨effect e c.state, c.current⟩
  | .start => ⟨c.state, program⟩

def performs (program : Process σ ℓ α) (effect : κ → σ → σ) (c : Attempts σ ℓ α)
    (acts : List (Act κ)) : Attempts σ ℓ α :=
  acts.foldl (perform program effect) c

def Meets (program : Process σ ℓ α) (effect : κ → σ → σ)
    (good : Attempts σ ℓ α → Act κ → Prop) : Attempts σ ℓ α → List (Act κ) → Prop
  | _, [] => True
  | c, act :: acts => good c act ∧ Meets program effect good (perform program effect c act) acts

theorem meets_of_forall {good : Attempts σ ℓ α → Act κ → Prop} {acts : List (Act κ)}
    (h : ∀ act ∈ acts, ∀ c, good c act) (c : Attempts σ ℓ α) :
    Meets program effect good c acts := by
  induction acts generalizing c with
  | nil => trivial
  | cons act acts ih =>
    exact ⟨h act List.mem_cons_self c, ih (fun a ha => h a (List.mem_cons_of_mem act ha)) _⟩

/-- The invariant holds, and what is left of the attempt endures. -/
structure Enduring (R : σ → σ → Prop) (I : σ → Prop) (G : ℓ → σ → Prop) (Q : σ → α → Prop)
    (c : Attempts σ ℓ α) : Prop where
  state : I c.state
  current : Process.EnduresIf R I G Q c.state c.current

variable {R : σ → σ → Prop} {I : σ → Prop} {G : ℓ → σ → Prop} {Q : σ → α → Prop}
  {good : Attempts σ ℓ α → Act κ → Prop}

theorem Enduring.perform {c : Attempts σ ℓ α} (h : Enduring R I G Q c)
    (hrefl : ∀ s, R s s) (htrans : ∀ s t u, R s t → R t u → R s u)
    (hQ : ∀ s t a, R s t → Q s a → Q t a) {act : Act κ}
    (hturn : act = .turn → ∀ l, c.current.next? = some l → G l c.state)
    (heffect : ∀ e, act = .env e → I (effect e c.state) ∧ R c.state (effect e c.state))
    (hstart : act = .start → Process.EnduresIf R I G Q c.state program) :
    Enduring R I G Q (c.perform program effect act) := by
  cases act with
  | turn =>
    obtain ⟨s, p⟩ := c
    cases p with
    | ret a => exact h
    | step l u k =>
      obtain ⟨hI, hrest⟩ := h.current s (hrefl s) h.state (hturn rfl l rfl)
      exact ⟨hI, hrest⟩
  | env e =>
    obtain ⟨hI, hR⟩ := heffect e rfl
    exact ⟨hI, h.current.later htrans hQ hR⟩
  | start => exact ⟨h.state, hstart rfl⟩

theorem Enduring.performs {c : Attempts σ ℓ α} (h : Enduring R I G Q c)
    (hrefl : ∀ s, R s s) (htrans : ∀ s t u, R s t → R t u → R s u)
    (hQ : ∀ s t a, R s t → Q s a → Q t a)
    (hturn : ∀ c, good c .turn → ∀ l, c.current.next? = some l → G l c.state)
    (heffect : ∀ c e, good c (.env e) → I c.state →
      I (effect e c.state) ∧ R c.state (effect e c.state))
    (hstart : ∀ c, good c .start → I c.state → Process.EnduresIf R I G Q c.state program)
    {acts : List (Act κ)} (hacts : Meets program effect good c acts) :
    Enduring R I G Q (c.performs program effect acts) := by
  induction acts generalizing c with
  | nil => exact h
  | cons act acts ih =>
    refine ih (h.perform hrefl htrans hQ (fun heq => ?_) (fun e heq => ?_) (fun heq => ?_)) hacts.2
    · rw [heq] at hacts
      exact hturn c hacts.1
    · rw [heq] at hacts
      exact heffect c e hacts.1 h.state
    · rw [heq] at hacts
      exact hstart c hacts.1 h.state

end Attempts

end Lib
