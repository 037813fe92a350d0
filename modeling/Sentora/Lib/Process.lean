import Mathlib.Logic.Function.Basic

/-!
# Processes over a shared state

A process is a program cut at its atomic steps.  Each step carries a label,
changes the shared state, and goes on in a way that may depend on the state it
found.  `run` executes a process alone.  A pool holds any number of processes of
one state, and `exec` runs it under a schedule, a list that says whose turn it
is, so that a statement about every schedule is one about every interleaving.  In a
pool with `performs`, calls may also start at any time.

Five rules carry the proofs.  `Keeps I Q p` says that every step of `p` preserves
`I` no matter what happened between its steps, as long as `I` did, and that a
result satisfies `Q`.  `Steady I p` asks this of the steps alone, whatever was
read before.  `Follows` is `Keeps` for a process that goes through phases, each
with an assertion of its own.  `Obeys` adds what the others may do between two
steps to what a step finds.  `Always P p` says that `P` holds of whatever is left
of `p` at any time.
-/

namespace Lib

inductive Process (σ ℓ α : Type) where
  | ret (a : α)
  | step (label : ℓ) (update : σ → σ) (next : σ → Process σ ℓ α)

namespace Process

variable {σ ℓ α β : Type}

def bind (p : Process σ ℓ α) (f : α → Process σ ℓ β) : Process σ ℓ β :=
  match p with
  | .ret a => f a
  | .step l u k => .step l u (fun s => (k s).bind f)

instance : Monad (Process σ ℓ) where
  pure := .ret
  bind := bind

/-- One step that changes the state and returns a value. -/
def atomic (l : ℓ) (f : σ → σ × α) : Process σ ℓ α :=
  .step l (fun s => (f s).1) (fun s => .ret (f s).2)

def read (l : ℓ) (f : σ → α) : Process σ ℓ α := atomic l (fun s => (s, f s))

def write (l : ℓ) (f : σ → σ) : Process σ ℓ Unit := atomic l (fun s => (f s, ()))

def run : Process σ ℓ α → σ → σ × α
  | .ret a, s => (s, a)
  | .step _ u k, s => (k s).run (u s)

def next? : Process σ ℓ α → Option ℓ
  | .ret _ => none
  | .step l _ _ => some l

def result? : Process σ ℓ α → Option α
  | .ret a => some a
  | .step _ _ _ => none

@[simp] theorem pure_eq (a : α) : (pure a : Process σ ℓ α) = .ret a := rfl

@[simp] theorem run_ret (a : α) (s : σ) : (Process.ret a : Process σ ℓ α).run s = (s, a) := rfl

@[simp] theorem run_atomic (l : ℓ) (f : σ → σ × α) (s : σ) : (atomic l f).run s = f s := rfl

@[simp] theorem run_read (l : ℓ) (f : σ → α) (s : σ) : (read l f).run s = (s, f s) := rfl

@[simp] theorem run_write (l : ℓ) (f : σ → σ) (s : σ) : (write l f).run s = (f s, ()) := rfl

@[simp] theorem run_bind (p : Process σ ℓ α) (f : α → Process σ ℓ β) (s : σ) :
    (p >>= f).run s = (f (p.run s).2).run (p.run s).1 := by
  induction p generalizing s with
  | ret a => rfl
  | step l u k ih => exact ih s (u s)

theorem bind_assoc {δ : Type} (p : Process σ ℓ α) (f : α → Process σ ℓ β)
    (g : β → Process σ ℓ δ) : p >>= f >>= g = p >>= fun a => f a >>= g := by
  induction p with
  | ret a => rfl
  | step l u k ih =>
    show Process.step _ _ _ = Process.step _ _ _
    congr 1
    funext s
    exact ih s

/-- Every step preserves `I` from any state in which `I` holds, and the result
satisfies `Q`. -/
def Keeps (I : σ → Prop) (Q : α → Prop) : Process σ ℓ α → Prop
  | .ret a => Q a
  | .step _ u k => ∀ s, I s → I (u s) ∧ Keeps I Q (k s)

/-- Every step preserves `I`, whatever the steps before it read. -/
def Steady (I : σ → Prop) : Process σ ℓ α → Prop
  | .ret _ => True
  | .step _ u k => (∀ s, I s → I (u s)) ∧ ∀ s, Steady I (k s)

/-- The update of every step is one of `U`. -/
def Updates (U : (σ → σ) → Prop) : Process σ ℓ α → Prop
  | .ret _ => True
  | .step _ u k => U u ∧ ∀ s, Updates U (k s)

/-- `P` holds of the process and of everything it can become. -/
def Always (P : Process σ ℓ α → Prop) : Process σ ℓ α → Prop
  | .ret a => P (.ret a)
  | .step l u k => P (.step l u k) ∧ ∀ s, Always P (k s)

variable {I : σ → Prop}

theorem Keeps.bind {R : α → Prop} {Q : β → Prop} {p : Process σ ℓ α}
    {f : α → Process σ ℓ β} (hp : Keeps I R p) (hf : ∀ a, R a → Keeps I Q (f a)) :
    Keeps I Q (p >>= f) := by
  induction p with
  | ret a => exact hf a hp
  | step l u k ih => exact fun s hs => ⟨(hp s hs).1, ih s (hp s hs).2⟩

theorem keeps_atomic {Q : α → Prop} {l : ℓ} {f : σ → σ × α}
    (h : ∀ s, I s → I (f s).1 ∧ Q (f s).2) : Keeps I Q (atomic l f) :=
  fun s hs => h s hs

theorem Keeps.mono {Q R : α → Prop} {p : Process σ ℓ α} (hp : Keeps I Q p)
    (h : ∀ a, Q a → R a) : Keeps I R p := by
  induction p with
  | ret a => exact h a hp
  | step l u k ih => exact fun s hs => ⟨(hp s hs).1, ih s (hp s hs).2⟩

theorem steady_atomic {l : ℓ} {f : σ → σ × α} (h : ∀ s, I s → I (f s).1) :
    Steady I (atomic l f) :=
  ⟨h, fun _ => trivial⟩

theorem Steady.bind {p : Process σ ℓ α} {f : α → Process σ ℓ β} (hp : Steady I p)
    (hf : ∀ a, Steady I (f a)) : Steady I (p >>= f) := by
  induction p with
  | ret a => exact hf a
  | step l u k ih => exact ⟨hp.1, fun s => ih s (hp.2 s)⟩

theorem Steady.keeps {p : Process σ ℓ α} (hp : Steady I p) : Keeps I (fun _ => True) p := by
  induction p with
  | ret a => trivial
  | step l u k ih => exact fun s hs => ⟨hp.1 s hs, ih s (hp.2 s)⟩

theorem Steady.always {p : Process σ ℓ α} (hp : Steady I p) : Always (Steady I) p := by
  induction p with
  | ret a => exact hp
  | step l u k ih => exact ⟨hp, fun s => ih s (hp.2 s)⟩

theorem Always.mono {P Q : Process σ ℓ α → Prop} {p : Process σ ℓ α} (hp : Always P p)
    (h : ∀ q, P q → Q q) : Always Q p := by
  induction p with
  | ret a => exact h _ hp
  | step l u k ih => exact ⟨h _ hp.1, fun s => ih s (hp.2 s)⟩

theorem Always.and {P Q : Process σ ℓ α → Prop} {p : Process σ ℓ α} (hp : Always P p)
    (hq : Always Q p) : Always (fun r => P r ∧ Q r) p := by
  induction p with
  | ret a => exact ⟨hp, hq⟩
  | step l u k ih => exact ⟨⟨hp.1, hq.1⟩, fun s => ih s (hp.2 s) (hq.2 s)⟩

theorem Keeps.of_result {Q : α → Prop} {p : Process σ ℓ α} {a : α} (hp : Keeps I Q p)
    (h : p.result? = some a) : Q a := by
  cases p with
  | ret b =>
    rw [← Option.some.inj h]
    exact hp
  | step l u k => cases h

variable {U V : (σ → σ) → Prop}

theorem Updates.bind {p : Process σ ℓ α} {f : α → Process σ ℓ β} (hp : Updates U p)
    (hf : ∀ a, Updates U (f a)) : Updates U (p >>= f) := by
  induction p with
  | ret a => exact hf a
  | step l u k ih => exact ⟨hp.1, fun s => ih s (hp.2 s)⟩

theorem updates_atomic {l : ℓ} {f : σ → σ × α} (h : U fun s => (f s).1) :
    Updates U (atomic l f) :=
  ⟨h, fun _ => trivial⟩

theorem Updates.mono {p : Process σ ℓ α} (hp : Updates U p) (h : ∀ u, U u → V u) :
    Updates V p := by
  induction p with
  | ret a => trivial
  | step l u k ih => exact ⟨h u hp.1, fun s => ih s (hp.2 s)⟩

theorem Updates.steady {p : Process σ ℓ α} (hp : Updates U p)
    (h : ∀ u, U u → ∀ s, I s → I (u s)) : Steady I p := by
  induction p with
  | ret a => trivial
  | step l u k ih => exact ⟨h u hp.1, fun s => ih s (hp.2 s)⟩

theorem Keeps.run {Q : α → Prop} {p : Process σ ℓ α} (hp : Keeps I Q p) {s : σ} (hs : I s) :
    I (p.run s).1 ∧ Q (p.run s).2 := by
  induction p generalizing s with
  | ret a => exact ⟨hs, hp⟩
  | step l u k ih => exact ih s (hp s hs).2 (hp s hs).1

theorem Steady.run {p : Process σ ℓ α} (hp : Steady I p) {s : σ} (hs : I s) : I (p.run s).1 :=
  (hp.keeps.run hs).1

/-- Alone the process leads from `I` to `I`. -/
def Preserves (I : σ → Prop) (p : Process σ ℓ α) : Prop := ∀ s, I s → I (p.run s).1

theorem Preserves.bind {p : Process σ ℓ α} {f : α → Process σ ℓ β} (hp : Preserves I p)
    (hf : ∀ a, Preserves I (f a)) : Preserves I (p >>= f) := by
  intro s hs
  rw [run_bind]
  exact hf _ _ (hp s hs)

/-- A course a process takes: the labels a phase admits, the phase after a step,
and what holds of the state in a phase. -/
structure Phases (γ σ ℓ : Type) where
  admits : γ → ℓ → Prop
  after : γ → ℓ → γ
  holds : γ → σ → Prop

variable {γ : Type} {P : Phases γ σ ℓ}

/-- From phase `g` on the process takes the course, whatever happens between its
steps, as long as the assertion of the phase it is in holds. -/
def Follows (P : Phases γ σ ℓ) (Q : γ → α → Prop) (g : γ) : Process σ ℓ α → Prop
  | .ret a => Q g a
  | .step l u k =>
    P.admits g l ∧
      ∀ s, P.holds g s → P.holds (P.after g l) (u s) ∧ Follows P Q (P.after g l) (k s)

theorem Follows.bind {R : γ → α → Prop} {Q : γ → β → Prop} {g : γ} {p : Process σ ℓ α}
    {f : α → Process σ ℓ β} (hp : Follows P R g p)
    (hf : ∀ g' a, R g' a → Follows P Q g' (f a)) : Follows P Q g (p >>= f) := by
  induction p generalizing g with
  | ret a => exact hf g a hp
  | step l u k ih => exact ⟨hp.1, fun s hs => ⟨(hp.2 s hs).1, ih s (hp.2 s hs).2⟩⟩

theorem follows_atomic {Q : γ → α → Prop} {g : γ} {l : ℓ} {f : σ → σ × α}
    (hl : P.admits g l)
    (h : ∀ s, P.holds g s → P.holds (P.after g l) (f s).1 ∧ Q (P.after g l) (f s).2) :
    Follows P Q g (atomic l f) :=
  ⟨hl, h⟩

theorem Follows.mono {Q R : γ → α → Prop} {g : γ} {p : Process σ ℓ α} (hp : Follows P Q g p)
    (h : ∀ g a, Q g a → R g a) : Follows P R g p := by
  induction p generalizing g with
  | ret a => exact h g a hp
  | step l u k ih => exact ⟨hp.1, fun s hs => ⟨(hp.2 s hs).1, ih s (hp.2 s hs).2⟩⟩

/-- An invariant, what may happen from one state to a later one, what holds where
a step with the label is taken, and what such a step does. -/
structure Protocol (σ ℓ : Type) where
  inv : σ → Prop
  rely : σ → σ → Prop
  asserts : ℓ → σ → Prop
  does : ℓ → σ → σ → Prop
  refl : ∀ s, rely s s
  trans : ∀ {s t u}, rely s t → rely t u → rely s u
  does_rely : ∀ {l s t}, does l s t → rely s t

section Protocols

variable {P : Protocol σ ℓ}
variable {p : Process σ ℓ α}

/-- From `s` on, whatever the others do within the protocol, the process finds
what is asserted at its steps, and they stay within the protocol. -/
def Obeys (P : Protocol σ ℓ) (Q : σ → α → Prop) : σ → Process σ ℓ α → Prop
  | s, .ret a => Q s a
  | s, .step l u k =>
    ∀ t, P.inv t → P.rely s t →
      P.asserts l t ∧ P.inv (u t) ∧ P.does l t (u t) ∧ Obeys P Q (u t) (k t)

theorem Obeys.bind {R : σ → α → Prop} {Q : σ → β → Prop} {s : σ}
    {f : α → Process σ ℓ β} (hp : Obeys P R s p) (hf : ∀ t a, R t a → Obeys P Q t (f a)) :
    Obeys P Q s (p >>= f) := by
  induction p generalizing s with
  | ret a => exact hf s a hp
  | step l u k ih =>
    intro t ht hst
    obtain ⟨hassert, hinv, hdoes, hrest⟩ := hp t ht hst
    exact ⟨hassert, hinv, hdoes, ih t hrest⟩

theorem obeys_atomic {Q : σ → α → Prop} {s : σ} {l : ℓ} {f : σ → σ × α}
    (h : ∀ t, P.inv t → P.rely s t →
      P.asserts l t ∧ P.inv (f t).1 ∧ P.does l t (f t).1 ∧ Q (f t).1 (f t).2) :
    Obeys P Q s (atomic l f) :=
  h

theorem Obeys.later {s t : σ} (hp : Obeys P (fun _ _ => True) s p)
    (hst : P.rely s t) : Obeys P (fun _ _ => True) t p := by
  cases p with
  | ret a => trivial
  | step l u k => exact fun t' ht' htt' => hp t' ht' (P.trans hst htt')

theorem Updates.obeys (hp : Updates U p)
    (hU : ∀ u, U u → ∀ l t, P.inv t → P.inv (u t) ∧ P.does l t (u t))
    (hassert : ∀ l t, P.asserts l t) (s : σ) : Obeys P (fun _ _ => True) s p := by
  induction p generalizing s with
  | ret a => trivial
  | step l u k ih =>
    intro t ht _
    obtain ⟨hinv, hdoes⟩ := hU u hp.1 l t ht
    exact ⟨hassert l t, hinv, hdoes, ih t (hp.2 t) (u t)⟩

end Protocols

/-- What a label says of its step: what the step does, and which label may come
after it when it is taken in a state. -/
structure Script (σ ℓ : Type) where
  does : ℓ → σ → σ → Prop
  next : ℓ → σ → ℓ → Prop

section Scripts

variable {S : Script σ ℓ} {A : ℓ → Prop}

def Plays (S : Script σ ℓ) : Process σ ℓ α → Prop
  | .ret _ => True
  | .step l u k => ∀ s, S.does l s (u s) ∧ ∀ l', (k s).next? = some l' → S.next l s l'

/-- Every step has a label of `A` and does what the script says. -/
def Within (S : Script σ ℓ) (A : ℓ → Prop) : Process σ ℓ α → Prop
  | .ret _ => True
  | .step l u k => A l ∧ ∀ s, S.does l s (u s) ∧ Within S A (k s)

theorem within_atomic {l : ℓ} {f : σ → σ × α} (hl : A l) (h : ∀ s, S.does l s (f s).1) :
    Within S A (atomic l f) :=
  ⟨hl, fun s => ⟨h s, trivial⟩⟩

def PlaysFrom (S : Script σ ℓ) (B : ℓ → Prop) (p : Process σ ℓ α) : Prop :=
  Always (Plays S) p ∧ ∀ l, p.next? = some l → B l

theorem playsFrom_ret {B : ℓ → Prop} (a : α) : PlaysFrom S B (.ret a) :=
  ⟨trivial, fun _ h => nomatch h⟩

/-- A process whose labels the script lets come in any order, before another. -/
theorem Within.playsFrom_bind {B : ℓ → Prop} {p : Process σ ℓ α} {f : α → Process σ ℓ β}
    (hp : Within S A p) (hAB : ∀ l, A l → B l) (hnext : ∀ l s l', A l → B l' → S.next l s l')
    (hf : ∀ a, PlaysFrom S B (f a)) : PlaysFrom S B (p >>= f) := by
  induction p with
  | ret a => exact hf a
  | step l u k ih =>
    have hrest : ∀ s, PlaysFrom S B (k s >>= f) := fun s => ih s (hp.2 s).2
    refine ⟨⟨fun s => ⟨(hp.2 s).1, fun l' hl' => ?_⟩, fun s => (hrest s).1⟩, fun l' hl' => ?_⟩
    · exact hnext l s l' hp.1 ((hrest s).2 l' hl')
    · rw [← Option.some.inj hl']
      exact hAB l hp.1

/-- Labels that the script does not leave. -/
theorem PlaysFrom.always {B : ℓ → Prop} {p : Process σ ℓ α} (hp : PlaysFrom S B p)
    (hB : ∀ l s l', B l → S.next l s l' → B l') : Always (PlaysFrom S B) p := by
  induction p with
  | ret a => exact hp
  | step l u k ih =>
    refine ⟨hp, fun s => ih s ⟨hp.1.2 s, fun l' hl' => ?_⟩⟩
    exact hB l s l' (hp.2 l rfl) ((hp.1.1 s).2 l' hl')

end Scripts

section Zoom

variable {τ ℓ' : Type} {get : τ → σ} {set : σ → τ → τ} {f : ℓ → ℓ'}

/-- The process on a part of a larger state, under other labels. -/
def zoom (get : τ → σ) (set : σ → τ → τ) (f : ℓ → ℓ') : Process σ ℓ α → Process τ ℓ' α
  | .ret a => .ret a
  | .step l u k => .step (f l) (fun t => set (u (get t)) t) (fun t => (k (get t)).zoom get set f)

theorem run_zoom (hget : ∀ s t, get (set s t) = s) (hset : ∀ s s' t, set s (set s' t) = set s t)
    (hself : ∀ t, set (get t) t = t) (p : Process σ ℓ α) (t : τ) :
    (p.zoom get set f).run t = (set (p.run (get t)).1 t, (p.run (get t)).2) := by
  induction p generalizing t with
  | ret a =>
    show (t, a) = (set (get t) t, a)
    rw [hself]
  | step l u k ih =>
    show ((k (get t)).zoom get set f).run (set (u (get t)) t) = _
    rw [ih, hget, hset]
    rfl

theorem Steady.zoom {J : τ → Prop} {p : Process σ ℓ α} (hp : Steady I p)
    (hI : ∀ t, J t → I (get t)) (hJ : ∀ s t, J t → I s → J (set s t)) :
    Steady J (p.zoom get set f) := by
  induction p with
  | ret a => trivial
  | step l u k ih =>
    exact ⟨fun t ht => hJ _ t ht (hp.1 _ (hI t ht)), fun t => ih (get t) (hp.2 (get t))⟩

theorem Keeps.zoom {J : τ → Prop} {Q : α → Prop} {p : Process σ ℓ α} (hp : Keeps I Q p)
    (hI : ∀ t, J t → I (get t)) (hJ : ∀ s t, J t → I s → J (set s t)) :
    Keeps J Q (p.zoom get set f) := by
  induction p with
  | ret a => exact hp
  | step l u k ih =>
    intro t ht
    obtain ⟨hkept, hrest⟩ := hp (get t) (hI t ht)
    exact ⟨hJ _ t ht hkept, ih (get t) hrest⟩

theorem within_zoom {S : Script τ ℓ'} {A : ℓ' → Prop} (hA : ∀ l, A (f l))
    (hdoes : ∀ l s t, S.does (f l) t (set s t)) (p : Process σ ℓ α) :
    Within S A (p.zoom get set f) := by
  induction p with
  | ret a => trivial
  | step l u k ih => exact ⟨hA l, fun t => ⟨hdoes l _ t, ih (get t)⟩⟩

theorem Obeys.zoom {P : Protocol σ ℓ} {P' : Protocol τ ℓ'} {Q : σ → α → Prop}
    (hget : ∀ s t, get (set s t) = s) (hinv : ∀ t, P'.inv t → P.inv (get t))
    (hset : ∀ s t, P'.inv t → P.inv s → P'.inv (set s t))
    (hrely : ∀ t t', P'.rely t t' → P.rely (get t) (get t'))
    (hassert : ∀ l t, P.asserts l (get t) → P'.asserts (f l) t)
    (hdoes : ∀ l s t, P.does l (get t) s → P'.does (f l) t (set s t)) {t : τ}
    {p : Process σ ℓ α} (hp : Obeys P Q (get t) p) :
    Obeys P' (fun t a => Q (get t) a) t (p.zoom get set f) := by
  induction p generalizing t with
  | ret a => exact hp
  | step l u k ih =>
    intro t' ht' htt'
    obtain ⟨hassertion, hkept, hdone, hrest⟩ := hp (get t') (hinv t' ht') (hrely t t' htt')
    refine ⟨hassert l t' hassertion, hset _ t' ht' hkept, hdoes l _ t' hdone, ih (get t') ?_⟩
    rw [hget]
    exact hrest

theorem updates_zoom {V : (τ → τ) → Prop} (hV : ∀ u : σ → σ, V fun t => set (u (get t)) t)
    (p : Process σ ℓ α) : Updates V (p.zoom get set f) := by
  induction p with
  | ret a => trivial
  | step l u k ih => exact ⟨hV u, fun t => ih (get t)⟩

end Zoom

section Sweeps

variable {κ : Type} {label : List κ → List κ → ℓ} {found : κ → σ → Bool}
  {replace : List κ → σ → σ} {a : α}

/-- Look at one item after the other, and at the end put what was found in place
of something.  The label says what was collected and what remains. -/
def sweep (label : List κ → List κ → ℓ) (found : κ → σ → Bool) (replace : List κ → σ → σ) (a : α)
    (collected : List κ) : List κ → Process σ ℓ α
  | [] => .step (label collected []) (replace collected) fun _ => .ret a
  | x :: rest =>
    .step (label collected (x :: rest)) (fun s => s) fun s =>
      if found x s then sweep label found replace a (collected ++ [x]) rest
      else sweep label found replace a collected rest

@[simp] theorem sweep_next? (collected remaining : List κ) :
    (sweep label found replace a collected remaining).next? = some (label collected remaining) := by
  cases remaining <;> rfl

theorem keeps_sweep {x : κ} (hfound : ∀ s, I s → found x s = true)
    (hreplace : ∀ s collected, I s → x ∈ collected → I (replace collected s))
    {collected remaining : List κ} (h : x ∈ collected ∨ x ∈ remaining) :
    Keeps I (fun _ => True) (sweep label found replace a collected remaining) := by
  induction remaining generalizing collected with
  | nil => exact fun s hs => ⟨hreplace s collected hs (h.resolve_right List.not_mem_nil), trivial⟩
  | cons y rest ih =>
    intro s hs
    refine ⟨hs, ?_⟩
    by_cases hy : found y s = true
    · show Keeps I _ (if found y s = true then _ else _)
      rw [if_pos hy]
      apply ih
      rcases h with h | h
      · exact Or.inl (List.mem_append_left _ h)
      · rcases List.mem_cons.mp h with h | h
        · exact Or.inl (List.mem_append_right _ (List.mem_singleton.mpr h))
        · exact Or.inr h
    · show Keeps I _ (if found y s = true then _ else _)
      rw [if_neg hy]
      apply ih
      refine h.imp_right fun hmem => (List.mem_cons.mp hmem).resolve_left fun heq => hy ?_
      rw [← heq]
      exact hfound s hs

theorem steady_sweep (h : ∀ s collected, I s → I (replace collected s))
    (collected remaining : List κ) :
    Steady I (sweep label found replace a collected remaining) := by
  induction remaining generalizing collected with
  | nil => exact ⟨fun s => h s collected, fun _ => trivial⟩
  | cons y rest ih =>
    refine ⟨fun _ hs => hs, fun s => ?_⟩
    dsimp only
    split
    · exact ih _
    · exact ih _

theorem obeys_sweep {P : Protocol σ ℓ}
    (hread : ∀ collected remaining t, P.inv t →
      P.asserts (label collected remaining) t ∧ P.does (label collected remaining) t t)
    (hreplace : ∀ collected t, P.inv t →
      P.asserts (label collected []) t ∧ P.inv (replace collected t) ∧
        P.does (label collected []) t (replace collected t))
    (collected remaining : List κ) (s : σ) :
    Obeys P (fun _ _ => True) s (sweep label found replace a collected remaining) := by
  induction remaining generalizing collected s with
  | nil =>
    intro t ht _
    obtain ⟨hassert, hinv, hdoes⟩ := hreplace collected t ht
    exact ⟨hassert, hinv, hdoes, trivial⟩
  | cons y rest ih =>
    intro t ht _
    obtain ⟨hassert, hdoes⟩ := hread collected (y :: rest) t ht
    refine ⟨hassert, ht, hdoes, ?_⟩
    dsimp only
    split
    · exact ih _ _
    · exact ih _ _

theorem always_sweep {P : Process σ ℓ α → Prop} (hret : P (.ret a))
    (hsweep : ∀ collected remaining, P (sweep label found replace a collected remaining))
    (collected remaining : List κ) :
    Always P (sweep label found replace a collected remaining) := by
  induction remaining generalizing collected with
  | nil => exact ⟨hsweep collected [], fun _ => hret⟩
  | cons y rest ih =>
    refine ⟨hsweep collected (y :: rest), fun s => ?_⟩
    dsimp only
    split
    · exact ih _
    · exact ih _

end Sweeps

section Failing

variable {ε : Type} {s s' : σ} {a : α} {b : β}

/-- Alone from `s` the process does not fail, and leaves `s'`. -/
def Returns (p : ExceptT ε (Process σ ℓ) α) (s : σ) (a : α) (s' : σ) : Prop :=
  Process.run p.run s = (s', .ok a)

/-- The value, or the failure in its place. -/
def orThrow (e : ε) : Option α → ExceptT ε (Process σ ℓ) α
  | some a => pure a
  | none => throw e

/-- Fail under a condition. -/
def throwIf (c : Bool) (e : ε) : ExceptT ε (Process σ ℓ) Unit :=
  if c then throw e else pure ()

theorem Updates.except_bind {p : ExceptT ε (Process σ ℓ) α} {f : α → ExceptT ε (Process σ ℓ) β}
    (hp : Updates U p.run) (hf : ∀ a, Updates U (f a).run) : Updates U (p >>= f).run := by
  refine Updates.bind hp fun r => ?_
  cases r with
  | ok a => exact hf a
  | error e => trivial

theorem updates_ofExcept (r : Except ε α) :
    Updates U (ofExcept r : ExceptT ε (Process σ ℓ) α).run := by
  cases r with
  | ok a => trivial
  | error e => trivial

theorem run_except_bind (p : ExceptT ε (Process σ ℓ) α)
    (f : α → ExceptT ε (Process σ ℓ) β) (s : σ) :
    Process.run (p >>= f).run s =
      match Process.run p.run s with
      | (s', .ok a) => Process.run (f a).run s'
      | (s', .error e) => (s', .error e) := by
  show Process.run (p.run >>= ExceptT.bindCont f) s = _
  rw [run_bind]
  obtain ⟨s', r⟩ := Process.run p.run s
  cases r with
  | ok a => rfl
  | error e => rfl

theorem run_lift_bind (p : Process σ ℓ α) (f : α → ExceptT ε (Process σ ℓ) β) (s : σ) :
    Process.run ((liftM p : ExceptT ε (Process σ ℓ) α) >>= f).run s =
      Process.run (f (p.run s).2).run (p.run s).1 := by
  have hlift : Process.run (liftM p : ExceptT ε (Process σ ℓ) α).run s =
      ((p.run s).1, .ok (p.run s).2) := by
    show Process.run (p >>= fun a => .ret (Except.ok a)) s = _
    rw [run_bind]
    rfl
  rw [run_except_bind, hlift]

theorem returns_bind {p : ExceptT ε (Process σ ℓ) α} {f : α → ExceptT ε (Process σ ℓ) β} {s'' : σ} :
    Returns (p >>= f) s b s'' ↔ ∃ a s', Returns p s a s' ∧ Returns (f a) s' b s'' := by
  unfold Returns
  rw [run_except_bind]
  obtain ⟨s', r⟩ := Process.run p.run s
  cases r with
  | ok a =>
    constructor
    · intro h
      exact ⟨a, s', rfl, h⟩
    · rintro ⟨a, s', heq, h⟩
      cases heq
      exact h
  | error e => simp

@[simp] theorem returns_pure {c : α} :
    Returns (pure c : ExceptT ε (Process σ ℓ) α) s a s' ↔ a = c ∧ s' = s := by
  show (s, Except.ok c) = (s', Except.ok a) ↔ _
  simp [eq_comm, and_comm]

@[simp] theorem returns_throw {e : ε} :
    ¬Returns (throw e : ExceptT ε (Process σ ℓ) α) s a s' := by
  show ¬(s, Except.error e) = (s', Except.ok a)
  simp

@[simp] theorem returns_lift {p : Process σ ℓ α} :
    Returns (liftM p : ExceptT ε (Process σ ℓ) α) s a s' ↔ p.run s = (s', a) := by
  show Process.run (p >>= fun a => .ret (Except.ok a)) s = _ ↔ _
  rw [run_bind]
  obtain ⟨t, c⟩ := p.run s
  simp

@[simp] theorem returns_ofExcept {r : Except ε α} :
    Returns (ofExcept r : ExceptT ε (Process σ ℓ) α) s a s' ↔ r = .ok a ∧ s' = s := by
  cases r with
  | ok c => exact returns_pure.trans (by simp [eq_comm])
  | error e => exact iff_of_false returns_throw (by simp)

@[simp] theorem returns_orThrow {e : ε} {v : Option α} :
    Returns (orThrow e v : ExceptT ε (Process σ ℓ) α) s a s' ↔ v = some a ∧ s' = s := by
  cases v with
  | some c => exact returns_pure.trans (by simp [eq_comm])
  | none => exact iff_of_false returns_throw (by simp)

@[simp] theorem returns_throwIf {c : Bool} {e : ε} {u : Unit} :
    Returns (throwIf c e : ExceptT ε (Process σ ℓ) Unit) s u s' ↔ c = false ∧ s' = s := by
  cases c with
  | true => exact iff_of_false returns_throw (by simp)
  | false => exact returns_pure.trans (by simp)

/-! What a process that leaves the state comes before. -/

section Before

variable {f : α → ExceptT ε (Process σ ℓ) β}

theorem returns_bind_of_still {p : ExceptT ε (Process σ ℓ) α} {P : α → Prop}
    (hp : ∀ a t, Returns p s a t ↔ P a ∧ t = s) :
    Returns (p >>= f) s b s' ↔ ∃ a, P a ∧ Returns (f a) s b s' := by
  rw [returns_bind]
  constructor
  · rintro ⟨a, t, hfirst, hrest⟩
    obtain ⟨ha, rfl⟩ := (hp a t).mp hfirst
    exact ⟨a, ha, hrest⟩
  · rintro ⟨a, ha, hrest⟩
    exact ⟨a, s, (hp a s).mpr ⟨ha, rfl⟩, hrest⟩

theorem returns_ofExcept_bind {r : Except ε α} :
    Returns (ofExcept r >>= f) s b s' ↔ ∃ a, r = .ok a ∧ Returns (f a) s b s' :=
  returns_bind_of_still fun _ _ => returns_ofExcept

theorem returns_orThrow_bind {e : ε} {v : Option α} :
    Returns (orThrow e v >>= f) s b s' ↔ ∃ a, v = some a ∧ Returns (f a) s b s' :=
  returns_bind_of_still fun _ _ => returns_orThrow

theorem returns_throwIf_bind {c : Bool} {e : ε} {f : Unit → ExceptT ε (Process σ ℓ) β} :
    Returns (throwIf c e >>= f) s b s' ↔ c = false ∧ Returns (f ()) s b s' := by
  rw [returns_bind_of_still fun _ _ => returns_throwIf]
  exact ⟨fun ⟨_, h⟩ => h, fun h => ⟨(), h⟩⟩

end Before

theorem returns_map {p : ExceptT ε (Process σ ℓ) α} {f : α → β} :
    Returns (f <$> p) s b s' ↔ ∃ a, Returns p s a s' ∧ b = f a := by
  show Process.run (p.run >>= _) s = _ ↔ ∃ a, Process.run p.run s = _ ∧ _
  rw [run_bind]
  obtain ⟨t, r⟩ := Process.run p.run s
  cases r with
  | ok c =>
    constructor
    · intro h
      obtain ⟨hstate, hvalue⟩ := Prod.mk.inj h
      exact ⟨c, Prod.ext hstate rfl, (Except.ok.inj hvalue).symm⟩
    · rintro ⟨a, h, rfl⟩
      obtain ⟨hstate, hvalue⟩ := Prod.mk.inj h
      rw [← Except.ok.inj hvalue]
      exact Prod.ext hstate rfl
  | error e => simp

theorem Returns.unique {p : ExceptT ε (Process σ ℓ) α} {c : α} {t : σ} (h : Returns p s a s')
    (h' : Returns p s c t) : a = c ∧ s' = t := by
  have heq := h.symm.trans h'
  rw [Prod.mk.injEq, Except.ok.injEq] at heq
  exact ⟨heq.2, heq.1⟩

/-- What `f` sees of the state is left as it is, unless the process fails. -/
def Leaves {τ : Type} (f : σ → τ) (p : ExceptT ε (Process σ ℓ) α) : Prop :=
  ∀ s a s', Returns p s a s' → f s' = f s

theorem Leaves.bind {τ : Type} {g : σ → τ} {p : ExceptT ε (Process σ ℓ) α}
    {f : α → ExceptT ε (Process σ ℓ) β} (hp : Leaves g p) (hf : ∀ a, Leaves g (f a)) :
    Leaves g (p >>= f) := by
  intro s b s'' h
  obtain ⟨a, s', hfirst, hrest⟩ := returns_bind.mp h
  rw [hf a s' b s'' hrest, hp s a s' hfirst]

theorem leaves_lift {τ : Type} {g : σ → τ} {p : Process σ ℓ α} (h : ∀ s, g (p.run s).1 = g s) :
    Leaves g (liftM p : ExceptT ε (Process σ ℓ) α) := by
  intro s a s' hret
  rw [← h s, returns_lift.mp hret]

theorem leaves_pure {τ : Type} {g : σ → τ} (a : α) :
    Leaves g (pure a : ExceptT ε (Process σ ℓ) α) := by
  intro s b s' h
  rw [(returns_pure.mp h).2]

end Failing

theorem Always.here {P : Process σ ℓ α → Prop} {p : Process σ ℓ α} (h : Always P p) : P p := by
  cases p with
  | ret a => exact h
  | step l u k => exact h.1

end Process

variable {ι σ ℓ : Type} {α : ι → Type}

/-- The shared state and what is left of each process. -/
structure Pool (ι σ ℓ : Type) (α : ι → Type) where
  state : σ
  procs : ∀ i, Process σ ℓ (α i)

namespace Pool

variable [DecidableEq ι]

/-- Process `i` takes its next step.  A finished process does nothing. -/
def turn (c : Pool ι σ ℓ α) (i : ι) : Pool ι σ ℓ α :=
  match c.procs i with
  | .ret _ => c
  | .step _ u k => ⟨u c.state, Function.update c.procs i (k c.state)⟩

def exec (c : Pool ι σ ℓ α) (schedule : List ι) : Pool ι σ ℓ α := schedule.foldl turn c

theorem turn_of_ret {c : Pool ι σ ℓ α} {i : ι} {a : α i} (h : c.procs i = .ret a) :
    c.turn i = c := by
  rw [turn, h]

theorem turn_of_step {c : Pool ι σ ℓ α} {i : ι} {l : ℓ} {u : σ → σ}
    {k : σ → Process σ ℓ (α i)} (h : c.procs i = .step l u k) :
    c.turn i = ⟨u c.state, Function.update c.procs i (k c.state)⟩ := by
  rw [turn, h]

/-- A run in which every turn meets a condition on the pool it is taken in. -/
def Guarded (good : Pool ι σ ℓ α → ι → Prop) : Pool ι σ ℓ α → List ι → Prop
  | _, [] => True
  | c, i :: is => good c i ∧ Guarded good (c.turn i) is

theorem Guarded.invariant {good : Pool ι σ ℓ α → ι → Prop} {J : Pool ι σ ℓ α → Prop}
    (hstep : ∀ c i, J c → good c i → J (c.turn i)) {c : Pool ι σ ℓ α} {is : List ι}
    (hg : Guarded good c is) (h : J c) : J (c.exec is) := by
  induction is generalizing c with
  | nil => exact h
  | cons i is ih => exact ih hg.2 (hstep c i h hg.1)

section Calls

variable {κ α : Type}

/-- A pool takes a turn, or a call starts in one of its places. -/
inductive Act (ι κ : Type) where
  | turn (i : ι)
  | start (i : ι) (call : κ)

def start (c : Pool ι σ ℓ (fun _ => α)) (i : ι) (p : Process σ ℓ α) : Pool ι σ ℓ (fun _ => α) :=
  ⟨c.state, Function.update c.procs i p⟩

def perform (program : κ → Process σ ℓ α) (c : Pool ι σ ℓ (fun _ => α)) :
    Act ι κ → Pool ι σ ℓ (fun _ => α)
  | .turn i => c.turn i
  | .start i call => c.start i (program call)

def performs (program : κ → Process σ ℓ α) (c : Pool ι σ ℓ (fun _ => α)) (acts : List (Act ι κ)) :
    Pool ι σ ℓ (fun _ => α) :=
  acts.foldl (perform program) c

variable {program : κ → Process σ ℓ α} {c : Pool ι σ ℓ (fun _ => α)} {acts : List (Act ι κ)}

theorem performs_append (as bs : List (Act ι κ)) :
    c.performs program (as ++ bs) = (c.performs program as).performs program bs :=
  List.foldl_append ..

def Meets (program : κ → Process σ ℓ α) (good : Pool ι σ ℓ (fun _ => α) → Act ι κ → Prop) :
    Pool ι σ ℓ (fun _ => α) → List (Act ι κ) → Prop
  | _, [] => True
  | c, act :: acts => good c act ∧ Meets program good (c.perform program act) acts

section Meeting

variable {good : Pool ι σ ℓ (fun _ => α) → Act ι κ → Prop}

theorem meets_append {as bs : List (Act ι κ)} : Meets program good c (as ++ bs) ↔
    Meets program good c as ∧ Meets program good (c.performs program as) bs := by
  induction as generalizing c with
  | nil => exact ⟨fun h => ⟨trivial, h⟩, fun h => h.2⟩
  | cons act as ih =>
    show good c act ∧ Meets program good _ (as ++ bs) ↔ (good c act ∧ _) ∧ _
    rw [ih, and_assoc]
    rfl

theorem Meets.invariant {J : Pool ι σ ℓ (fun _ => α) → Prop}
    (hstep : ∀ c act, J c → good c act → J (c.perform program act))
    (hmeets : Meets program good c acts) (h : J c) : J (c.performs program acts) := by
  induction acts generalizing c with
  | nil => exact h
  | cons act acts ih => exact ih hmeets.2 (hstep c act h hmeets.1)

end Meeting

/-- The invariant holds, every process keeps it, and each place promises its
result. -/
structure Kept (I : σ → Prop) (Q : ι → α → Prop) (c : Pool ι σ ℓ (fun _ => α)) : Prop where
  state : I c.state
  procs : ∀ i, (c.procs i).Keeps I (Q i)

variable {I : σ → Prop} {Q : ι → α → Prop}

theorem Kept.start (h : Kept I Q c) {i : ι} {p : Process σ ℓ α} (hp : p.Keeps I (Q i)) :
    Kept I Q (c.start i p) := by
  refine ⟨h.state, fun j => ?_⟩
  by_cases hj : j = i
  · subst hj
    simpa [Pool.start] using hp
  · simpa [Pool.start, Function.update_of_ne hj] using h.procs j

theorem Kept.start_at {R : α → Prop} (h : Kept I (fun _ _ => True) c) {i : ι}
    {p : Process σ ℓ α} (hp : p.Keeps I R) : Kept I (fun j a => j = i → R a) (c.start i p) := by
  refine ⟨h.state, fun j => ?_⟩
  by_cases hj : j = i
  · subst hj
    have hstarted : (c.start j p).procs j = p := by simp [Pool.start]
    rw [hstarted]
    exact hp.mono fun a ha _ => ha
  · have hother : (c.start i p).procs j = c.procs j := by simp [Pool.start, hj]
    rw [hother]
    exact (h.procs j).mono fun a _ heq => absurd heq hj

theorem Kept.turn (h : Kept I Q c) (i : ι) : Kept I Q (c.turn i) := by
  have hi := h.procs i
  cases hp : c.procs i with
  | ret a =>
    rw [turn_of_ret hp]
    exact h
  | step l u k =>
    rw [hp] at hi
    obtain ⟨hstate, hrest⟩ := hi c.state h.state
    rw [turn_of_step hp]
    have hkept : Kept I Q ⟨u c.state, c.procs⟩ := ⟨hstate, h.procs⟩
    exact hkept.start hrest

/-- The invariant survives every run whose calls keep it. -/
theorem Kept.performs (h : Kept I Q c)
    (hcalls : ∀ i call, .start i call ∈ acts → (program call).Keeps I (Q i)) :
    Kept I Q (c.performs program acts) := by
  induction acts generalizing c with
  | nil => exact h
  | cons act acts ih =>
    refine ih ?_ fun i call hmem => hcalls i call (List.mem_cons_of_mem _ hmem)
    cases act with
    | turn i => exact h.turn i
    | start i call => exact h.start (hcalls i call List.mem_cons_self)

section Protocols

variable {P : Process.Protocol σ ℓ}

structure Obeyed (P : Process.Protocol σ ℓ) (c : Pool ι σ ℓ (fun _ => α)) : Prop where
  state : P.inv c.state
  procs : ∀ i, (c.procs i).Obeys P (fun _ _ => True) c.state

omit [DecidableEq ι] in
theorem Obeyed.asserts (h : Obeyed P c) {i : ι} {l : ℓ} (hl : (c.procs i).next? = some l) :
    P.asserts l c.state := by
  have hi := h.procs i
  cases hp : c.procs i with
  | ret a =>
    rw [hp] at hl
    cases hl
  | step l' u k =>
    rw [hp] at hi hl
    rw [← Option.some.inj hl]
    exact (hi c.state h.state (P.refl _)).1

theorem Obeyed.does (h : Obeyed P c) {i : ι} {l : ℓ} (hl : (c.procs i).next? = some l) :
    P.does l c.state (c.turn i).state := by
  have hi := h.procs i
  cases hp : c.procs i with
  | ret a =>
    rw [hp] at hl
    cases hl
  | step l' u k =>
    rw [hp] at hi hl
    rw [← Option.some.inj hl, turn_of_step hp]
    exact (hi c.state h.state (P.refl _)).2.2.1

theorem Obeyed.turn (h : Obeyed P c) (i : ι) : Obeyed P (c.turn i) := by
  have hi := h.procs i
  cases hp : c.procs i with
  | ret a =>
    rw [turn_of_ret hp]
    exact h
  | step l u k =>
    rw [hp] at hi
    obtain ⟨-, hinv, hdoes, hrest⟩ := hi c.state h.state (P.refl _)
    rw [turn_of_step hp]
    refine ⟨hinv, fun j => ?_⟩
    by_cases hj : j = i
    · subst hj
      simpa using hrest
    · simpa [Function.update_of_ne hj] using (h.procs j).later (P.does_rely hdoes)

theorem Obeyed.performs (h : Obeyed P c)
    (hcalls : ∀ call s, (program call).Obeys P (fun _ _ => True) s) :
    Obeyed P (c.performs program acts) := by
  induction acts generalizing c with
  | nil => exact h
  | cons act acts ih =>
    refine ih ?_
    cases act with
    | turn i => exact h.turn i
    | start i call =>
      refine ⟨h.state, fun j => ?_⟩
      by_cases hj : j = i
      · subst hj
        simpa [perform, Pool.start] using hcalls call c.state
      · simpa [perform, Pool.start, Function.update_of_ne hj] using h.procs j

end Protocols

section Always

variable {P : Process σ ℓ α → Prop}

theorem start_always (h : ∀ i, (c.procs i).Always P) (i : ι) {p : Process σ ℓ α}
    (hp : p.Always P) : ∀ j, ((c.start i p).procs j).Always P := by
  intro j
  by_cases hj : j = i
  · subst hj
    simpa [Pool.start] using hp
  · simpa [Pool.start, Function.update_of_ne hj] using h j

theorem turn_always (h : ∀ i, (c.procs i).Always P) (i : ι) :
    ∀ j, ((c.turn i).procs j).Always P := by
  have hi := h i
  cases hp : c.procs i with
  | ret a =>
    rw [turn_of_ret hp]
    exact h
  | step l u k =>
    rw [hp] at hi
    rw [turn_of_step hp]
    have hmoved : ∀ j, ((⟨u c.state, c.procs⟩ : Pool ι σ ℓ (fun _ => α)).procs j).Always P := h
    exact start_always hmoved i (hi.2 c.state)

end Always

section Scripts

variable {S : Process.Script σ ℓ} {i : ι} {l : ℓ}

theorem does_of_plays (h : (c.procs i).Plays S) (hl : (c.procs i).next? = some l) :
    S.does l c.state (c.turn i).state := by
  cases hp : c.procs i with
  | ret a =>
    rw [hp] at hl
    cases hl
  | step l' u k =>
    rw [hp] at h hl
    rw [← Option.some.inj hl, turn_of_step hp]
    exact (h c.state).1

theorem next_of_plays (h : (c.procs i).Plays S) (hl : (c.procs i).next? = some l) {l' : ℓ}
    (hl' : ((c.turn i).procs i).next? = some l') : S.next l c.state l' := by
  cases hp : c.procs i with
  | ret a =>
    rw [hp] at hl
    cases hl
  | step l'' u k =>
    rw [hp] at h hl
    rw [turn_of_step hp] at hl'
    dsimp only at hl'
    rw [Function.update_self] at hl'
    rw [← Option.some.inj hl]
    exact (h c.state).2 l' hl'

/-- An invariant of the state, and what holds of the state at the next step of
every process of a pool that goes by a script. -/
structure Scripted (S : Process.Script σ ℓ) (I : σ → Prop) (F : ℓ → σ → Prop)
    (c : Pool ι σ ℓ (fun _ => α)) : Prop where
  state : I c.state
  plays : ∀ i, (c.procs i).Always (Process.Plays S)
  labels : ∀ i l, (c.procs i).next? = some l → F l c.state

theorem turn_of_next?_none (h : (c.procs i).next? = none) : c.turn i = c := by
  cases hp : c.procs i with
  | ret a => exact turn_of_ret hp
  | step l u k =>
    rw [hp] at h
    cases h

theorem turn_procs_of_ne {j : ι} (h : j ≠ i) : (c.turn i).procs j = c.procs j := by
  cases hp : c.procs i with
  | ret a => rw [turn_of_ret hp]
  | step l u k =>
    rw [turn_of_step hp]
    exact Function.update_of_ne h ..

variable {I : σ → Prop} {F : ℓ → σ → Prop}

theorem Scripted.turn (h : Scripted S I F c) (i : ι)
    (hstep : ∀ l, (c.procs i).next? = some l → F l c.state → S.does l c.state (c.turn i).state →
      I (c.turn i).state ∧
        (∀ j l', j ≠ i → (c.procs j).next? = some l' → F l' c.state → F l' (c.turn i).state) ∧
        ∀ l', S.next l c.state l' → F l' (c.turn i).state) :
    Scripted S I F (c.turn i) := by
  cases hl : (c.procs i).next? with
  | none =>
    rw [turn_of_next?_none hl]
    exact h
  | some l =>
    have hplays := (h.plays i).here
    obtain ⟨hI, hothers, hnext⟩ := hstep l hl (h.labels i l hl) (does_of_plays hplays hl)
    refine ⟨hI, turn_always h.plays i, fun j l' hl' => ?_⟩
    by_cases hj : j = i
    · subst hj
      exact hnext l' (next_of_plays hplays hl hl')
    · rw [turn_procs_of_ne hj] at hl'
      exact hothers j l' hj hl' (h.labels j l' hl')

theorem Scripted.start (h : Scripted S I F c) (i : ι) {p : Process σ ℓ α}
    (hp : p.Always (Process.Plays S)) (hlabel : ∀ l, p.next? = some l → F l c.state) :
    Scripted S I F (c.start i p) := by
  refine ⟨h.state, start_always h.plays i hp, fun j l hl => ?_⟩
  by_cases hj : j = i
  · subst hj
    have hstarted : (c.start j p).procs j = p := by simp [Pool.start]
    rw [hstarted] at hl
    exact hlabel l hl
  · have hother : (c.start i p).procs j = c.procs j := by simp [Pool.start, hj]
    rw [hother] at hl
    exact h.labels j l hl

theorem Scripted.performs (h : Scripted S I F c)
    (hstep : ∀ l s t, I s → F l s → S.does l s t →
      I t ∧ (∀ l', F l' s → F l' t) ∧ ∀ l', S.next l s l' → F l' t)
    (hcalls : ∀ i call, .start i call ∈ acts → (program call).Always (Process.Plays S) ∧
      ∀ s l, I s → (program call).next? = some l → F l s) :
    Scripted S I F (c.performs program acts) := by
  induction acts generalizing c with
  | nil => exact h
  | cons act acts ih =>
    refine ih ?_ fun i call hmem => hcalls i call (List.mem_cons_of_mem _ hmem)
    cases act with
    | turn i =>
      refine h.turn i fun l _ hF hdoes => ?_
      obtain ⟨hI, hothers, hnext⟩ := hstep l _ _ h.state hF hdoes
      exact ⟨hI, fun _ l' _ _ => hothers l', hnext⟩
    | start i call =>
      obtain ⟨hplays, hlabel⟩ := hcalls i call List.mem_cons_self
      exact h.start i hplays fun l => hlabel _ l h.state

end Scripts

theorem alone_always {P : Process σ ℓ α → Prop} {i : ι} (h : (c.procs i).Always P) (n : Nat) :
    ((c.performs program (List.replicate n (.turn i))).procs i).Always P := by
  induction n generalizing c with
  | zero => exact h
  | succ n ih =>
    refine ih ?_
    show ((c.turn i).procs i).Always P
    cases hp : c.procs i with
    | ret a =>
      rw [turn_of_ret hp]
      exact h
    | step l u k =>
      rw [hp] at h
      rw [turn_of_step hp]
      dsimp only
      rw [Function.update_self]
      exact h.2 c.state

theorem performs_alone (program : κ → Process σ ℓ α) (i : ι) (c : Pool ι σ ℓ (fun _ => α)) :
    ∃ n, (c.performs program (List.replicate n (.turn i))).state =
      ((c.procs i).run c.state).1 := by
  generalize hp : c.procs i = p
  induction p generalizing c with
  | ret a => exact ⟨0, rfl⟩
  | step l u k ih =>
    have hturn := turn_of_step hp
    have hproc : (c.turn i).procs i = k c.state := by
      rw [hturn]
      exact Function.update_self ..
    obtain ⟨n, hn⟩ := ih c.state (c.turn i) hproc
    refine ⟨n + 1, ?_⟩
    show ((c.turn i).performs program (List.replicate n (.turn i))).state = _
    rw [hn, hturn]
    rfl

/-- A sweep that runs to its end puts nothing that it has passed or does not
find. -/
theorem performs_sweep {ν : Type} (program : κ → Process σ ℓ α)
    {label : List ν → List ν → ℓ} {found : ν → σ → Bool}
    {replace : List ν → σ → σ} {a : α} {x : ν} {i : ι} {collected remaining : List ν}
    (hi : c.procs i = Process.sweep label found replace a collected remaining)
    (hcollected : x ∉ collected) (hremaining : found x c.state = true → x ∉ remaining) :
    ∃ collected', x ∉ collected' ∧
      (c.performs program (List.replicate (remaining.length + 1) (.turn i))).state =
        replace collected' c.state := by
  induction remaining generalizing c collected with
  | nil =>
    refine ⟨collected, hcollected, ?_⟩
    show (c.turn i).state = _
    rw [turn_of_step hi]
  | cons y rest ih =>
    have hturn : c.turn i = ⟨c.state, Function.update c.procs i
        (if found y c.state then Process.sweep label found replace a (collected ++ [y]) rest
        else Process.sweep label found replace a collected rest)⟩ := turn_of_step hi
    have hstate : (c.turn i).state = c.state := by rw [hturn]
    have hproc : (c.turn i).procs i =
        if found y c.state then Process.sweep label found replace a (collected ++ [y]) rest
        else Process.sweep label found replace a collected rest := by
      rw [hturn]
      exact Function.update_self ..
    have hrest : found x (c.turn i).state = true → x ∉ rest := by
      rw [hstate]
      exact fun hx hmem => hremaining hx (List.mem_cons_of_mem y hmem)
    rw [← hstate]
    by_cases hfound : found y c.state = true
    · have hmore : x ∉ collected ++ [y] := by
        rw [List.mem_append, List.mem_singleton, not_or]
        refine ⟨hcollected, fun heq => ?_⟩
        rw [heq] at hremaining
        exact hremaining hfound List.mem_cons_self
      rw [if_pos hfound] at hproc
      exact ih hproc hmore hrest
    · rw [if_neg hfound] at hproc
      exact ih hproc hcollected hrest

variable {P : Process σ ℓ α → Prop}

theorem performs_always (h : ∀ i, (c.procs i).Always P)
    (hcalls : ∀ i call, .start i call ∈ acts → (program call).Always P) :
    ∀ i, ((c.performs program acts).procs i).Always P := by
  induction acts generalizing c with
  | nil => exact h
  | cons act acts ih =>
    refine ih ?_ fun i call hmem => hcalls i call (List.mem_cons_of_mem _ hmem)
    cases act with
    | turn i => exact turn_always h i
    | start i call => exact start_always h i (hcalls i call List.mem_cons_self)

end Calls

end Pool

end Lib

/-! ## Courses

A course says what a step does and which step, if there is one, comes behind it.  The turns
of processes that take a course are known from the labels of their next steps.
-/

namespace Lib

structure Course (σ ℓ : Type) where
  apply : ℓ → σ → σ
  /-- After a step in a state there comes no step, or one of such a label. -/
  leads : ℓ → σ → Option ℓ → Prop

def Process.Takes {σ ℓ α : Type} (C : Course σ ℓ) : Process σ ℓ α → Prop
  | .ret _ => True
  | .step l u k => ∀ s, u s = C.apply l s ∧ C.leads l s (k s).next?

namespace Pool

variable {ι κ σ ℓ α : Type} [DecidableEq ι] {C : Course σ ℓ} {program : κ → Process σ ℓ α}
  {c : Pool ι σ ℓ (fun _ => α)} {i j : ι} {l : ℓ}

theorem state_turn_of_takes (h : (c.procs i).Takes C) (hl : (c.procs i).next? = some l) :
    (c.turn i).state = C.apply l c.state := by
  cases hp : c.procs i with
  | ret a =>
    rw [hp] at hl
    cases hl
  | step l' u k =>
    rw [hp] at h hl
    rw [← Option.some.inj hl, turn_of_step hp]
    exact (h c.state).1

theorem leads_turn_of_takes (h : (c.procs i).Takes C) (hl : (c.procs i).next? = some l) :
    C.leads l c.state ((c.turn i).procs i).next? := by
  cases hp : c.procs i with
  | ret a =>
    rw [hp] at hl
    cases hl
  | step l' u k =>
    rw [hp] at h hl
    rw [← Option.some.inj hl, turn_of_step hp]
    dsimp only
    rw [Function.update_self]
    exact (h c.state).2

theorem turn_cases (h : (c.procs i).Takes C) :
    c.turn i = c ∨ ∃ l, (c.procs i).next? = some l ∧ (c.turn i).state = C.apply l c.state ∧
      C.leads l c.state ((c.turn i).procs i).next? := by
  cases hl : (c.procs i).next? with
  | none => exact Or.inl (turn_of_next?_none hl)
  | some l => exact Or.inr ⟨l, rfl, state_turn_of_takes h hl, leads_turn_of_takes h hl⟩

@[simp] theorem start_procs_self (p : Process σ ℓ α) : (c.start i p).procs i = p :=
  Function.update_self ..

theorem start_procs_of_ne (p : Process σ ℓ α) (h : j ≠ i) :
    (c.start i p).procs j = c.procs j :=
  Function.update_of_ne h ..

end Pool

end Lib
