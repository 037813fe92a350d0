import Mathlib.Algebra.Order.BigOperators.Group.Finset
import Sentora.Lib.Process

/-!
# Ledgers

What the shared state of a pool holds and what its processes may still take from
it, counted together.

Every process has a credit.  A step pays from the credit for what it adds to the
state and may gain credit for what it takes out, so that the sum of the stock and
of all credits compares with what it was before.  The relation of the ledger is
`≤` where steps may lose something, and `=` where nothing is lost.
-/

namespace Lib

/-- An invariant, the steps that are allowed in a state, what the state holds, and
how the sum after a step compares with the sum before it. -/
structure Ledger (σ ℓ : Type) where
  inv : σ → Prop
  allows : ℓ → σ → Prop
  stock : σ → Nat
  rel : Nat → Nat → Prop
  trans : ∀ {a b c}, rel a b → rel b c → rel a c
  add : ∀ {a b} c, rel a b → rel (a + c) (b + c)

variable {ι σ ℓ α β : Type} {L : Ledger σ ℓ}

namespace Process

/-- From credit `n` on every allowed step keeps the invariant and the sum, and the
result is right for the credit that is left. -/
def Pays (L : Ledger σ ℓ) (Q : Nat → α → Prop) : Nat → Process σ ℓ α → Prop
  | n, .ret a => Q n a
  | n, .step l u k => ∀ s, L.inv s → L.allows l s →
      L.inv (u s) ∧ ∃ m, L.rel (L.stock (u s) + m) (L.stock s + n) ∧ Pays L Q m (k s)

variable {Q : Nat → α → Prop} {n : Nat}

theorem Pays.bind {R : Nat → α → Prop} {Q : Nat → β → Prop} {p : Process σ ℓ α}
    {f : α → Process σ ℓ β} (hp : Pays L R n p) (hf : ∀ m a, R m a → Pays L Q m (f a)) :
    Pays L Q n (p >>= f) := by
  induction p generalizing n with
  | ret a => exact hf n a hp
  | step l u k ih =>
    intro s hs hl
    obtain ⟨hinv, m, hsum, hrest⟩ := hp s hs hl
    exact ⟨hinv, m, hsum, ih s hrest⟩

theorem pays_atomic {l : ℓ} {f : σ → σ × α}
    (h : ∀ s, L.inv s → L.allows l s →
      L.inv (f s).1 ∧ ∃ m, L.rel (L.stock (f s).1 + m) (L.stock s + n) ∧ Q m (f s).2) :
    Pays L Q n (atomic l f) :=
  h

theorem Pays.mono {R : Nat → α → Prop} {p : Process σ ℓ α} (hp : Pays L R n p)
    (h : ∀ m a, R m a → Q m a) : Pays L Q n p := by
  induction p generalizing n with
  | ret a => exact h n a hp
  | step l u k ih =>
    intro s hs hl
    obtain ⟨hinv, m, hsum, hrest⟩ := hp s hs hl
    exact ⟨hinv, m, hsum, ih s hrest⟩

theorem Pays.of_result {p : Process σ ℓ α} {a : α} (hp : Pays L Q n p)
    (h : p.result? = some a) : Q n a := by
  cases p with
  | ret b =>
    rw [← Option.some.inj h]
    exact hp
  | step l u k => cases h

theorem Updates.pays {U : (σ → σ) → Prop} {p : Process σ ℓ α} (hp : Updates U p)
    (h : ∀ u, U u → ∀ s, L.inv s → L.inv (u s) ∧ L.rel (L.stock (u s)) (L.stock s)) (n : Nat) :
    Pays L (fun m _ => m = n) n p := by
  induction p with
  | ret a => rfl
  | step l u k ih =>
    intro s hs _
    obtain ⟨hinv, hsum⟩ := h u hp.1 s hs
    exact ⟨hinv, n, L.add n hsum, ih s (hp.2 s)⟩

/-- What holds of every result, whatever the steps find. -/
theorem Pays.and_keeps {R : α → Prop} {p : Process σ ℓ α} (hp : Pays L Q n p)
    (hr : Keeps (fun _ => True) R p) : Pays L (fun m a => Q m a ∧ R a) n p := by
  induction p generalizing n with
  | ret a => exact ⟨hp, hr⟩
  | step l u k ih =>
    intro s hs hl
    obtain ⟨hinv, m, hsum, hrest⟩ := hp s hs hl
    exact ⟨hinv, m, hsum, ih s hrest (hr s trivial).2⟩

theorem Pays.zoom {τ ℓ' : Type} {get : τ → σ} {set : σ → τ → τ} {f : ℓ → ℓ'} {L' : Ledger τ ℓ'}
    {p : Process σ ℓ α} (hp : Pays L Q n p) (hinv : ∀ t, L'.inv t → L.inv (get t))
    (hallows : ∀ l t, L'.allows (f l) t → L.allows l (get t))
    (hset : ∀ s t, L'.inv t → L.inv s → L'.inv (set s t))
    (hrel : ∀ s t a b, L.rel (L.stock s + a) (L.stock (get t) + b) →
      L'.rel (L'.stock (set s t) + a) (L'.stock t + b)) : Pays L' Q n (p.zoom get set f) := by
  induction p generalizing n with
  | ret a => exact hp
  | step l u k ih =>
    intro t ht hl
    obtain ⟨hkept, m, hsum, hrest⟩ := hp (get t) (hinv t ht) (hallows l t hl)
    exact ⟨hset _ t ht hkept, m, hrel _ t m n hsum, ih (get t) hrest⟩

section Failing

variable {ε : Type}

/-- A failure needs nothing. -/
def OnOk (Q : Nat → α → Prop) (m : Nat) (r : Except ε α) : Prop := ∀ a, r = .ok a → Q m a

theorem Pays.except_bind {R : Nat → α → Prop} {Q : Nat → β → Prop}
    {p : ExceptT ε (Process σ ℓ) α} {f : α → ExceptT ε (Process σ ℓ) β}
    (hp : Pays L (OnOk R) n p.run) (hf : ∀ m a, R m a → Pays L (OnOk Q) m (f a).run) :
    Pays L (OnOk Q) n (p >>= f).run := by
  refine Pays.bind hp fun m r hr => ?_
  cases r with
  | ok a => exact hf m a (hr a rfl)
  | error e => exact fun _ h => nomatch h

theorem pays_throw (e : ε) : Pays L (OnOk Q) n (throw e : ExceptT ε (Process σ ℓ) α).run :=
  fun _ h => nomatch h

theorem pays_pure {a : α} (h : Q n a) :
    Pays L (OnOk Q) n (pure a : ExceptT ε (Process σ ℓ) α).run := by
  intro b hb
  rwa [← Except.ok.inj hb]

theorem pays_lift {p : Process σ ℓ α} (hp : Pays L Q n p) :
    Pays L (OnOk Q) n (liftM p : ExceptT ε (Process σ ℓ) α).run := by
  refine Pays.bind hp fun m a ha b hb => ?_
  rwa [← Except.ok.inj hb]

theorem Pays.except_map {Q : Nat → β → Prop} {p : ExceptT ε (Process σ ℓ) α} {f : α → β}
    (hp : Pays L (OnOk fun m a => Q m (f a)) n p.run) : Pays L (OnOk Q) n (f <$> p).run := by
  refine Pays.bind hp fun m r hr => ?_
  cases r with
  | ok a => exact pays_pure (hr a rfl)
  | error e => exact fun _ h => nomatch h

theorem Pays.after_throwIf {Q : Nat → α → Prop} {c : Bool} {e : ε}
    {f : Unit → ExceptT ε (Process σ ℓ) α} (hf : Pays L (OnOk Q) n (f ()).run) :
    Pays L (OnOk Q) n (throwIf c e >>= f).run := by
  cases c with
  | true => exact pays_throw e
  | false => exact hf

theorem Pays.after_ofExcept {Q : Nat → β → Prop} {r : Except ε α}
    {f : α → ExceptT ε (Process σ ℓ) β} (hf : ∀ a, r = .ok a → Pays L (OnOk Q) n (f a).run) :
    Pays L (OnOk Q) n (ofExcept r >>= f).run := by
  cases r with
  | ok a => exact hf a rfl
  | error e => exact pays_throw e

theorem Pays.after_orThrow {Q : Nat → β → Prop} {e : ε} {v : Option α}
    {f : α → ExceptT ε (Process σ ℓ) β} (hf : ∀ a, v = some a → Pays L (OnOk Q) n (f a).run) :
    Pays L (OnOk Q) n (orThrow e v >>= f).run := by
  cases v with
  | some a => exact hf a rfl
  | none => exact pays_throw e

end Failing

end Process

namespace Pool

variable {Q : ι → Nat → α → Prop} {b : Nat} {c : Pool ι σ ℓ (fun _ => α)}

/-- Every process pays from a credit of its own, and the sum of the stock and of
the credits compares with `b`. -/
structure Paid (L : Ledger σ ℓ) (Q : ι → Nat → α → Prop) (b : Nat)
    (c : Pool ι σ ℓ (fun _ => α)) : Prop where
  inv : L.inv c.state
  funded : ∃ credit : ι → Nat, (∀ i, (c.procs i).Pays L (Q i) (credit i)) ∧
    ∃ S : Finset ι, ∀ T, S ⊆ T → L.rel (L.stock c.state + ∑ i ∈ T, credit i) b

theorem sum_le_one {credit : ι → Nat} (hle : ∀ i, credit i ≤ 1)
    (honly : ∀ i j, credit i ≠ 0 → credit j ≠ 0 → i = j) (T : Finset ι) :
    ∑ i ∈ T, credit i ≤ 1 := by
  by_cases hsome : ∃ i ∈ T, credit i ≠ 0
  · obtain ⟨i, hi, hne⟩ := hsome
    have hsingle : ∑ j ∈ T, credit j = credit i :=
      Finset.sum_eq_single_of_mem i hi fun j _ hj =>
        by_contra fun hcredit => hj (honly j i hcredit hne)
    rw [hsingle]
    exact hle i
  · have hzero : ∑ i ∈ T, credit i = 0 :=
      Finset.sum_eq_zero fun i hi => by_contra fun hne => hsome ⟨i, hi, hne⟩
    omega

variable [DecidableEq ι]

theorem pair_le_sum {i j : ι} (hne : i ≠ j) (credit : ι → Nat) (S : Finset ι) :
    credit i + credit j ≤ ∑ k ∈ insert i (insert j S), credit k := by
  rw [← Finset.sum_pair hne]
  apply Finset.sum_le_sum_of_subset
  apply Finset.insert_subset_insert
  exact Finset.singleton_subset_iff.mpr (Finset.mem_insert_self j S)

theorem sum_update {i : ι} {T : Finset ι} (hi : i ∈ T) (credit : ι → Nat) (m : Nat) :
    ∑ j ∈ T, Function.update credit i m j = m + ∑ j ∈ T.erase i, credit j := by
  rw [← Finset.add_sum_erase T _ hi, Function.update_self]
  congr 1
  exact Finset.sum_congr rfl fun j hj => Function.update_of_ne (Finset.ne_of_mem_erase hj) ..

theorem Paid.turn (h : Paid L Q b c) (i : ι)
    (hallows : ∀ l, (c.procs i).next? = some l → L.allows l c.state) :
    Paid L Q b (c.turn i) := by
  obtain ⟨credit, hpays, S, hsum⟩ := h.funded
  have hi := hpays i
  cases hp : c.procs i with
  | ret a =>
    rw [turn_of_ret hp]
    exact h
  | step l u k =>
    rw [hp] at hi hallows
    obtain ⟨hinv, m, hpaid, hrest⟩ := hi c.state h.inv (hallows l rfl)
    rw [turn_of_step hp]
    refine ⟨hinv, Function.update credit i m, fun j => ?_, insert i S, fun T hT => ?_⟩
    · by_cases hj : j = i
      · subst hj
        simpa using hrest
      · simpa [Function.update_of_ne hj] using hpays j
    · obtain ⟨hmem, hS⟩ := Finset.insert_subset_iff.mp hT
      refine L.trans ?_ (hsum T hS)
      show L.rel (L.stock (u c.state) + _) _
      rw [sum_update hmem, ← Finset.add_sum_erase T credit hmem, ← Nat.add_assoc, ← Nat.add_assoc]
      exact L.add _ hpaid

theorem Paid.exec (h : Paid L Q b c) {schedule : List ι}
    (hallows : Guarded (fun c i => ∀ l, (c.procs i).next? = some l → L.allows l c.state) c
      schedule) : Paid L Q b (c.exec schedule) :=
  hallows.invariant (J := Paid L Q b) (fun _ i h hi => h.turn i hi) h

end Pool

end Lib
