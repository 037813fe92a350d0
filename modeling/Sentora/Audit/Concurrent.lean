import Sentora.Audit.Build

/-!
# Initialisation beside appends

`initialize_chain` runs on every start of a worker and takes no lock, so its
steps fall anywhere between those of the appends of the other workers.  The
appends themselves are one process, in the order their lock gives them.

An append goes through two phases.  Between its calls the counter stands behind
the highest sequence; from the allocation of its sequence to the insert it
stands one further.  The initialisation reads in one step and writes in another
what is right in the first phase only.
-/

namespace Sentora.Audit

open Lib Process

/-- The highest sequence, and whether the one after it is allocated. -/
structure AppendPhase where
  last : Int
  allocated : Bool

/-- The steps between the allocation of a sequence and the insert. -/
def holdsSequence (l : ChainOp) : Bool :=
  match l with
  | .findBoundary | .markEpochEnd | .previousHash | .insert => true
  | _ => false

def appendPhases : Phases AppendPhase Store ChainOp where
  admits g l := if g.allocated then holdsSequence l = true else l = .getEpochSize ∨ l = .allocate
  after g l :=
    match l with
    | .allocate => ⟨g.last, true⟩
    | .insert => ⟨g.last + 1, false⟩
    | _ => g
  holds g s :=
    (∃ d ∈ s.auditLog, d.sequence = some 0) ∧ IsLast s.auditLog g.last ∧
      s.sequenceCounter = some (if g.allocated then g.last + 2 else g.last + 1)

section Phases

variable {rt : Runtime} {m : Int}

theorem follows_read {β : Type} {Q : AppendPhase → β → Prop} {g : AppendPhase} {l : ChainOp}
    {f : Store → β} (hl : appendPhases.admits g l) (hg : appendPhases.after g l = g)
    (h : ∀ s, Q g (f s)) : Follows appendPhases Q g (read l f) := by
  refine follows_atomic hl ?_
  intro s hs
  rw [hg]
  exact ⟨hs, h s⟩

theorem follows_closeEpoch (prevEpoch : Int) :
    Follows appendPhases (fun g _ => g = ⟨m, true⟩) ⟨m, true⟩ (closeEpoch prevEpoch) := by
  refine Follows.bind (follows_read (Q := fun g _ => g = ⟨m, true⟩) rfl rfl fun _ => rfl) ?_
  intro g found hg
  rw [hg]
  cases found with
  | none => exact rfl
  | some d =>
    refine Follows.bind (R := fun g _ => g = ⟨m, true⟩) (follows_atomic rfl ?_) ?_
    · intro s hs
      obtain ⟨⟨g0, hg0, hz⟩, hm, hc⟩ := hs
      have hf := untouched_markOid d.oid
      refine ⟨⟨⟨markOid d.oid g0, List.mem_map_of_mem hg0, ?_⟩, hm.map hf, hc⟩, rfl⟩
      rw [hf.sequence, hz]
    · intro g _ hg
      exact hg

theorem follows_insertEntry {entry : Doc} (hz : entry.sequence = some (m + 1)) :
    Follows appendPhases (fun g r => g = ⟨m + 1, false⟩ ∧ r = .ok entry) ⟨m, true⟩
      (insertEntry healthy (m + 1) entry) := by
  refine Follows.bind (R := fun g written => g = ⟨m + 1, false⟩ ∧ written = true)
    (follows_atomic rfl ?_) ?_
  · intro s hs
    obtain ⟨⟨g0, hg0, hz0⟩, hm, hc⟩ := hs
    have hdup : duplicateKey s.auditLog entry = false := by
      rw [duplicateKey_eq_false hz]
      intro d hd hdz
      have hle : m + 1 ≤ m := hm.2 d hd _ hdz
      omega
    have hpush : insertOne (healthy 0) entry s = (push entry s, true) := by
      simp only [insertOne, hdup, healthy, Bool.false_eq_true, if_false]
    rw [hpush]
    have hgrow := hm.grow (f := id) ⟨fun _ => rfl, fun _ => rfl, fun _ => rfl, fun _ => rfl,
      fun _ _ _ => rfl⟩ ((readBack_sequence entry s.nextOid).trans hz)
    rw [List.map_id] at hgrow
    refine ⟨⟨⟨g0, List.mem_append_left _ hg0, hz0⟩, hgrow, ?_⟩, rfl, rfl⟩
    show s.sequenceCounter = some (m + 1 + 1)
    rw [hc]
    show some (m + 2) = _
    congr 1
    omega
  · intro g written h
    rw [h.1, h.2]
    exact ⟨rfl, rfl⟩

theorem follows_linkedInsert (a : AppendArgs) (epoch : Int) (start : Bool) (prevEpochHash : Val) :
    Follows appendPhases
      (fun g r => g = ⟨m + 1, false⟩ ∧ ∃ entry : Doc, r = .ok entry ∧ entry.sequence = some (m + 1))
      ⟨m, true⟩ (do
        let previousHash ← read .previousHash (fun s => getPreviousHash s.auditLog (m + 1))
        let entry := withHash rt (chainEntry a (m + 1) epoch previousHash start prevEpochHash)
          previousHash
        insertEntry healthy (m + 1) entry) := by
  refine Follows.bind (follows_read (Q := fun g _ => g = ⟨m, true⟩) rfl rfl fun _ => rfl) ?_
  intro g previousHash hg
  rw [hg]
  have hz : (withHash rt (chainEntry a (m + 1) epoch previousHash start prevEpochHash)
      previousHash).sequence = some (m + 1) := by
    rw [withHash_sequence]
    rfl
  exact (follows_insertEntry hz).mono fun g r h => ⟨h.1, _, h.2, hz⟩

theorem follows_allocate :
    Follows appendPhases (fun g n => g = ⟨m, true⟩ ∧ n = m + 1) ⟨m, false⟩
      (atomic .allocate getNextSequence) := by
  refine follows_atomic (Or.inr rfl) ?_
  intro s hs
  obtain ⟨hgen, hm, hc⟩ := hs
  refine ⟨⟨hgen, hm, ?_⟩, rfl, ?_⟩
  · show some (s.sequenceCounter.getD 0 + 1) = some (m + 2)
    rw [hc]
    show some (m + 1 + 1) = _
    congr 1
    omega
  · show s.sequenceCounter.getD 0 + 1 - 1 = _
    rw [hc]
    show m + 1 + 1 - 1 = _
    omega

theorem follows_append (a : AppendArgs) :
    Follows appendPhases
      (fun g r => g = ⟨m + 1, false⟩ ∧ ∃ entry : Doc, r = .ok entry ∧ entry.sequence = some (m + 1))
      ⟨m, false⟩ (appendChainedEntry rt healthy a) := by
  have hsize : Follows appendPhases (fun g _ => g = ⟨m, false⟩) ⟨m, false⟩
      (read .getEpochSize getEpochSize) := follows_read (Or.inl rfl) rfl fun _ => rfl
  refine Follows.bind hsize ?_
  intro g epochSize hg
  rw [hg]
  refine Follows.bind follows_allocate ?_
  intro g n h
  rw [h.1, h.2]
  generalize opensEpoch (m + 1) epochSize = start
  cases start with
  | true =>
    refine Follows.bind (follows_closeEpoch _) ?_
    intro g prevEpochHash hg
    rw [hg]
    exact follows_linkedInsert a _ true prevEpochHash
  | false => exact follows_linkedInsert a _ false .none

theorem follows_appendAll (as : List AppendArgs) :
    Follows appendPhases
      (fun g rs => g.allocated = false ∧ ∃ entries, rs = entries.map Except.ok ∧
        entries.length = as.length ∧ Numbered Doc.sequence (m + 1) entries)
      ⟨m, false⟩ (appendAll rt healthy as) := by
  induction as generalizing m with
  | nil => exact ⟨rfl, [], rfl, rfl, trivial⟩
  | cons a as ih =>
    refine Follows.bind (follows_append a) ?_
    intro g r h
    obtain ⟨hg, entry, hr, hz⟩ := h
    rw [hg, hr]
    refine Follows.bind ih ?_
    intro g rs h
    obtain ⟨hg, entries, hrs, hlen, hnum⟩ := h
    rw [hrs]
    refine ⟨hg, entry :: entries, rfl, ?_, hz, hnum⟩
    rw [List.length_cons, List.length_cons, hlen]

end Phases

def AtReset (m : Int) (p : Process Store ChainOp Doc) : Prop :=
  ∃ genesis, p = .step .resetSequence (resetSequenceTo (m + 1)) (fun _ => .ret genesis)

def AtReadMax (p : Process Store ChainOp Doc) : Prop :=
  ∃ k, p = .step .readMax (fun s => s) k ∧ ∀ s m, IsLast s.auditLog m → AtReset m (k s)

def AtFindGenesis (p : Process Store ChainOp Doc) : Prop :=
  ∃ k, p = .step .findGenesis (fun s => s) k ∧
    ∀ s, (∃ d ∈ s.auditLog, d.sequence = some 0) → AtReadMax (k s)

def AtSave (p : Process Store ChainOp Doc) : Prop :=
  ∃ size k, p = .step .saveEpochSize (saveEpochSize size) k ∧ ∀ s, AtFindGenesis (k s)

theorem atReset_of_isLast {s : Store} {m : Int} (hm : IsLast s.auditLog m) (genesis : Doc) :
    AtReset m (match getLatestChainedEntry s.auditLog with
      | some d => do
        write .resetSequence (resetSequenceTo (seqKey d + 1))
        pure genesis
      | none => pure genesis) := by
  obtain ⟨latest, hl, heq⟩ := latest_of_isLast hm
  rw [hl]
  show AtReset m (write .resetSequence (resetSequenceTo (seqKey latest + 1)) >>= _)
  rw [heq]
  exact ⟨genesis, rfl⟩

theorem atSave_initializeChain (rt : Runtime) (a : InitArgs) : AtSave (initializeChain rt a) := by
  refine ⟨a.epochSize, _, rfl, ?_⟩
  intro _
  refine ⟨_, rfl, ?_⟩
  intro s hg
  obtain ⟨genesis, hfind⟩ := findSequence_ne_none.mp hg
  show AtReadMax (match findSequence s.auditLog 0 with
    | some genesis => _
    | none => _)
  rw [hfind]
  exact ⟨_, rfl, fun s m hm => atReset_of_isLast hm genesis⟩

/-- Where an initialisation of a chain that is there stands.  The value it is
about to write is right for the phase the appends are in. -/
inductive Resyncing (g : AppendPhase) (p : Process Store ChainOp Doc) : Prop where
  | save (h : AtSave p)
  | findGenesis (h : AtFindGenesis p)
  | readMax (h : AtReadMax p)
  | reset (hg : g.allocated = false) (h : AtReset g.last p)
  | done (genesis : Doc) (h : p = .ret genesis)

inductive Party where
  | initialise
  | append
deriving DecidableEq

abbrev Party.Result : Party → Type
  | .initialise => Doc
  | .append => List (Except ChainError Doc)

def beside (rt : Runtime) (init : InitArgs) (as : List AppendArgs) (s : Store) :
    Pool Party Store ChainOp Party.Result where
  state := s
  procs i :=
    match i with
    | .initialise => initializeChain rt init
    | .append => appendAll rt healthy as

/-- The initialisation does not read the highest sequence while an append holds
one that is not stored, and no sequence is allocated between that read and the
write of the counter. -/
def Apart (c : Pool Party Store ChainOp Party.Result) (i : Party) : Prop :=
  match i with
  | .initialise =>
    (c.procs .initialise).next? = some .readMax →
      ∀ l, (c.procs .append).next? = some l → holdsSequence l = false
  | .append =>
    (c.procs .append).next? = some .allocate →
      (c.procs .initialise).next? ≠ some .resetSequence

/-- What the appends return when `n` of them went well from sequence `z` on. -/
def Appended (n : Nat) (z : Int) (rs : List (Except ChainError Doc)) : Prop :=
  ∃ entries, rs = entries.map Except.ok ∧ entries.length = n ∧ Numbered Doc.sequence z entries

/-- The counter fits the phase the appends are in, and both processes are on
their course. -/
structure InStep (n : Nat) (z : Int) (c : Pool Party Store ChainOp Party.Result)
    (g : AppendPhase) : Prop where
  holds : appendPhases.holds g c.state
  appends : Follows appendPhases (fun g rs => g.allocated = false ∧ Appended n z rs) g
    (c.procs .append)
  resync : Resyncing g (c.procs .initialise)

section Step

variable {n : Nat} {z : Int} {c : Pool Party Store ChainOp Party.Result} {g : AppendPhase}

theorem InStep.turn_append (h : InStep n z c g) (hapart : Apart c .append) :
    ∃ g', InStep n z (c.turn .append) g' := by
  cases hp : c.procs .append with
  | ret rs =>
    rw [Pool.turn_of_ret hp]
    exact ⟨g, h⟩
  | step l u k =>
    have hfollows := h.appends
    rw [hp] at hfollows
    obtain ⟨hadmits, hstep⟩ := hfollows
    obtain ⟨hholds, hrest⟩ := hstep c.state h.holds
    rw [Pool.turn_of_step hp]
    refine ⟨appendPhases.after g l, hholds, ?_, ?_⟩
    · show Follows _ _ _ (Function.update c.procs .append (k c.state) .append)
      rw [Function.update_self]
      exact hrest
    · show Resyncing _ (Function.update c.procs .append (k c.state) .initialise)
      rw [Function.update_of_ne Party.noConfusion]
      cases h.resync with
      | save hs => exact .save hs
      | findGenesis hs => exact .findGenesis hs
      | readMax hs => exact .readMax hs
      | done genesis hs => exact .done genesis hs
      | reset hg hs =>
        -- the value to be written stays right, as nothing is allocated now
        have hl : l ≠ .allocate := by
          intro hl
          obtain ⟨genesis, hreset⟩ := hs
          refine hapart ?_ ?_
          · rw [hp, hl]
            rfl
          · rw [hreset]
            rfl
        have hadm : l = .getEpochSize ∨ l = .allocate := by
          have hcond := hadmits
          simp only [appendPhases, hg, Bool.false_eq_true, if_false] at hcond
          exact hcond
        have hsame : appendPhases.after g l = g := by
          rcases hadm with hadm | hadm
          · rw [hadm]
            rfl
          · exact absurd hadm hl
        rw [hsame]
        exact .reset hg hs

theorem InStep.not_allocated (h : InStep n z c g)
    (hidle : ∀ l, (c.procs .append).next? = some l → holdsSequence l = false) :
    g.allocated = false := by
  have hfollows := h.appends
  cases hp : c.procs .append with
  | ret rs =>
    rw [hp] at hfollows
    exact hfollows.1
  | step l u k =>
    rw [hp] at hfollows hidle
    have hadmits := hfollows.1
    have hl := hidle l rfl
    cases hg : g.allocated with
    | false => rfl
    | true =>
      simp only [appendPhases, hg, if_true] at hadmits
      rw [hl] at hadmits
      exact absurd hadmits Bool.false_ne_true

theorem InStep.turn_initialise (h : InStep n z c g) (hapart : Apart c .initialise) :
    ∃ g', InStep n z (c.turn .initialise) g' := by
  refine ⟨g, ?_⟩
  obtain ⟨hgenesis, hlast, hcount⟩ := h.holds
  -- a step of the initialisation that keeps the phase and goes on along its course
  have hmove : ∀ {l u k}, c.procs .initialise = .step l u k →
      appendPhases.holds g (u c.state) → Resyncing g (k c.state) →
      InStep n z (c.turn .initialise) g := by
    intro l u k hp hholds hresync
    rw [Pool.turn_of_step hp]
    refine ⟨hholds, ?_, ?_⟩
    · show Follows _ _ _ (Function.update c.procs .initialise (k c.state) .append)
      rw [Function.update_of_ne Party.noConfusion]
      exact h.appends
    · show Resyncing _ (Function.update c.procs .initialise (k c.state) .initialise)
      rw [Function.update_self]
      exact hresync
  cases h.resync with
  | save hs =>
    obtain ⟨size, k, hp, hnext⟩ := hs
    exact hmove hp ⟨hgenesis, hlast, hcount⟩ (.findGenesis (hnext c.state))
  | findGenesis hs =>
    obtain ⟨k, hp, hnext⟩ := hs
    exact hmove hp h.holds (.readMax (hnext c.state hgenesis))
  | readMax hs =>
    obtain ⟨k, hp, hnext⟩ := hs
    have hread : (c.procs .initialise).next? = some .readMax := by
      rw [hp]
      rfl
    exact hmove hp h.holds
      (.reset (h.not_allocated (hapart hread)) (hnext c.state g.last hlast))
  | reset hg hs =>
    obtain ⟨genesis, hp⟩ := hs
    refine hmove hp ⟨hgenesis, hlast, ?_⟩ (.done genesis rfl)
    show some (g.last + 1) = _
    rw [hg]
    rfl
  | done genesis hp =>
    rw [Pool.turn_of_ret hp]
    exact h

theorem inStep_beside (rt : Runtime) (init : InitArgs) (as : List AppendArgs) {s : Store} {m : Int}
    (hg : ∃ d ∈ s.auditLog, d.sequence = some 0) (hm : IsLast s.auditLog m)
    (hc : s.sequenceCounter = some (m + 1)) :
    InStep as.length (m + 1) (beside rt init as s) ⟨m, false⟩ :=
  ⟨⟨hg, hm, hc⟩, follows_appendAll as, .save (atSave_initializeChain rt init)⟩

end Step

/-- Beside an initialisation whose read and write stay apart from the sequences
the appends hold, every append succeeds with the next sequence, and in the end
the counter stands behind the highest one. -/
theorem initialize_beside_appends (rt : Runtime) (init : InitArgs) (as : List AppendArgs)
    (s : Store) (m : Int) (hg : ∃ d ∈ s.auditLog, d.sequence = some 0) (hm : IsLast s.auditLog m)
    (hc : s.sequenceCounter = some (m + 1)) (schedule : List Party)
    (hapart : (beside rt init as s).Guarded Apart schedule) :
    let c := (beside rt init as s).exec schedule
    ∀ rs, (c.procs .append).result? = some rs →
      Appended as.length (m + 1) rs ∧
      ∀ genesis, (c.procs .initialise).result? = some genesis →
        ∃ m', IsLast c.state.auditLog m' ∧ c.state.sequenceCounter = some (m' + 1) := by
  intro c rs hrs
  have hinv : ∃ g, InStep as.length (m + 1) c g := by
    refine hapart.invariant (J := fun c => ∃ g, InStep as.length (m + 1) c g) ?_
      ⟨_, inStep_beside rt init as hg hm hc⟩
    intro c i h hi
    obtain ⟨g, h⟩ := h
    cases i with
    | initialise => exact h.turn_initialise hi
    | append => exact h.turn_append hi
  obtain ⟨g, h⟩ := hinv
  have hfollows := h.appends
  cases hp : c.procs .append with
  | step l u k =>
    rw [hp] at hrs
    cases hrs
  | ret rs' =>
    rw [hp] at hrs hfollows
    obtain ⟨hidle, happended⟩ := hfollows
    have heq : rs' = rs := Option.some.inj hrs
    rw [← heq]
    refine ⟨happended, fun _ _ => ⟨g.last, h.holds.2.1, ?_⟩⟩
    rw [h.holds.2.2, hidle]
    rfl

def besideSample : Pool Party Store ChainOp Party.Result :=
  beside .tagged sampleInit [sampleAppend] (buildChain .tagged sampleInit [])

def apartSchedule : List Party :=
  [.append, .initialise, .initialise, .initialise, .initialise, .append, .append, .append]

theorem apartSchedule_apart : besideSample.Guarded Apart apartSchedule := by
  refine ⟨?_, ?_, ?_, ?_, ?_, ?_, ?_, ?_, trivial⟩
  · intro h
    cases h
  · intro h
    cases h
  · intro h
    cases h
  · intro _ l hl
    cases hl
    rfl
  · intro h
    cases h
  · intro _ h
    cases h
  · intro h
    cases h
  · intro h
    cases h

theorem besideSample_appends :
    ((besideSample.exec apartSchedule).procs .append).result?.isSome = true := by
  rfl

theorem initialize_beside_appends_sample :
    ∃ rs, ((besideSample.exec apartSchedule).procs .append).result? = some rs ∧
      Appended 1 (0 + 1) rs := by
  obtain ⟨rs, hrs⟩ := Option.isSome_iff_exists.mp besideSample_appends
  have h := built_genesis
  exact ⟨rs, hrs, (initialize_beside_appends .tagged sampleInit [sampleAppend]
    (buildChain .tagged sampleInit []) 0 h.layout.genesis h.isLast h.counter apartSchedule
    apartSchedule_apart rs hrs).1⟩

/-- The append runs between the read of the highest sequence and the write of
the counter. -/
def lateSchedule : List Party :=
  [.initialise, .initialise, .initialise, .append, .append, .append, .append, .initialise]

/-- The counter is set back to the sequence the append has taken. -/
theorem late_resync_sets_back :
    ¬∀ (rt : Runtime) (init : InitArgs) (as : List AppendArgs) (s : Store) (m : Int),
      (∃ d ∈ s.auditLog, d.sequence = some 0) → IsLast s.auditLog m →
      s.sequenceCounter = some (m + 1) → ∀ schedule : List Party,
      let c := (beside rt init as s).exec schedule
      ∀ rs, (c.procs .append).result? = some rs →
        Appended as.length (m + 1) rs ∧
        ∀ genesis, (c.procs .initialise).result? = some genesis →
          ∃ m', IsLast c.state.auditLog m' ∧ c.state.sequenceCounter = some (m' + 1) := by
  intro hclaim
  have h := built_genesis
  have hall := hclaim .tagged sampleInit [sampleAppend] (buildChain .tagged sampleInit []) 0
    h.layout.genesis h.isLast h.counter lateSchedule
  have happends : ((besideSample.exec lateSchedule).procs .append).result?.isSome = true := rfl
  have hinit : ((besideSample.exec lateSchedule).procs .initialise).result?.isSome = true := rfl
  obtain ⟨rs, hrs⟩ := Option.isSome_iff_exists.mp happends
  obtain ⟨genesis, hgenesis⟩ := Option.isSome_iff_exists.mp hinit
  obtain ⟨m, hlast, hcount⟩ := (hall rs hrs).2 genesis hgenesis
  have hback : (besideSample.exec lateSchedule).state.sequenceCounter = some 1 := rfl
  have htaken : (besideSample.exec lateSchedule).state.auditLog.map Doc.sequence =
      [some 0, some 1] := rfl
  have hm : m + 1 = 1 := Option.some.inj (hcount.symm.trans hback)
  have hmem : some 1 ∈ (besideSample.exec lateSchedule).state.auditLog.map Doc.sequence := by
    rw [htaken]
    exact List.mem_cons_of_mem _ List.mem_cons_self
  obtain ⟨d, hd, hd1⟩ := List.mem_map.mp hmem
  have := hlast.2 d hd 1 hd1
  omega

end Sentora.Audit
