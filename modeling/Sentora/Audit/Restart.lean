import Sentora.Audit.Build

/-!
# Restarts

Runs of initialisations and appends, one call after the other.  The service
initialises the chain on every start, so a chain is initialised again and again
while it grows: after old entries were deleted, and with a size of its own.
-/

namespace Sentora.Audit

open Lib Process

/-- A call of one of the two commands. -/
inductive Call where
  | init (a : InitArgs)
  | append (a : AppendArgs)

def Call.run (rt : Runtime) (c : Call) (s : Store) : Store :=
  match c with
  | .init a => ((initializeChain rt a).run s).1
  | .append a => ((appendChainedEntry rt healthy a).run s).1

def runCalls (rt : Runtime) (calls : List Call) (s : Store) : Store :=
  calls.foldl (fun s c => c.run rt s) s

section Runs

variable {rt : Runtime} {s : Store} {n : Nat}

theorem sequenced_run (rt : Runtime) (calls : List Call) (h : Sequenced s n) :
    ∃ n', Sequenced (runCalls rt calls s) n' := by
  induction calls generalizing s n with
  | nil => exact ⟨n, h⟩
  | cons c calls ih =>
    cases c with
    | init a =>
      cases n with
      | zero => exact ih (sequenced_initialize_nil rt a h.nil)
      | succ n => exact ih (h.init rt a)
    | append a => exact ih (h.append rt a)

end Runs

/-! ## Retention

The entries of a chain carry ascending timestamps, so deleting by age removes
the first ones.
-/

def deleteOldest (j : Nat) (s : Store) : Store := { s with auditLog := s.auditLog.drop j }

def AppendsAbove (rt : Runtime) : List AppendArgs → Store → Prop
  | [], _ => True
  | b :: bs, s =>
    (∃ entry z, ((appendChainedEntry rt healthy b).run s).2 = .ok entry ∧
      entry.sequence = some z ∧ ∀ d ∈ s.auditLog, ∀ y, d.sequence = some y → y < z) ∧
    AppendsAbove rt bs ((appendChainedEntry rt healthy b).run s).1

section Retention

variable {rt : Runtime} {s : Store} {n : Nat}

theorem Sequenced.appendsAbove (h : Sequenced s n) (bs : List AppendArgs) :
    AppendsAbove rt bs s := by
  induction bs generalizing s n with
  | nil => trivial
  | cons b bs ih =>
    refine ⟨⟨nextEntry rt s b, n, ?_, ?_, ?_⟩, ih (h.append rt b)⟩
    · rw [append_healthy b h.sequence_free]
    · rw [nextEntry_sequence, h.next]
    · intro d hd y hy
      exact (h.below hd hy).2

/-- A chain whose first entries are gone starts its counter anew under the
entries that are left. -/
theorem Sequenced.not_appendsAbove (h : Sequenced s n) (a : InitArgs) {j : Nat} (hj : 0 < j)
    (hn : j < n) (b : AppendArgs) :
    ¬AppendsAbove rt [b] ((initializeChain rt a).run (deleteOldest j s)).1 := by
  have hleft : ∀ d ∈ s.auditLog.drop j, d.sequence ≠ some 0 := by
    intro d hd h0
    have hsplit := h.numbered
    rw [← List.take_append_drop j s.auditLog] at hsplit
    obtain ⟨z, hz, hlo, -⟩ := (numbered_append.mp hsplit).2.of_mem hd
    rw [h0] at hz
    have := Option.some.inj hz
    rw [List.length_take, h.length] at hlo
    omega
  rw [initialize_fresh a hleft]
  intro habove
  obtain ⟨⟨entry, z, hok, hz, hall⟩, -⟩ := habove
  have hone := append_ok hok
  rw [hz] at hone
  have hz1 : z = 1 := Option.some.inj hone
  -- the last entry is left, and its sequence is at least one
  have hlast : n - 1 < s.auditLog.length := by
    rw [h.length]
    omega
  have hmem : s.auditLog[n - 1] ∈ s.auditLog.drop j :=
    List.mem_drop_iff_getElem.mpr ⟨n - 1 - j, by omega, by congr 1; omega⟩
  have hy := h.numbered.getElem (n - 1) hlast
  have hlt := hall _ (List.mem_append_left _ hmem) _ hy
  omega

theorem Sequenced.deleted_all (h : Sequenced s n) (a : InitArgs) {j : Nat} (hn : n ≤ j) :
    Sequenced ((initializeChain rt a).run (deleteOldest j s)).1 1 := by
  apply sequenced_initialize_nil
  show s.auditLog.drop j = []
  rw [List.drop_eq_nil_iff, h.length]
  exact hn

end Retention

/-- After a deletion of the oldest entries and a restart, every append succeeds
above all that is stored exactly when nothing was deleted or everything was. -/
theorem retention_appends_iff (rt : Runtime) (calls : List Call) (j : Nat) (a : InitArgs) :
    (∀ bs, AppendsAbove rt bs
      ((initializeChain rt a).run (deleteOldest j (runCalls rt calls Store.empty))).1) ↔
      j = 0 ∨ (runCalls rt calls Store.empty).auditLog.length ≤ j := by
  obtain ⟨n, h⟩ := sequenced_run rt calls sequenced_empty
  rw [h.length]
  constructor
  · intro hall
    by_contra hne
    exact h.not_appendsAbove a (by omega) (by omega) sampleAppend (hall [sampleAppend])
  · intro hj bs
    have hrest : ∃ n', Sequenced
        ((initializeChain rt a).run (deleteOldest j (runCalls rt calls Store.empty))).1 n' := by
      rcases hj with rfl | hn
      · exact sequenced_run rt [.init a] h
      · exact ⟨1, h.deleted_all a hn⟩
    obtain ⟨n', hn'⟩ := hrest
    exact hn'.appendsAbove bs

/-- Without its genesis entry a chain that is initialised again collides with
itself. -/
theorem retention_collides :
    ¬∀ (rt : Runtime) (calls : List Call) (j : Nat) (a : InitArgs) (bs : List AppendArgs),
      AppendsAbove rt bs
        ((initializeChain rt a).run (deleteOldest j (runCalls rt calls Store.empty))).1 := by
  intro hclaim
  have h0 : Sequenced _ 1 :=
    sequenced_initialize_nil .tagged { clock := sampleClock } sequenced_empty.nil
  have h1 := h0.append .tagged sampleAppend
  exact h1.not_appendsAbove { clock := sampleClock } Nat.one_pos (by omega) sampleAppend
    (hclaim .tagged [.init { clock := sampleClock }, .append sampleAppend] 1
      { clock := sampleClock } [sampleAppend])

/-! ## Sizes

Every initialisation saves the epoch size it is given, also over the one of a
chain that is there, and every append divides by the size it finds.
-/

def Contiguous (log : List Doc) : Prop :=
  ∀ a ∈ log, ∀ b ∈ log, ∀ e x y z, a.epoch = some e → b.epoch = some e →
    a.sequence = some x → b.sequence = some z → x ≤ y → y ≤ z →
    ∃ c ∈ log, c.sequence = some y ∧ c.epoch = some e

def NonDecreasing (log : List Doc) : Prop :=
  ∀ a ∈ log, ∀ b ∈ log, ∀ x y, a.sequence = some x → b.sequence = some y → x ≤ y →
    ∃ e f, a.epoch = some e ∧ b.epoch = some f ∧ e ≤ f

structure EpochsHold (rt : Runtime) (s : Store) : Prop where
  contiguous : Contiguous s.auditLog
  nonDecreasing : NonDecreasing s.auditLog
  verify : Accepted (verifyChain rt s none) →
    ∀ d ∈ s.auditLog, ∀ e, d.epoch = some e → Accepted (verifyChain rt s (some e))

def Call.Unmodified (rt : Runtime) (c : Call) (s : Store) : Prop :=
  match c with
  | .init a =>
    (∃ d ∈ s.auditLog, d.sequence = some 0) →
      ((initializeChain rt a).run s).1.epochSize = s.epochSize
  | .append _ => True

/-- Throughout a run initialisations modify nothing and the epochs hold. -/
def EpochsStay (rt : Runtime) : List Call → Store → Prop
  | [], s => EpochsHold rt s
  | c :: calls, s => EpochsHold rt s ∧ c.Unmodified rt s ∧ EpochsStay rt calls (c.run rt s)

def Call.KeepsSize (c : Call) (s : Store) : Prop :=
  match c with
  | .init a => (∃ d ∈ s.auditLog, d.sequence = some 0) → s.epochSize = some a.epochSize
  | .append _ => True

def SizesKept (rt : Runtime) : List Call → Store → Prop
  | [], _ => True
  | c :: calls, s => c.KeepsSize s ∧ SizesKept rt calls (c.run rt s)

section Sizes

variable {rt : Runtime} {s : Store} {n : Nat}
variable {calls : List Call}

theorem InEpochs.contiguous (h : Sequenced s n) {k : { k : Nat // 0 < k }}
    (hin : InEpochs k s.auditLog) : Contiguous s.auditLog := by
  intro a ha b hb e x y z hae hbe hx hz hxy hyz
  have hk := k.property
  have hxlo := (h.below ha hx).1
  have hzhi := (h.below hb hz).2
  obtain ⟨c, hc, hy⟩ := h.exists_sequence (by omega : 0 ≤ y) (by omega : y < n)
  have hex : x / k.val = e := Option.some.inj ((hin a ha x hx).symm.trans hae)
  have hez : z / k.val = e := Option.some.inj ((hin b hb z hz).symm.trans hbe)
  have h1 : x / k.val ≤ y / k.val := Int.ediv_le_ediv (by omega) hxy
  have h2 : y / k.val ≤ z / k.val := Int.ediv_le_ediv (by omega) hyz
  refine ⟨c, hc, hy, ?_⟩
  rw [hin c hc y hy]
  congr 1
  omega

theorem InEpochs.nonDecreasing {k : { k : Nat // 0 < k }} {log : List Doc} (hin : InEpochs k log) :
    NonDecreasing log := by
  intro a ha b hb x y hx hy hxy
  have hk := k.property
  exact ⟨_, _, hin a ha x hx, hin b hb y hy, Int.ediv_le_ediv (by omega) hxy⟩

theorem InEpochs.epochsHold (h : Sequenced s n) (hin : InEpochs (getEpochSize s) s.auditLog) :
    EpochsHold rt s := by
  refine ⟨hin.contiguous h, hin.nonDecreasing, ?_⟩
  intro hacc d hd e he
  cases n with
  | zero =>
    rw [h.nil] at hd
    exact absurd hd List.not_mem_nil
  | succ n =>
    have hlink := ((verifyChain_accepted_iff h.isLast).mp hacc).linked
    rw [h.stream_eq] at hlink
    exact h.epoch_accepted hin hlink hd he

theorem Call.KeepsSize.step {c : Call} (hc : c.KeepsSize s) (h : Sequenced s n)
    (hin : InEpochs (getEpochSize s) s.auditLog) (rt : Runtime) :
    ∃ n', Sequenced (c.run rt s) n' ∧
      InEpochs (getEpochSize (c.run rt s)) (c.run rt s).auditLog := by
  cases c with
  | append a =>
    refine ⟨n + 1, h.append rt a, ?_⟩
    show InEpochs (getEpochSize ((appendChainedEntry rt healthy a).run s).1) _
    rw [Call.run, append_healthy a h.sequence_free]
    exact hin.push_nextEntry rt a
  | init a =>
    cases n with
    | zero =>
      refine ⟨1, sequenced_initialize_nil rt a h.nil, ?_⟩
      rw [Call.run, initialize_nil a h.nil]
      intro d hd z hz
      rw [List.mem_singleton.mp hd] at hz ⊢
      rw [genesisDoc_sequence] at hz
      rw [genesisDoc_epoch, ← Option.some.inj hz, Int.zero_ediv]
    | succ n =>
      refine ⟨n + 1, h.init rt a, ?_⟩
      have hsize : s.epochSize = some a.epochSize := hc h.genesis
      rw [Call.run, initialize_existing a h.genesis h.isLast, ← hsize]
      exact hin

theorem Call.unmodified_iff (h : Sequenced s n) (c : Call) :
    c.Unmodified rt s ↔ c.KeepsSize s := by
  cases c with
  | append a => exact Iff.rfl
  | init a =>
    cases n with
    | zero =>
      have hnone : ¬∃ d ∈ s.auditLog, d.sequence = some 0 := by
        intro hg
        obtain ⟨d, hd, -⟩ := hg
        rw [h.nil] at hd
        exact List.not_mem_nil hd
      exact ⟨fun _ hg => absurd hg hnone, fun _ hg => absurd hg hnone⟩
    | succ n =>
      rw [Call.Unmodified, initialize_existing a h.genesis h.isLast]
      exact ⟨fun hu hg => (hu hg).symm, fun hk hg => (hk hg).symm⟩

theorem SizesKept.epochsStay (hk : SizesKept rt calls s) (h : Sequenced s n)
    (hin : InEpochs (getEpochSize s) s.auditLog) : EpochsStay rt calls s := by
  induction calls generalizing s n with
  | nil => exact hin.epochsHold h
  | cons c calls ih =>
    obtain ⟨hc, hrest⟩ := hk
    obtain ⟨n', h', hin'⟩ := hc.step h hin rt
    exact ⟨hin.epochsHold h, (c.unmodified_iff h).mpr hc, ih hrest h' hin'⟩

theorem EpochsStay.last (hk : EpochsStay rt calls s) :
    EpochsHold rt (runCalls rt calls s) := by
  induction calls generalizing s with
  | nil => exact hk
  | cons c calls ih => exact ih hk.2.2

theorem EpochsStay.sizesKept (hk : EpochsStay rt calls s)
    (h : Sequenced s n) : SizesKept rt calls s := by
  induction calls generalizing s n with
  | nil => trivial
  | cons c calls ih =>
    obtain ⟨-, hc, hrest⟩ := hk
    obtain ⟨n', h'⟩ := sequenced_run rt [c] h
    exact ⟨(c.unmodified_iff h).mp hc, ih hrest h'⟩

end Sizes

/-- The configuration and the epochs hold throughout a run exactly when every
initialisation of a chain that is there passes the size that is stored. -/
theorem epochs_stay_iff (rt : Runtime) (calls : List Call) :
    EpochsStay rt calls Store.empty ↔ SizesKept rt calls Store.empty := by
  have hnil : InEpochs (getEpochSize Store.empty) Store.empty.auditLog :=
    List.forall_mem_nil _
  exact ⟨fun h => h.sizesKept sequenced_empty, fun h => h.epochsStay sequenced_empty hnil⟩

/-- Two appends to a chain of epochs of two, and a third after a restart with
the default size. -/
def resizedCalls : List Call :=
  [.init sampleInit, .append sampleAppend, .append sampleAppend,
    .init { clock := sampleClock }, .append sampleAppend]

theorem resized_epochs :
    (runCalls .tagged resizedCalls Store.empty).auditLog.map (fun d => (d.sequence, d.epoch)) =
      [(some 0, some 0), (some 1, some 0), (some 2, some 1), (some 3, some 0)] := by
  rfl

/-- A restart with another size than the chain's makes the epochs fall. -/
theorem resized_chain_falls :
    ¬∀ (rt : Runtime) (calls : List Call), (∀ a, Call.init a ∈ calls → 1 ≤ a.epochSize) →
      EpochsStay rt calls Store.empty := by
  intro hclaim
  have hsizes : ∀ a, Call.init a ∈ resizedCalls → 1 ≤ a.epochSize := by
    intro a ha
    simp only [resizedCalls, List.mem_cons, Call.init.injEq, reduceCtorEq, List.not_mem_nil,
      or_false, false_or] at ha
    rcases ha with rfl | rfl
    · show 1 ≤ 2
      omega
    · show 1 ≤ defaultEpochSize
      exact Nat.le_add_left 1 999
  have hlast := (hclaim .tagged resizedCalls hsizes).last.nonDecreasing
  generalize hlog : (runCalls .tagged resizedCalls Store.empty).auditLog = log at hlast
  have hmap := resized_epochs
  rw [hlog] at hmap
  have hmem : ∀ p ∈ log.map (fun d => (d.sequence, d.epoch)), ∃ d ∈ log, d.sequence = p.1 ∧
      d.epoch = p.2 := by
    intro p hp
    obtain ⟨d, hd, rfl⟩ := List.mem_map.mp hp
    exact ⟨d, hd, rfl, rfl⟩
  rw [hmap] at hmem
  obtain ⟨a, ha, hx, hae⟩ := hmem (some 2, some 1) (by simp)
  obtain ⟨b, hb, hy, hbe⟩ := hmem (some 3, some 0) (by simp)
  obtain ⟨e, f, he, hf, hle⟩ := hlast a ha b hb 2 3 hx hy (by omega)
  have h1 : e = 1 := Option.some.inj (he.symm.trans hae)
  have h0 : f = 0 := Option.some.inj (hf.symm.trans hbe)
  omega

end Sentora.Audit
