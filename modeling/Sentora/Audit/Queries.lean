import Sentora.Audit.Repository
import Sentora.Lib.HashLink

/-!
# Chain verification

`audit/chain/queries.py`: the batched check of the whole chain, the check of one
epoch, and what the loop over one batch accepts.

A batch is accepted exactly when its entries are numbered from the expected
start and linked from the expected hash.  The whole chain is accepted exactly
when the entries from sequence 0 on are linked and every batch is numbered from
its own start, which is less than being numbered throughout.
-/

namespace Sentora.Audit

open Lib

inductive ChainStatus where
  | valid
  | broken
  | gapDetected
deriving DecidableEq

inductive BrokenReason where
  | hashMismatch
  | sequenceGap
deriving DecidableEq

structure VerificationResult where
  status : ChainStatus
  verifiedEntries : Nat
  firstSequence : Int
  lastSequence : Int
  epochsVerified : Int
  brokenAtSequence : Option Int := none
  brokenReason : Option BrokenReason := none

/-- What `_verify_batch` returns for a batch it rejects. -/
structure BatchFailure where
  status : ChainStatus
  brokenSequence : Int
  entriesChecked : Nat
  reason : BrokenReason

/-- The comparison of the stored hash with the recomputed one, which both
verifiers make. -/
def hashMatches (rt : Runtime) (entry : Doc) : Except ChainError Bool :=
  (computeEntryHash rt entry (get entry.previousHash)).map
    fun recomputed => get entry.hash == .str recomputed

/-- The loop of `_verify_batch` from entry `i` on. -/
def verifyBatchFrom (rt : Runtime) (expectedStart : Int) (skipFirstPrevCheck : Bool) :
    Nat → Val → List Doc → Except ChainError (Option BatchFailure)
  | _, _, [] => .ok none
  | i, prevHash, entry :: entries =>
    let expectedSeq := expectedStart + i
    if entry.sequence ≠ some expectedSeq then
      .ok (some ⟨.gapDetected, expectedSeq, i, .sequenceGap⟩)
    else
      let entryPrevHash := get entry.previousHash
      if (!skipFirstPrevCheck || decide (0 < i)) && !(entryPrevHash == prevHash) then
        .ok (some ⟨.broken, expectedSeq, i, .hashMismatch⟩)
      else
        match hashMatches rt entry with
        | .error e => .error e
        | .ok false => .ok (some ⟨.broken, expectedSeq, i, .hashMismatch⟩)
        | .ok true =>
          verifyBatchFrom rt expectedStart skipFirstPrevCheck (i + 1) (get entry.hash) entries

def verifyBatch (rt : Runtime) (entries : List Doc) (expectedStart : Int)
    (expectedPrevHash : Val) (skipFirstPrevCheck : Bool) :
    Except ChainError (Option BatchFailure) :=
  verifyBatchFrom rt expectedStart skipFirstPrevCheck 0 expectedPrevHash entries

def batchEnd (k : { k : Nat // 0 < k }) (maxSequence batchStart : Int) : Int :=
  min (batchStart + k.val - 1) maxSequence

/-- `previous_hash` after a batch.  An empty batch leaves it. -/
def hashAfter (entries : List Doc) (previousHash : Val) : Val :=
  match entries.getLast? with
  | none => previousHash
  | some last => get last.hash

def epochsAfter (entries : List Doc) (lastBatch : Bool) (epochsVerified : Int) : Int :=
  match entries.getLast? with
  | none => epochsVerified
  | some last =>
    if (get last.isEpochEnd).truthy || lastBatch then last.epoch.getD 0 + 1 else epochsVerified

/-- The loop of `_verify_full_chain`. -/
def verifyBatches (rt : Runtime) (log : List Doc) (epochSize : { k : Nat // 0 < k })
    (maxSequence batchStart : Int) (totalVerified : Nat) (epochsVerified : Int)
    (previousHash : Val) : Except ChainError VerificationResult :=
  if batchStart ≤ maxSequence then
    let stop := batchEnd epochSize maxSequence batchStart
    let entries := streamEntriesInRange log batchStart stop
    match verifyBatch rt entries batchStart previousHash false with
    | .error e => .error e
    | .ok (some failure) => .ok {
        status := failure.status
        verifiedEntries := totalVerified + failure.entriesChecked
        firstSequence := 0
        lastSequence := failure.brokenSequence
        epochsVerified := epochsVerified
        brokenAtSequence := some failure.brokenSequence
        brokenReason := some failure.reason }
    | .ok none =>
      verifyBatches rt log epochSize maxSequence (stop + 1) (totalVerified + entries.length)
        (epochsAfter entries (stop == maxSequence) epochsVerified) (hashAfter entries previousHash)
  else .ok {
    status := .valid
    verifiedEntries := totalVerified
    firstSequence := 0
    lastSequence := maxSequence
    epochsVerified := epochsVerified }
termination_by (maxSequence + 1 - batchStart).toNat
decreasing_by
  have := epochSize.property
  simp only [batchEnd]
  omega

def verifyFullChain (rt : Runtime) (s : Store) : Except ChainError VerificationResult :=
  match getLatestChainedEntry s.auditLog with
  | none => .ok ⟨.valid, 0, 0, 0, 0, none, none⟩
  | some latest => verifyBatches rt s.auditLog (getEpochSize s) (seqKey latest) 0 0 0 .none

def verifySingleEpoch (rt : Runtime) (s : Store) (epoch : Int) :
    Except ChainError VerificationResult :=
  match streamEntriesForEpoch s.auditLog epoch with
  | [] => .error (.epochNotFound epoch)
  | first :: rest =>
    let entries := first :: rest
    let firstSeq := seqKey first
    let lastSeq := seqKey (entries.getLast (List.cons_ne_nil first rest))
    match verifyBatch rt entries firstSeq (get first.previousHash) true with
    | .error e => .error e
    | .ok (some failure) => .ok {
        status := failure.status
        verifiedEntries := failure.entriesChecked
        firstSequence := firstSeq
        lastSequence := failure.brokenSequence
        epochsVerified := 0
        brokenAtSequence := some failure.brokenSequence
        brokenReason := some failure.reason }
    | .ok none => .ok {
        status := .valid
        verifiedEntries := entries.length
        firstSequence := firstSeq
        lastSequence := lastSeq
        epochsVerified := 1 }

def verifyChain (rt : Runtime) (s : Store) (epoch : Option Int) :
    Except ChainError VerificationResult :=
  match findSequence s.auditLog 0 with
  | none => .error .notInitialized
  | some _ =>
    match epoch with
    | some e => verifySingleEpoch rt s e
    | none => verifyFullChain rt s

/-- The verification returns, and returns `VALID`. -/
def Accepted (r : Except ChainError VerificationResult) : Prop :=
  ∃ v, r = .ok v ∧ v.status = .valid

theorem not_accepted_error {e : ChainError} : ¬Accepted (.error e) := by
  rintro ⟨v, hv, -⟩
  cases hv

def prevOf (d : Doc) : Val := get d.previousHash

def hashOf (d : Doc) : Val := get d.hash

def EntryOk (rt : Runtime) (d : Doc) : Prop :=
  ∃ h, computeEntryHash rt d (prevOf d) = .ok h ∧ hashOf d = .str h

def DocLinked (rt : Runtime) (p : Val) (entries : List Doc) : Prop :=
  Linked prevOf hashOf (EntryOk rt) p entries

/-- The references the verifier compares with: `None` or a string. -/
def HashRef (v : Val) : Prop := v = .none ∨ ∃ s, v = .str s

theorem beq_hashRef {v p : Val} (hp : HashRef p) : (v == p) = true ↔ v = p := by
  rcases hp with rfl | ⟨s, rfl⟩
  · exact Val.beq_none v
  · exact Val.beq_str v s

theorem EntryOk.hashRef {rt : Runtime} {d : Doc} (h : EntryOk rt d) : HashRef (hashOf d) := by
  obtain ⟨text, -, ht⟩ := h
  exact Or.inr ⟨text, ht⟩

theorem hashMatches_iff {rt : Runtime} {d : Doc} :
    hashMatches rt d = .ok true ↔ EntryOk rt d := by
  rw [hashMatches, EntryOk, prevOf, hashOf]
  cases computeEntryHash rt d (get d.previousHash) with
  | error e => simp [Except.map]
  | ok h => simp [Except.map]

theorem verifyBatchFrom_cons {rt : Runtime} {start : Int} {skip : Bool} {i : Nat} {p : Val}
    {d : Doc} {ds : List Doc} (hcheck : (!skip || decide (0 < i)) = true) (hp : HashRef p) :
    verifyBatchFrom rt start skip i p (d :: ds) = .ok none ↔
      d.sequence = some (start + i) ∧ prevOf d = p ∧ EntryOk rt d ∧
        verifyBatchFrom rt start skip (i + 1) (hashOf d) ds = .ok none := by
  rw [verifyBatchFrom]
  by_cases hseq : d.sequence = some (start + i)
  · cases hb : get d.previousHash == p with
    | true =>
      have hprev : prevOf d = p := (beq_hashRef hp).mp hb
      simp only [hseq, hb, ne_eq, not_true_eq_false, if_false, Bool.not_true, Bool.and_false,
        Bool.false_eq_true, hprev, true_and, ← hashMatches_iff]
      cases hashMatches rt d with
      | error e => simp
      | ok b => cases b <;> simp [hashOf]
    | false =>
      have hprev : prevOf d ≠ p := by
        intro h
        have ht := (beq_hashRef hp).mpr h
        rw [prevOf, hb] at ht
        exact Bool.false_ne_true ht
      simp [hseq, hprev, hcheck, hb]
  · simp [hseq]

theorem verifyBatchFrom_status {rt : Runtime} {start : Int} {skip : Bool} {i : Nat} {p : Val}
    {ds : List Doc} {failure : BatchFailure}
    (h : verifyBatchFrom rt start skip i p ds = .ok (some failure)) : failure.status ≠ .valid := by
  induction ds generalizing i p with
  | nil => cases h
  | cons d ds ih =>
    rw [verifyBatchFrom] at h
    dsimp only at h
    split at h
    · cases h
      exact ChainStatus.noConfusion
    · split at h
      · cases h
        exact ChainStatus.noConfusion
      · split at h
        · cases h
        · cases h
          exact ChainStatus.noConfusion
        · exact ih h

theorem verifyBatchFrom_iff {rt : Runtime} {start : Int} {skip : Bool} {i : Nat} {p : Val}
    {ds : List Doc} (hcheck : (!skip || decide (0 < i)) = true) (hp : HashRef p) :
    verifyBatchFrom rt start skip i p ds = .ok none ↔
      Numbered Doc.sequence (start + i) ds ∧ DocLinked rt p ds := by
  induction ds generalizing i p with
  | nil => simp [verifyBatchFrom, Numbered, DocLinked, Linked]
  | cons d ds ih =>
    rw [verifyBatchFrom_cons hcheck hp]
    have hstart : start + ((i + 1 : Nat) : Int) = start + i + 1 := by omega
    constructor
    · rintro ⟨hseq, hprev, hok, hrest⟩
      have hrec := (ih (by simp) hok.hashRef).mp hrest
      rw [hstart] at hrec
      exact ⟨⟨hseq, hrec.1⟩, hprev, hok, hrec.2⟩
    · rintro ⟨⟨hseq, hnum⟩, hprev, hok, hlink⟩
      refine ⟨hseq, hprev, hok, (ih (by simp) hok.hashRef).mpr ⟨?_, hlink⟩⟩
      rw [hstart]
      exact hnum

theorem verifyBatch_iff {rt : Runtime} {entries : List Doc} {start : Int} {p : Val}
    (hp : HashRef p) :
    verifyBatch rt entries start p false = .ok none ↔
      Numbered Doc.sequence start entries ∧ DocLinked rt p entries := by
  have h : verifyBatchFrom rt start false 0 p entries = .ok none ↔
      Numbered Doc.sequence (start + (0 : Nat)) entries ∧ DocLinked rt p entries :=
    verifyBatchFrom_iff (by simp) hp
  simpa [verifyBatch] using h

/-- The check of one epoch trusts the reference its first entry holds. -/
theorem verifyBatch_skip_iff {rt : Runtime} {d : Doc} {ds : List Doc} {start : Int} (p : Val) :
    verifyBatch rt (d :: ds) start p true = .ok none ↔
      Numbered Doc.sequence start (d :: ds) ∧ DocLinked rt (prevOf d) (d :: ds) := by
  rw [verifyBatch, verifyBatchFrom]
  have hzero : start + ((0 : Nat) : Int) = start := by omega
  have hone : start + ((0 + 1 : Nat) : Int) = start + 1 := by omega
  by_cases hseq : d.sequence = some start
  · simp only [hseq, hzero, ne_eq, not_true_eq_false, if_false, Bool.not_true, Nat.lt_irrefl,
      decide_false, Bool.or_self, Bool.false_and, Bool.false_eq_true]
    simp only [Numbered, DocLinked, Linked, hseq, true_and]
    by_cases hok : EntryOk rt d
    · have hrest : verifyBatchFrom rt start true (0 + 1) (hashOf d) ds = .ok none ↔
          Numbered Doc.sequence (start + (0 + 1 : Nat)) ds ∧ DocLinked rt (hashOf d) ds :=
        verifyBatchFrom_iff (by simp) hok.hashRef
      rw [hone] at hrest
      rw [hashMatches_iff.mpr hok]
      simp only [hok, true_and]
      exact hrest
    · have hm : hashMatches rt d ≠ .ok true := fun h => hok (hashMatches_iff.mp h)
      cases h : hashMatches rt d with
      | error e => simp [hok]
      | ok b => cases b <;> simp_all
  · simp [hseq, Numbered]

def ForallBatches (k : { k : Nat // 0 < k }) (maxSequence start : Int) (P : Int → Prop) : Prop :=
  ∀ j : Nat, start + j * k.val ≤ maxSequence → P (start + j * k.val)

def BatchesNumbered (log : List Doc) (k : { k : Nat // 0 < k }) (maxSequence start : Int) : Prop :=
  ForallBatches k maxSequence start fun b =>
    Numbered Doc.sequence b (streamEntriesInRange log b (batchEnd k maxSequence b))

theorem hashAfter_eq (entries : List Doc) (p : Val) :
    hashAfter entries p = lastHash hashOf p entries := by
  by_cases h : entries = []
  · rw [h]
    rfl
  · rw [hashAfter, List.getLast?_eq_some_getLast h, lastHash_of_ne_nil hashOf h]
    rfl

theorem batchEnd_bounds (k : { k : Nat // 0 < k }) {maxSequence start : Int}
    (h : start ≤ maxSequence) :
    start ≤ batchEnd k maxSequence start ∧ batchEnd k maxSequence start ≤ maxSequence := by
  have := k.property
  simp only [batchEnd]
  omega

theorem forallBatches_above {k : { k : Nat // 0 < k }} {maxSequence start : Int} {P : Int → Prop}
    (h : maxSequence < start) : ForallBatches k maxSequence start P := by
  intro j hj
  have : (0 : Int) ≤ j * k.val := Int.mul_nonneg (by omega) (by omega)
  omega

theorem forallBatches_cons {k : { k : Nat // 0 < k }} {maxSequence start : Int} {P : Int → Prop}
    (h : start ≤ maxSequence) :
    ForallBatches k maxSequence start P ↔
      P start ∧ ForallBatches k maxSequence (start + k.val) P := by
  have hzero : start + ((0 : Nat) : Int) * k.val = start := by simp
  have hnext : ∀ j : Nat, start + ((j + 1 : Nat) : Int) * k.val = start + k.val + j * k.val := by
    intro j
    push_cast
    rw [Int.add_mul]
    omega
  constructor
  · intro hb
    constructor
    · have h0 := hb 0
      rw [hzero] at h0
      exact h0 h
    · intro j hj
      rw [← hnext] at hj ⊢
      exact hb (j + 1) hj
  · intro hb j hj
    cases j with
    | zero =>
      rw [hzero]
      exact hb.1
    | succ j =>
      rw [hnext] at hj ⊢
      exact hb.2 j hj

theorem forallBatches_step {k : { k : Nat // 0 < k }} {maxSequence start : Int} {P : Int → Prop}
    (h : start ≤ maxSequence) :
    ForallBatches k maxSequence start P ↔
      P start ∧ ForallBatches k maxSequence (batchEnd k maxSequence start + 1) P := by
  rw [forallBatches_cons h]
  by_cases hlast : start + k.val ≤ maxSequence
  · have hend : batchEnd k maxSequence start + 1 = start + k.val := by
      simp only [batchEnd]
      omega
    rw [hend]
  · have hend : maxSequence < batchEnd k maxSequence start + 1 := by
      simp only [batchEnd]
      omega
    have hnext : maxSequence < start + k.val := by omega
    simp only [forallBatches_above hend, forallBatches_above hnext]

theorem HashRef.lastHash {rt : Runtime} {p : Val} (hp : HashRef p) {entries : List Doc}
    (h : ∀ d ∈ entries, EntryOk rt d) : HashRef (lastHash hashOf p entries) := by
  by_cases hnil : entries = []
  · rw [hnil]
    exact hp
  · rw [lastHash_of_ne_nil hashOf hnil]
    exact (h _ (List.getLast_mem hnil)).hashRef

theorem not_accepted_of_batch {rt : Runtime} {log : List Doc} {k : { k : Nat // 0 < k }}
    {maxSequence start : Int} {total : Nat} {epochs : Int} {p : Val} (h : start ≤ maxSequence)
    (hv : verifyBatch rt (streamEntriesInRange log start (batchEnd k maxSequence start)) start p
      false ≠ .ok none) :
    ¬Accepted (verifyBatches rt log k maxSequence start total epochs p) := by
  rw [verifyBatches, if_pos h]
  simp only
  cases hr : verifyBatch rt (streamEntriesInRange log start (batchEnd k maxSequence start)) start p
      false with
  | error e => exact not_accepted_error
  | ok r =>
    cases r with
    | none => exact absurd hr hv
    | some failure =>
      intro hacc
      obtain ⟨v, hv', hs⟩ := hacc
      cases hv'
      exact verifyBatchFrom_status hr hs

theorem verifyBatches_accepted_iff {rt : Runtime} {log : List Doc} {k : { k : Nat // 0 < k }}
    {maxSequence start : Int} {total : Nat} {epochs : Int} {p : Val} (hp : HashRef p) :
    Accepted (verifyBatches rt log k maxSequence start total epochs p) ↔
      BatchesNumbered log k maxSequence start ∧
        DocLinked rt p (streamEntriesInRange log start maxSequence) := by
  induction hn : (maxSequence + 1 - start).toNat using Nat.strong_induction_on
    generalizing start total epochs p with
  | _ n ih =>
    by_cases h : start ≤ maxSequence
    · obtain ⟨hstart, hend⟩ := batchEnd_bounds k h
      generalize hes : streamEntriesInRange log start (batchEnd k maxSequence start) = es
      have hbatch : verifyBatch rt es start p false = .ok none ↔
          Numbered Doc.sequence start es ∧ DocLinked rt p es := verifyBatch_iff hp
      have hlinked : ∀ fs, DocLinked rt p (es ++ fs) ↔
          DocLinked rt p es ∧ DocLinked rt (lastHash hashOf p es) fs :=
        fun fs => linked_append
      rw [BatchesNumbered, forallBatches_step h,
        streamEntriesInRange_split (by omega : start ≤ batchEnd k maxSequence start + 1) hend, hes,
        hlinked]
      by_cases hv : verifyBatch rt es start p false = .ok none
      · obtain ⟨hnum, hlink⟩ := hbatch.mp hv
        have hlt : (maxSequence + 1 - (batchEnd k maxSequence start + 1)).toNat < n := by omega
        rw [verifyBatches, if_pos h]
        simp only [hes, hv, hashAfter_eq, hnum, hlink, true_and]
        exact ih _ hlt (hp.lastHash hlink.ok_of_mem) rfl
      · constructor
        · intro hacc
          rw [← hes] at hv
          exact absurd hacc (not_accepted_of_batch h hv)
        · intro hall
          exact absurd (hbatch.mpr ⟨hall.1.1, hall.2.1⟩) hv
    · rw [verifyBatches, if_neg h, streamEntriesInRange_empty (by omega)]
      exact ⟨fun _ => ⟨forallBatches_above (by omega), trivial⟩, fun _ => ⟨_, rfl, rfl⟩⟩

theorem verifyBatches_entries {rt : Runtime} {log : List Doc} {k : { k : Nat // 0 < k }}
    {maxSequence start : Int} {total : Nat} {epochs : Int} {p : Val} {v : VerificationResult}
    (h : verifyBatches rt log k maxSequence start total epochs p = .ok v)
    (hs : v.status = .valid) :
    v.verifiedEntries = total + (streamEntriesInRange log start maxSequence).length ∧
      v.lastSequence = maxSequence := by
  induction hn : (maxSequence + 1 - start).toNat using Nat.strong_induction_on
    generalizing start total epochs p with
  | _ n ih =>
    rw [verifyBatches] at h
    by_cases hle : start ≤ maxSequence
    · obtain ⟨hstart, hend⟩ := batchEnd_bounds k hle
      rw [if_pos hle] at h
      simp only at h
      split at h
      · cases h
      · rename_i hr
        cases h
        exact absurd hs (verifyBatchFrom_status hr)
      · have hrec := ih _ (by omega) h rfl
        rw [streamEntriesInRange_split (by omega : start ≤ batchEnd k maxSequence start + 1) hend,
          List.length_append]
        omega
    · rw [if_neg hle] at h
      cases h
      rw [streamEntriesInRange_empty (by omega)]
      exact ⟨rfl, rfl⟩

/-- `m` is the highest sequence stored. -/
def IsLast (log : List Doc) (m : Int) : Prop :=
  (∃ d ∈ log, d.sequence = some m) ∧ ∀ d ∈ log, ∀ z, d.sequence = some z → z ≤ m

theorem latest_of_isLast {log : List Doc} {m : Int} (hm : IsLast log m) :
    ∃ latest, getLatestChainedEntry log = some latest ∧ seqKey latest = m := by
  obtain ⟨⟨d, hd, hdm⟩, hmax⟩ := hm
  cases hl : getLatestChainedEntry log with
  | none =>
    have hnone := latest_eq_none hl d hd
    rw [hdm] at hnone
    cases hnone
  | some latest =>
    obtain ⟨hmem, hseq, hle⟩ := latest_eq_some hl
    have h1 := hle d hd m hdm
    have h2 := hmax latest hmem _ hseq
    exact ⟨latest, rfl, by omega⟩

theorem verifyFullChain_eq {rt : Runtime} {s : Store} {m : Int} (hm : IsLast s.auditLog m) :
    verifyFullChain rt s = verifyBatches rt s.auditLog (getEpochSize s) m 0 0 0 .none := by
  obtain ⟨latest, hl, heq⟩ := latest_of_isLast hm
  rw [verifyFullChain, hl]
  simp only [heq]

/-- What full verification establishes about a log. -/
structure Verified (rt : Runtime) (k : { k : Nat // 0 < k }) (log : List Doc) (m : Int) : Prop where
  last : IsLast log m
  genesis : ∃ d ∈ log, d.sequence = some 0
  batches : BatchesNumbered log k m 0
  linked : DocLinked rt .none (streamEntriesInRange log 0 m)

theorem Verified.nonneg {rt : Runtime} {k : { k : Nat // 0 < k }} {log : List Doc} {m : Int}
    (h : Verified rt k log m) : 0 ≤ m := by
  obtain ⟨g, hg, hg0⟩ := h.genesis
  exact h.last.2 g hg 0 hg0

theorem findSequence_ne_none {log : List Doc} {n : Int} :
    (∃ d ∈ log, d.sequence = some n) ↔ ∃ d, findSequence log n = some d := by
  rw [← Option.ne_none_iff_exists', ne_eq, findSequence_eq_none]
  simp

theorem verifyChain_full {rt : Runtime} {s : Store} (h : ∃ d ∈ s.auditLog, d.sequence = some 0) :
    verifyChain rt s none = verifyFullChain rt s := by
  obtain ⟨g, hg⟩ := findSequence_ne_none.mp h
  rw [verifyChain, hg]

theorem verifyChain_accepted_iff {rt : Runtime} {s : Store} {m : Int} (hm : IsLast s.auditLog m) :
    Accepted (verifyChain rt s none) ↔ Verified rt (getEpochSize s) s.auditLog m := by
  have hiff : Accepted (verifyFullChain rt s) ↔ BatchesNumbered s.auditLog (getEpochSize s) m 0 ∧
      DocLinked rt .none (streamEntriesInRange s.auditLog 0 m) := by
    rw [verifyFullChain_eq hm]
    exact verifyBatches_accepted_iff (Or.inl rfl)
  by_cases hg : ∃ d ∈ s.auditLog, d.sequence = some 0
  · rw [verifyChain_full hg, hiff]
    exact ⟨fun h => ⟨hm, hg, h.1, h.2⟩, fun h => ⟨h.batches, h.linked⟩⟩
  · have hnone : findSequence s.auditLog 0 = none := by
      rw [findSequence_eq_none]
      exact fun d hd h0 => hg ⟨d, hd, h0⟩
    rw [verifyChain, hnone]
    exact ⟨fun h => absurd h not_accepted_error, fun h => absurd h.genesis hg⟩

theorem verifyChain_entries {rt : Runtime} {s : Store} {m : Int} (hm : IsLast s.auditLog m)
    {v : VerificationResult} (h : verifyChain rt s none = .ok v) (hs : v.status = .valid) :
    v.verifiedEntries = (streamEntriesInRange s.auditLog 0 m).length ∧ v.lastSequence = m := by
  have hg := ((verifyChain_accepted_iff hm).mp ⟨v, h, hs⟩).genesis
  rw [verifyChain_full hg, verifyFullChain_eq hm] at h
  have hcount := verifyBatches_entries h hs
  rw [Nat.zero_add] at hcount
  exact hcount

theorem numbered_subrange {log : List Doc} {lo hi a b : Int}
    (h : Numbered Doc.sequence lo (streamEntriesInRange log lo hi)) (ha : lo ≤ a) (hb : b ≤ hi) :
    Numbered Doc.sequence a (streamEntriesInRange log a b) := by
  by_cases hab : b < a
  · rw [streamEntriesInRange_empty hab]
    trivial
  · rw [streamEntriesInRange_split (by omega : lo ≤ a - 1 + 1) (by omega : a - 1 ≤ hi),
      show a - 1 + 1 = a by omega,
      streamEntriesInRange_split (by omega : a ≤ b + 1) hb] at h
    obtain ⟨hfst, hsnd⟩ := numbered_append.mp h
    have hmid := (numbered_append.mp hsnd).1
    generalize hL : (streamEntriesInRange log lo (a - 1)).length = L at hmid
    by_cases hnil : streamEntriesInRange log a b = []
    · rw [hnil]
      trivial
    · -- the first entry of the range has both sequence `lo + L` and one from `a` on
      have hle : lo + L ≤ a := by
        by_contra hgt
        obtain ⟨d, hd, hz⟩ := (hfst.mem_iff (lo + L - 1)).mpr (by omega)
        obtain ⟨-, z, hz', -, hzle⟩ := mem_streamEntriesInRange.mp hd
        rw [hz] at hz'
        cases hz'
        omega
      have hge : a ≤ lo + L := by
        obtain ⟨d, ds, hcons⟩ := List.exists_cons_of_ne_nil hnil
        rw [hcons] at hmid
        have hd : d ∈ streamEntriesInRange log a b := by
          rw [hcons]
          exact List.mem_cons_self
        obtain ⟨-, z, hz, haz, -⟩ := mem_streamEntriesInRange.mp hd
        rw [hmid.1] at hz
        cases hz
        exact haz
      have heq : lo + (L : Int) = a := by omega
      rw [heq] at hmid
      exact hmid

theorem batchesNumbered_of_numbered {log : List Doc} {k : { k : Nat // 0 < k }} {m : Int}
    (h : Numbered Doc.sequence 0 (streamEntriesInRange log 0 m)) : BatchesNumbered log k m 0 := by
  intro j hj
  have hnonneg : (0 : Int) ≤ j * k.val := Int.mul_nonneg (by omega) (by omega)
  exact numbered_subrange h (by omega) (batchEnd_bounds k hj).2

theorem verifySingleEpoch_accepted_iff {rt : Runtime} {s : Store} {epoch : Int} {d : Doc}
    {ds : List Doc} (h : streamEntriesForEpoch s.auditLog epoch = d :: ds) :
    Accepted (verifySingleEpoch rt s epoch) ↔
      Numbered Doc.sequence (seqKey d) (d :: ds) ∧ DocLinked rt (prevOf d) (d :: ds) := by
  rw [verifySingleEpoch, h, ← verifyBatch_skip_iff (get d.previousHash)]
  simp only
  cases hr : verifyBatch rt (d :: ds) (seqKey d) (get d.previousHash) true with
  | error e => exact ⟨fun ha => absurd ha not_accepted_error, fun ha => by cases ha⟩
  | ok r =>
    cases r with
    | none => exact ⟨fun _ => rfl, fun _ => ⟨_, rfl, rfl⟩⟩
    | some failure =>
      refine ⟨?_, fun ha => by cases ha⟩
      rintro ⟨v, hv, hs⟩
      cases hv
      exact absurd hs (verifyBatchFrom_status hr)

theorem segment_accepted {rt : Runtime} {s : Store} {epoch n : Int} {p : Val}
    {as bs cs : List Doc} (hnum : Numbered Doc.sequence n (as ++ bs ++ cs))
    (hlink : DocLinked rt p (as ++ bs ++ cs))
    (hbs : streamEntriesForEpoch s.auditLog epoch = bs) (hne : bs ≠ []) :
    Accepted (verifySingleEpoch rt s epoch) := by
  obtain ⟨d, ds, rfl⟩ := List.exists_cons_of_ne_nil hne
  have hn := (numbered_append.mp (numbered_append.mp hnum).1).2
  have hl := (linked_append.mp (linked_append.mp hlink).1).2
  rw [verifySingleEpoch_accepted_iff hbs, seqKey_of hn.1]
  refine ⟨hn, ?_⟩
  have hp : prevOf d = lastHash hashOf p as := hl.1
  rw [hp]
  exact hl

end Sentora.Audit
