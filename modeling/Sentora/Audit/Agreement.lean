import Sentora.Audit.Verifier

/-!
# The two verifiers beside each other

`verify_epoch` of the command line tool and `_verify_batch` of the server on one list
of entries.  They accept the same lists, but the tool puts the first characters of a
hash into its report, which it can not where the hash is null.
-/

namespace Sentora.Audit

open Lib

/-- `_verify_batch`, called as `_verify_single_epoch` calls it. -/
def serverVerdict (rt : Runtime) (first : Doc) (rest : List Doc) :
    Except ChainError (Option BatchFailure) :=
  verifyBatch rt (first :: rest) (seqKey first) (get first.previousHash) true

/-- A file of well-typed entries, without an export hash. -/
structure WellTyped (data : EpochFile) : Prop where
  sequence : ∀ d ∈ data.entries, d.sequence ≠ none
  previousHash : ∀ d ∈ data.entries, HashRef (get d.previousHash)
  hash : ∀ d ∈ data.entries, HashRef (get d.hash)
  exportHash : data.metadata.lookup "export_hash" = none

structure Agree (rt : Runtime) (data : EpochFile) (first : Doc) (rest : List Doc) : Prop where
  returns : ∃ v, verifyEpoch rt data = .ok v
  valid : ∀ v, verifyEpoch rt data = .ok v →
    (v.valid = true ↔ serverVerdict rt first rest = .ok none)
  gap : ∀ v failure, verifyEpoch rt data = .ok v →
    serverVerdict rt first rest = .ok (some failure) →
    v.brokenReason = some "sequence_gap" → failure.reason = .sequenceGap →
    v.brokenAtSequence = some failure.brokenSequence

def FirstWrong (rt : Runtime) (root : Val) (entries before : List Doc) (d : Doc) : Prop :=
  (∃ after, entries = before ++ d :: after) ∧ DocLinked rt root before ∧
    ¬DocLinked rt root (before ++ [d])

/-- The report on a wrong entry: a wrong hash is shown, and the reference of an entry
with the right hash. -/
def Reportable (rt : Runtime) (d : Doc) : Prop :=
  d.epoch ≠ none ∧ (¬EntryOk rt d → get d.hash ≠ .none) ∧
    (EntryOk rt d → get d.previousHash ≠ .none)

section Spec

variable {rt : Runtime}
variable {ds : List Doc} {d : Doc} {i : Nat}

theorem report_ok {v w : Val} {f : String → String → VerifyResult} (hv : HashRef v)
    (hw : ∃ s, w = .str s) : (∃ r, report rt v w f = .ok r) ↔ v ≠ .none := by
  obtain ⟨s, rfl⟩ := hw
  obtain rfl | ⟨t, rfl⟩ := hv
  · refine ⟨?_, fun h => absurd rfl h⟩
    rintro ⟨r, hr⟩
    cases hr
  · exact ⟨fun _ => (fun h => by cases h), fun _ => ⟨_, rfl⟩⟩

theorem epoch_of_entryOk (h : EntryOk rt d) : d.epoch ≠ none := by
  obtain ⟨text, hc, -⟩ := h
  obtain ⟨sequence, epoch, -, hepoch⟩ := computeEntryHash_ok hc
  rw [hepoch]
  exact Option.some_ne_none epoch

theorem firstWrong_cons {root : Val} {P : Doc → Prop} :
    (∀ before e, FirstWrong rt root (d :: ds) before e → P e) ↔
      (¬(prevOf d = root ∧ EntryOk rt d) → P d) ∧
        (prevOf d = root ∧ EntryOk rt d →
          ∀ before e, FirstWrong rt (hashOf d) ds before e → P e) := by
  constructor
  · intro h
    constructor
    · intro hwrong
      exact h [] d ⟨⟨ds, rfl⟩, trivial, fun hlinked => hwrong ⟨hlinked.1, hlinked.2.1⟩⟩
    · rintro ⟨hprev, hok⟩ before e ⟨⟨after, rfl⟩, hbefore, hwrong⟩
      exact h (d :: before) e ⟨⟨after, rfl⟩, ⟨hprev, hok, hbefore⟩, fun hlinked =>
        hwrong hlinked.2.2⟩
  · rintro ⟨hhead, hrest⟩ before e ⟨⟨after, hsplit⟩, hbefore, hwrong⟩
    cases before with
    | nil =>
      cases hsplit
      exact hhead fun hright => hwrong ⟨hright.1, hright.2, trivial⟩
    | cons b before =>
      cases hsplit
      exact hrest ⟨hbefore.1, hbefore.2.1⟩ before e
        ⟨⟨after, rfl⟩, hbefore.2.2, fun hlinked => hwrong ⟨hbefore.1, hbefore.2.1, hlinked⟩⟩

/-- The root that an entry has to refer to; the first one may refer to any. -/
def rootOf (prior : Option Doc) (d : Doc) : Val := prior.elim (prevOf d) hashOf

theorem checkLink_ok {prior : Option Doc} (hd : HashRef (prevOf d))
    (hprior : ∀ p, prior = some p → EntryOk rt p) :
    (prevOf d = rootOf prior d → checkLink rt i prior d = .ok none) ∧
      (prevOf d ≠ rootOf prior d →
        ((∃ r, checkLink rt i prior d = .ok r) ↔ prevOf d ≠ .none) ∧
          checkLink rt i prior d ≠ .ok none) := by
  cases prior with
  | none => exact ⟨fun _ => rfl, fun hne => absurd rfl hne⟩
  | some p =>
    obtain ⟨text, -, htext⟩ := hprior p rfl
    have hbeq : (get d.previousHash == get p.hash) = true ↔ prevOf d = hashOf p :=
      beq_hashRef (hprior p rfl).hashRef
    constructor
    · intro heq
      simp [checkLink, hbeq.mpr heq]
    · intro hne
      have hfalse : (get d.previousHash == get p.hash) = false := by
        rw [← Bool.not_eq_true, hbeq]
        exact hne
      rw [checkLink, hfalse]
      exact ⟨report_ok hd ⟨text, htext⟩, report_ne_none⟩

theorem checkHashes_ok_cons {prior : Option Doc}
    (hseq : d.sequence ≠ none) (hd : HashRef (prevOf d)) (hhash : HashRef (hashOf d))
    (hprior : ∀ p, prior = some p → EntryOk rt p) :
    (∃ r, checkHashes rt i prior (d :: ds) = .ok r) ↔
      (¬(prevOf d = rootOf prior d ∧ EntryOk rt d) → Reportable rt d) ∧
        (prevOf d = rootOf prior d ∧ EntryOk rt d →
          ∃ r, checkHashes rt (i + 1) (some d) ds = .ok r) := by
  rw [checkHashes]
  cases hc : computeEntryHash rt d (get d.previousHash) with
  | error e =>
    -- the entry has no epoch
    have hepoch : d.epoch = none := by
      by_contra hne
      obtain ⟨n, hn⟩ := Option.ne_none_iff_exists'.mp hseq
      obtain ⟨z, hz⟩ := Option.ne_none_iff_exists'.mp hne
      obtain ⟨h, hh⟩ := computeEntryHash_exists hn hz
      rw [hh] at hc
      cases hc
    have hwrong : ¬EntryOk rt d := fun hok => epoch_of_entryOk hok hepoch
    simp [hwrong, Reportable, hepoch]
  | ok h =>
    have hepoch : d.epoch ≠ none := by
      obtain ⟨n, z, -, hz⟩ := computeEntryHash_ok hc
      rw [hz]
      exact Option.some_ne_none z
    have hok : EntryOk rt d ↔ (get d.hash == .str h) = true := by
      simp [EntryOk, prevOf, hc, hashOf]
    cases hb : get d.hash == .str h with
    | false =>
      have hwrong : ¬EntryOk rt d := by simp [hok, hb]
      have hreport : (∃ r, hashMismatch rt i d h = .ok r) ↔ get d.hash ≠ .none :=
        report_ok hhash ⟨h, rfl⟩
      simp [hb, hreport, hwrong, Reportable, hepoch]
    | true =>
      have hright : EntryOk rt d := hok.mpr hb
      obtain ⟨hlinked, hunlinked⟩ := checkLink_ok (i := i) hd hprior
      by_cases heq : prevOf d = rootOf prior d
      · simp [hb, hlinked heq, heq, hright]
      · obtain ⟨hreport, hsome⟩ := hunlinked heq
        have hprev : Reportable rt d ↔ prevOf d ≠ .none := by
          simp [Reportable, hright, hepoch, prevOf]
        simp only [hb, Bool.not_true, Bool.false_eq_true, if_false, heq, false_and,
          not_false_eq_true,
          forall_const, hprev, ← hreport, false_implies, and_true]
        cases hl : checkLink rt i prior d with
        | error e => simp
        | ok r =>
          cases r with
          | none => exact absurd hl hsome
          | some r => simp

theorem checkHashes_ok_after {p : Doc} (hp : EntryOk rt p)
    (hseq : ∀ d ∈ ds, d.sequence ≠ none) (hprev : ∀ d ∈ ds, HashRef (prevOf d))
    (hhash : ∀ d ∈ ds, HashRef (hashOf d)) :
    (∃ r, checkHashes rt i (some p) ds = .ok r) ↔
      ∀ before d, FirstWrong rt (hashOf p) ds before d → Reportable rt d := by
  induction ds generalizing i p with
  | nil =>
    refine ⟨?_, fun _ => ⟨none, rfl⟩⟩
    rintro - before d ⟨⟨after, hsplit⟩, -⟩
    exact absurd hsplit (by simp)
  | cons d ds ih =>
    rw [firstWrong_cons, checkHashes_ok_cons (hseq d List.mem_cons_self)
      (hprev d List.mem_cons_self) (hhash d List.mem_cons_self) (fun q hq => by cases hq; exact hp)]
    apply and_congr_right
    intro _
    apply forall_congr'
    rintro ⟨-, hok⟩
    exact ih hok (fun e he => hseq e (List.mem_cons_of_mem d he))
      (fun e he => hprev e (List.mem_cons_of_mem d he))
      (fun e he => hhash e (List.mem_cons_of_mem d he))

theorem checkHashes_ok (hseq : ∀ e ∈ d :: ds, e.sequence ≠ none)
    (hprev : ∀ e ∈ d :: ds, HashRef (prevOf e)) (hhash : ∀ e ∈ d :: ds, HashRef (hashOf e)) :
    (∃ r, checkHashes rt 0 none (d :: ds) = .ok r) ↔
      ∀ before e, FirstWrong rt (prevOf d) (d :: ds) before e → Reportable rt e := by
  rw [firstWrong_cons, checkHashes_ok_cons (hseq d List.mem_cons_self)
    (hprev d List.mem_cons_self) (hhash d List.mem_cons_self) (fun q hq => by cases hq)]
  apply and_congr_right
  intro _
  apply forall_congr'
  rintro ⟨-, hok⟩
  exact checkHashes_ok_after hok (fun e he => hseq e (List.mem_cons_of_mem d he))
    (fun e he => hprev e (List.mem_cons_of_mem d he))
    (fun e he => hhash e (List.mem_cons_of_mem d he))

theorem checkSequences_of_gap {start : Int} {skip : Bool} {p : Val}
    {failure : BatchFailure} (h : verifyBatchFrom rt start skip i p ds = .ok (some failure))
    (hgap : failure.reason = .sequenceGap) :
    ∃ r, checkSequences start i ds = some r ∧ r.brokenAtSequence = some failure.brokenSequence := by
  induction ds generalizing i p with
  | nil => cases h
  | cons d ds ih =>
    rw [verifyBatchFrom] at h
    rw [checkSequences]
    dsimp only at h ⊢
    split at h
    · next hseq =>
      cases h
      exact ⟨_, if_pos hseq, rfl⟩
    · next hseq =>
      rw [if_neg hseq]
      split at h
      · cases h
        cases hgap
      · split at h
        · cases h
        · cases h
          cases hgap
        · exact ih h

end Spec

section Verdicts

variable {rt : Runtime} {data : EpochFile} {first : Doc} {rest : List Doc}

theorem WellTyped.noExportHash (h : WellTyped data) : checkExportHash rt data = .ok none := by
  rw [checkExportHash_iff, getKey, h.exportHash]
  exact Or.inl rfl

theorem WellTyped.firstSequence (h : WellTyped data) (he : data.entries = first :: rest) :
    first.sequence = some (seqKey first) := by
  obtain ⟨z, hz⟩ := Option.ne_none_iff_exists'.mp (h.sequence first (by rw [he]; simp))
  rw [seqKey_of hz, hz]

theorem passes_iff_serverVerdict (he : data.entries = first :: rest) (h : WellTyped data) :
    Passes (verifyEpoch rt data) ↔ serverVerdict rt first rest = .ok none := by
  have hnum : checkSequences (seqKey first) 0 (first :: rest) = none ↔
      Numbered Doc.sequence (seqKey first) (first :: rest) := by
    rw [checkSequences_iff]
    simp
  rw [verifyEpoch_steps_iff he (h.firstSequence he), hnum, checkHashes_first, serverVerdict,
    verifyBatch_skip_iff, h.noExportHash]
  simp

theorem verifyEpoch_returns_iff (he : data.entries = first :: rest) (h : WellTyped data) :
    (∃ v, verifyEpoch rt data = .ok v) ↔
      (checkSequences (seqKey first) 0 (first :: rest) = none →
        ∃ r, checkHashes rt 0 none (first :: rest) = .ok r) := by
  rw [verifyEpoch, he]
  simp only [h.firstSequence he]
  cases checkSequences (seqKey first) 0 (first :: rest) with
  | some r => simp
  | none =>
    simp only [forall_const]
    cases checkHashes rt 0 none (first :: rest) with
    | error e => simp
    | ok r =>
      cases r with
      | some r => simp
      | none => simp [h.noExportHash]

/-- The verifiers agree unless the tool has to report on a null hash, or on an entry
that has no epoch. -/
theorem verifiers_agree_iff (rt : Runtime) (data : EpochFile) (first : Doc) (rest : List Doc)
    (he : data.entries = first :: rest) (h : WellTyped data) :
    Agree rt data first rest ↔
      (Numbered Doc.sequence (seqKey first) data.entries →
        ∀ before d, FirstWrong rt (get first.previousHash) data.entries before d →
          Reportable rt d) := by
  have hnum : checkSequences (seqKey first) 0 (first :: rest) = none ↔
      Numbered Doc.sequence (seqKey first) (first :: rest) := by
    rw [checkSequences_iff]
    simp
  have hreturns : (∃ v, verifyEpoch rt data = .ok v) ↔
      (Numbered Doc.sequence (seqKey first) data.entries →
        ∀ before d, FirstWrong rt (get first.previousHash) data.entries before d →
          Reportable rt d) := by
    have hhashes : (∃ r, checkHashes rt 0 none (first :: rest) = .ok r) ↔ _ :=
      checkHashes_ok (he ▸ h.sequence) (he ▸ h.previousHash) (he ▸ h.hash)
    rw [verifyEpoch_returns_iff he h, hhashes, hnum, he]
    rfl
  rw [← hreturns]
  constructor
  · exact fun hagree => hagree.returns
  · intro hok
    constructor
    · exact hok
    · intro v hv
      rw [← passes_iff_serverVerdict he h, hv]
      constructor
      · exact fun hvalid => ⟨v, rfl, hvalid⟩
      · rintro ⟨w, hw, hvalid⟩
        cases hw
        exact hvalid
    · intro v failure hv hfailure _ hgap
      obtain ⟨r, hr, hbroken⟩ := checkSequences_of_gap hfailure hgap
      rw [verifyEpoch, he] at hv
      simp only [h.firstSequence he, hr] at hv
      cases hv
      exact hbroken

end Verdicts

def unhashedFile : EpochFile := ⟨[], [fileEntry 0 0 .none .none]⟩

theorem unhashedFile_wellTyped : WellTyped unhashedFile where
  sequence d hd := by
    rw [List.mem_singleton.mp hd]
    exact Option.some_ne_none 0
  previousHash d hd := by
    rw [List.mem_singleton.mp hd]
    exact Or.inl rfl
  hash d hd := by
    rw [List.mem_singleton.mp hd]
    exact Or.inl rfl
  exportHash := rfl

theorem verifiers_agree_iff_unhashedFile :
    Agree .tagged unhashedFile (fileEntry 0 0 .none .none) [] ↔
      (Numbered Doc.sequence (seqKey (fileEntry 0 0 .none .none)) unhashedFile.entries →
        ∀ before d, FirstWrong .tagged (get (fileEntry 0 0 .none .none).previousHash)
          unhashedFile.entries before d → Reportable .tagged d) :=
  verifiers_agree_iff .tagged unhashedFile _ [] rfl unhashedFile_wellTyped

/-- The tool raises where the server reports a mismatch. -/
theorem unhashed_entry_raises :
    ¬∀ (rt : Runtime) (data : EpochFile) (first : Doc) (rest : List Doc),
      data.entries = first :: rest → WellTyped data → Agree rt data first rest := by
  intro hclaim
  obtain ⟨v, hv⟩ := (hclaim .tagged unhashedFile _ [] rfl unhashedFile_wellTyped).returns
  cases hv

end Sentora.Audit
