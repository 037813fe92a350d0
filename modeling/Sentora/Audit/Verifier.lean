import Sentora.Audit.Chain

/-!
# The air-gapped verifier

`tools/sentora_verify/verifier.py` on the documents `json.load` returns.  A file
is its metadata object and its list of entries.
-/

namespace Sentora.Audit

open Lib

/-- A parsed export file.  A missing list of entries is the empty one. -/
structure EpochFile where
  metadata : List (String × Val)
  entries : List Doc

/-- `metadata.get(key)`. -/
def getKey (metadata : List (String × Val)) (key : String) : Val :=
  (metadata.lookup key).getD .none

structure VerifyResult where
  valid : Bool
  entriesChecked : Nat
  message : String
  brokenAtSequence : Option Int := none
  brokenReason : Option String := none

/-- `f"{v[:16]}"`. -/
def slice16 (rt : Runtime) (v : Val) : Except ChainError String :=
  match v with
  | .str s => .ok (String.ofList (s.toList.take 16))
  | .list xs => .ok (pyStr rt (.list (xs.take 16)))
  | _ => .error .typeError

/-- Step 1 from entry `i` on. -/
def checkSequences (firstSeq : Int) : Nat → List Doc → Option VerifyResult
  | _, [] => none
  | i, entry :: entries =>
    let expectedSeq := firstSeq + i
    if entry.sequence ≠ some expectedSeq then
      let actual := (entry.sequence.map Int.repr).getD "None"
      some {
        valid := false
        entriesChecked := i
        message := "Sequence gap: expected " ++ Int.repr expectedSeq ++ ", found " ++ actual
        brokenAtSequence := some expectedSeq
        brokenReason := some "sequence_gap" }
    else checkSequences firstSeq (i + 1) entries

def report (rt : Runtime) (v w : Val) (failure : String → String → VerifyResult) :
    Except ChainError (Option VerifyResult) := do
  let x ← slice16 rt v
  let y ← slice16 rt w
  .ok (some (failure x y))

def hashMismatch (rt : Runtime) (i : Nat) (entry : Doc) (recomputed : String) :
    Except ChainError (Option VerifyResult) :=
  report rt (get entry.hash) (.str recomputed) fun stored computed => {
    valid := false
    entriesChecked := i
    message := "Hash mismatch at sequence " ++ Int.repr (seqKey entry) ++ ": stored=" ++
      stored ++ "..., computed=" ++ computed ++ "..."
    brokenAtSequence := entry.sequence
    brokenReason := some "hash_mismatch" }

def checkLink (rt : Runtime) (i : Nat) (prior : Option Doc) (entry : Doc) :
    Except ChainError (Option VerifyResult) :=
  match prior with
  | none => .ok none
  | some p =>
    if !(get entry.previousHash == get p.hash) then
      report rt (get entry.previousHash) (get p.hash) fun previous priorHash => {
        valid := false
        entriesChecked := i
        message := "Chain link broken at sequence " ++ Int.repr (seqKey entry) ++
          ": previous_hash=" ++ previous ++ "... does not match prior entry hash=" ++
          priorHash ++ "..."
        brokenAtSequence := entry.sequence
        brokenReason := some "hash_mismatch" }
    else .ok none

/-- Step 2 from entry `i` on, after the entry `prior`. -/
def checkHashes (rt : Runtime) :
    Nat → Option Doc → List Doc → Except ChainError (Option VerifyResult)
  | _, _, [] => .ok none
  | i, prior, entry :: entries =>
    match computeEntryHash rt entry (get entry.previousHash) with
    | .error e => .error e
    | .ok recomputed =>
      if !(get entry.hash == .str recomputed) then hashMismatch rt i entry recomputed
      else
        match checkLink rt i prior entry with
        | .error e => .error e
        | .ok (some r) => .ok (some r)
        | .ok none => checkHashes rt (i + 1) (some entry) entries

def checkExportHash (rt : Runtime) (data : EpochFile) : Except ChainError (Option VerifyResult) :=
  let expected := getKey data.metadata "export_hash"
  if !expected.truthy then .ok none
  else
    let computed := computeExportHash rt data.entries
    if !(expected == .str computed) then
      report rt expected (.str computed) fun stored shown => {
        valid := false
        entriesChecked := data.entries.length
        message := "Export integrity hash mismatch: stored=" ++ stored ++ "..., computed=" ++
          shown ++ "..."
        brokenReason := some "export_hash_mismatch" }
    else .ok none

/-- `metadata.get("epoch", "?")` in a message. -/
def epochText (rt : Runtime) (metadata : List (String × Val)) : String :=
  pyStr rt ((metadata.lookup "epoch").getD (.str "?"))

/-- Step 1 adds to the first sequence, which fails if there is none. -/
def verifyEpoch (rt : Runtime) (data : EpochFile) : Except ChainError VerifyResult :=
  match data.entries with
  | [] => .ok { valid := false, entriesChecked := 0, message := "No entries in export file" }
  | first :: rest =>
    let entries := first :: rest
    match first.sequence with
    | none => .error .typeError
    | some firstSeq =>
      match checkSequences firstSeq 0 entries with
      | some r => .ok r
      | none =>
        match checkHashes rt 0 none entries with
        | .error e => .error e
        | .ok (some r) => .ok r
        | .ok none =>
          match checkExportHash rt data with
          | .error e => .error e
          | .ok (some r) => .ok r
          | .ok none => .ok {
              valid := true
              entriesChecked := entries.length
              message := "All " ++ Nat.repr entries.length ++ " entries verified. Sequences " ++
                Int.repr firstSeq ++ "-" ++
                Int.repr (seqKey (entries.getLast (List.cons_ne_nil first rest))) ++ ", epoch " ++
                epochText rt data.metadata ++ "." }

def verifyCrossEpoch (rt : Runtime) (current previous : EpochFile) :
    Except ChainError VerifyResult :=
  match current.entries, previous.entries.getLast? with
  | [], _ | _, none => .ok {
      valid := false, entriesChecked := 0, message := "One or both epoch files have no entries" }
  | currFirst :: _, some prevLast =>
    let prevFinalHash := get prevLast.hash
    let currPrevEpochHash := get currFirst.previousEpochHash
    if currPrevEpochHash == .none then
      if get currFirst.previousHash == prevFinalHash then .ok {
        valid := true
        entriesChecked := 1
        message := "Cross-epoch chain valid (via previous_hash link)" }
      else .ok {
        valid := false
        entriesChecked := 1
        message := "First entry of current epoch has no previous_epoch_hash"
        brokenReason := some "missing_epoch_link" }
    else if !(currPrevEpochHash == prevFinalHash) then do
      let final ← slice16 rt prevFinalHash
      let shown ← slice16 rt currPrevEpochHash
      .ok {
        valid := false
        entriesChecked := 1
        message := "Cross-epoch chain broken: previous epoch final hash=" ++ final ++
          "..., current epoch previous_epoch_hash=" ++ shown ++ "..."
        brokenReason := some "epoch_link_mismatch" }
    else .ok {
      valid := true
      entriesChecked := 1
      message := "Cross-epoch chain valid. Epoch " ++ epochText rt previous.metadata ++
        " -> Epoch " ++ epochText rt current.metadata }

/-- A check of the verifier returns, and returns a valid result. -/
def Passes (r : Except ChainError VerifyResult) : Prop := ∃ v, r = .ok v ∧ v.valid = true

section Spec

variable {rt : Runtime}
variable {r : VerifyResult} {data : EpochFile} {prior : Option Doc} {entries : List Doc} {i : Nat}
  {d : Doc}

theorem checkSequences_iff {first : Int} :
    checkSequences first i entries = none ↔ Numbered Doc.sequence (first + i) entries := by
  induction entries generalizing i with
  | nil => simp [checkSequences, Numbered]
  | cons d ds ih =>
    have hnext : first + ((i + 1 : Nat) : Int) = first + i + 1 := by omega
    rw [checkSequences]
    by_cases hseq : d.sequence = some (first + i)
    · simp only [hseq, ne_eq, not_true_eq_false, if_false, ih, hnext, Numbered, true_and]
    · simp [hseq, Numbered]

theorem checkSequences_invalid {first : Int}
    (h : checkSequences first i entries = some r) : r.valid = false := by
  induction entries generalizing i with
  | nil => cases h
  | cons d ds ih =>
    rw [checkSequences] at h
    dsimp only at h
    split at h
    · cases h
      rfl
    · exact ih h

theorem report_ne_none {v w : Val} {f : String → String → VerifyResult} :
    report rt v w f ≠ .ok none := by
  rw [report]
  cases slice16 rt v with
  | error e => exact fun h => by cases h
  | ok x =>
    cases slice16 rt w with
    | error e => exact fun h => by cases h
    | ok y => exact fun h => by cases h

theorem report_invalid {v w : Val} {f : String → String → VerifyResult}
    (hf : ∀ x y, (f x y).valid = false) (h : report rt v w f = .ok (some r)) :
    r.valid = false := by
  rw [report] at h
  cases hv : slice16 rt v with
  | error e =>
    rw [hv] at h
    cases h
  | ok x =>
    cases hw : slice16 rt w with
    | error e =>
      rw [hv, hw] at h
      cases h
    | ok y =>
      rw [hv, hw] at h
      cases h
      exact hf x y

theorem checkLink_iff
    (hp : ∀ p, prior = some p → HashRef (hashOf p)) :
    checkLink rt i prior d = .ok none ↔ ∀ p, prior = some p → prevOf d = hashOf p := by
  cases prior with
  | none => simp [checkLink]
  | some p =>
    have href := hp p rfl
    rw [checkLink]
    cases hl : get d.previousHash == get p.hash with
    | false =>
      have hne : prevOf d ≠ hashOf p := by
        intro he
        have ht := (beq_hashRef href).mpr he
        rw [prevOf, hashOf, hl] at ht
        exact Bool.false_ne_true ht
      simp [hne, report_ne_none]
    | true =>
      have he : prevOf d = hashOf p := (beq_hashRef href).mp hl
      simp [he]

/-- One round of step 2. -/
theorem checkHashes_cons {ds : List Doc}
    (hp : ∀ p, prior = some p → HashRef (hashOf p)) :
    checkHashes rt i prior (d :: ds) = .ok none ↔
      EntryOk rt d ∧ (∀ p, prior = some p → prevOf d = hashOf p) ∧
        checkHashes rt (i + 1) (some d) ds = .ok none := by
  have hlink : checkLink rt i prior d = .ok none ↔ ∀ p, prior = some p → prevOf d = hashOf p :=
    checkLink_iff hp
  rw [checkHashes, ← hlink]
  cases hc : computeEntryHash rt d (get d.previousHash) with
  | error e => simp [EntryOk, prevOf, hc]
  | ok h =>
    have hok : EntryOk rt d ↔ (get d.hash == .str h) = true := by
      simp [EntryOk, prevOf, hc, hashOf]
    rw [hok]
    cases hb : get d.hash == .str h with
    | false =>
      have hne : hashMismatch rt i d h ≠ .ok none := report_ne_none
      simp [hb, hne]
    | true =>
      cases checkLink rt i prior d with
      | error e => simp [hb]
      | ok r =>
        cases r with
        | none => simp [hb]
        | some r => simp [hb]

theorem checkHashes_after {p : Doc} (hp : HashRef (hashOf p)) :
    checkHashes rt i (some p) entries = .ok none ↔ DocLinked rt (hashOf p) entries := by
  induction entries generalizing i p with
  | nil => simp [checkHashes, DocLinked, Linked]
  | cons d ds ih =>
    rw [checkHashes_cons (fun q hq => by cases hq; exact hp)]
    constructor
    · rintro ⟨hok, hprev, hrest⟩
      exact ⟨hprev p rfl, hok, (ih hok.hashRef).mp hrest⟩
    · rintro ⟨hprev, hok, hrest⟩
      exact ⟨hok, fun q hq => by cases hq; exact hprev, (ih hok.hashRef).mpr hrest⟩

theorem checkHashes_first {ds : List Doc} :
    checkHashes rt 0 none (d :: ds) = .ok none ↔ DocLinked rt (prevOf d) (d :: ds) := by
  rw [checkHashes_cons (fun q hq => by cases hq)]
  constructor
  · rintro ⟨hok, -, hrest⟩
    exact ⟨rfl, hok, (checkHashes_after hok.hashRef).mp hrest⟩
  · rintro ⟨-, hok, hrest⟩
    exact ⟨hok, fun q hq => (by cases hq), (checkHashes_after hok.hashRef).mpr hrest⟩

theorem checkLink_invalid
    (h : checkLink rt i prior d = .ok (some r)) : r.valid = false := by
  cases prior with
  | none => cases h
  | some p =>
    rw [checkLink] at h
    split at h
    · exact report_invalid (fun _ _ => rfl) h
    · cases h

theorem checkHashes_invalid
    (h : checkHashes rt i prior entries = .ok (some r)) : r.valid = false := by
  induction entries generalizing i prior with
  | nil => cases h
  | cons d ds ih =>
    rw [checkHashes] at h
    split at h
    · cases h
    · split at h
      · exact report_invalid (fun _ _ => rfl) h
      · split at h
        · cases h
        · rename_i hlink
          cases h
          exact checkLink_invalid hlink
        · exact ih h

theorem checkExportHash_invalid
    (h : checkExportHash rt data = .ok (some r)) : r.valid = false := by
  rw [checkExportHash] at h
  dsimp only at h
  split at h
  · cases h
  · split at h
    · exact report_invalid (fun _ _ => rfl) h
    · cases h

theorem checkExportHash_iff :
    checkExportHash rt data = .ok none ↔
      (getKey data.metadata "export_hash").truthy = false ∨
        getKey data.metadata "export_hash" = .str (computeExportHash rt data.entries) := by
  rw [checkExportHash]
  cases ht : (getKey data.metadata "export_hash").truthy with
  | false => simp
  | true =>
    cases hb : getKey data.metadata "export_hash" == .str (computeExportHash rt data.entries) with
    | true =>
      have he := (Val.beq_str _ _).mp hb
      simp [he]
    | false =>
      have hne : getKey data.metadata "export_hash" ≠ .str (computeExportHash rt data.entries) := by
        intro he
        rw [(Val.beq_str _ _).mpr he] at hb
        cases hb
      simp [hb, hne, report_ne_none]

theorem not_passes_invalid (hr : r.valid = false) : ¬Passes (.ok r) := by
  intro h
  obtain ⟨v, hv, hvalid⟩ := h
  cases hv
  rw [hr] at hvalid
  cases hvalid

theorem not_passes_error {e : ChainError} : ¬Passes (.error e) := by
  intro h
  obtain ⟨v, hv, -⟩ := h
  cases hv

theorem verifyEpoch_steps_iff {first : Doc} {rest : List Doc} {z : Int}
    (he : data.entries = first :: rest) (hz : first.sequence = some z) :
    Passes (verifyEpoch rt data) ↔
      checkSequences z 0 (first :: rest) = none ∧
        checkHashes rt 0 none (first :: rest) = .ok none ∧ checkExportHash rt data = .ok none := by
  rw [verifyEpoch, he]
  simp only [hz]
  cases hs : checkSequences z 0 (first :: rest) with
  | some r =>
    simp only [reduceCtorEq, false_and, iff_false]
    exact not_passes_invalid (checkSequences_invalid hs)
  | none =>
    simp only [true_and]
    cases hc : checkHashes rt 0 none (first :: rest) with
    | error e =>
      simp only [reduceCtorEq, false_and, iff_false]
      exact not_passes_error
    | ok r =>
      cases r with
      | some r =>
        simp only [Except.ok.injEq, reduceCtorEq, false_and, iff_false]
        exact not_passes_invalid (checkHashes_invalid hc)
      | none =>
        simp only [true_and]
        cases hx : checkExportHash rt data with
        | error e =>
          simp only [reduceCtorEq, iff_false]
          exact not_passes_error
        | ok r =>
          cases r with
          | some r =>
            simp only [Except.ok.injEq, reduceCtorEq, iff_false]
            exact not_passes_invalid (checkExportHash_invalid hx)
          | none =>
            simp only [iff_true]
            exact ⟨_, rfl, rfl⟩

theorem Passes.first (h : Passes (verifyEpoch rt data)) :
    ∃ first rest z, data.entries = first :: rest ∧ first.sequence = some z := by
  rw [verifyEpoch] at h
  cases he : data.entries with
  | nil =>
    rw [he] at h
    exact absurd h (not_passes_invalid rfl)
  | cons first rest =>
    cases hz : first.sequence with
    | none =>
      rw [he] at h
      simp only [hz] at h
      exact absurd h not_passes_error
    | some z => exact ⟨first, rest, z, rfl, hz⟩

theorem verifyEpoch_passes_iff :
    Passes (verifyEpoch rt data) ↔
      ∃ first rest z, data.entries = first :: rest ∧ first.sequence = some z ∧
        Numbered Doc.sequence z data.entries ∧ DocLinked rt (prevOf first) data.entries ∧
        checkExportHash rt data = .ok none := by
  have hnum : ∀ z entries, checkSequences z 0 entries = none ↔ Numbered Doc.sequence z entries := by
    intro z entries
    have h : checkSequences z 0 entries = none ↔ Numbered Doc.sequence (z + (0 : Nat)) entries :=
      checkSequences_iff
    rw [h]
    simp
  constructor
  · intro h
    obtain ⟨first, rest, z, he, hz⟩ := h.first
    obtain ⟨hs, hc, hx⟩ := (verifyEpoch_steps_iff he hz).mp h
    refine ⟨first, rest, z, he, hz, ?_, ?_, hx⟩
    · rw [he]
      exact (hnum z _).mp hs
    · rw [he]
      exact checkHashes_first.mp hc
  · intro h
    obtain ⟨first, rest, z, he, hz, hn, hl, hx⟩ := h
    rw [he] at hn hl
    exact (verifyEpoch_steps_iff he hz).mpr ⟨(hnum z _).mpr hn, checkHashes_first.mpr hl, hx⟩

end Spec

theorem verifyCrossEpoch_passes {rt : Runtime} {current previous : EpochFile} {first last : Doc}
    {rest : List Doc} (hc : current.entries = first :: rest)
    (hp : previous.entries.getLast? = some last) (hlast : HashRef (hashOf last))
    (h : Passes (verifyCrossEpoch rt current previous)) :
    get first.previousEpochHash = hashOf last ∨
      (get first.previousEpochHash = .none ∧ prevOf first = hashOf last) := by
  obtain ⟨v, hv, hvalid⟩ := h
  rw [verifyCrossEpoch, hc, hp] at hv
  dsimp only at hv
  split at hv
  · rename_i hnone
    split at hv
    · rename_i hlink
      exact Or.inr ⟨(Val.beq_none _).mp hnone, (beq_hashRef hlast).mp hlink⟩
    · cases hv
      cases hvalid
  · split at hv
    · cases hx : slice16 rt (get last.hash) with
      | error e =>
        rw [hx] at hv
        cases hv
      | ok x =>
        cases hy : slice16 rt (get first.previousEpochHash) with
        | error e =>
          rw [hx, hy] at hv
          cases hv
        | ok y =>
          rw [hx, hy] at hv
          cases hv
          cases hvalid
    · rename_i hlink
      rw [Bool.not_eq_true', Bool.not_eq_false] at hlink
      exact Or.inl ((beq_hashRef hlast).mp hlink)

/-- Two files that pass alone and together are each numbered and linked, and the
first entry of the one refers to the last hash of the other.  Only a reference by
`previous_hash` links the two lists. -/
theorem cross_epoch_reference (rt : Runtime) (current previous : EpochFile)
    (hprevious : Passes (verifyEpoch rt previous)) (hcurrent : Passes (verifyEpoch rt current))
    (hcross : Passes (verifyCrossEpoch rt current previous)) :
    ∃ pfirst plast cfirst zp zc, previous.entries.head? = some pfirst ∧
      previous.entries.getLast? = some plast ∧ current.entries.head? = some cfirst ∧
      Numbered Doc.sequence zp previous.entries ∧
      DocLinked rt (get pfirst.previousHash) previous.entries ∧
      Numbered Doc.sequence zc current.entries ∧
      DocLinked rt (get cfirst.previousHash) current.entries ∧
      (get cfirst.previousEpochHash = get plast.hash ∨
        get cfirst.previousEpochHash = .none ∧ get cfirst.previousHash = get plast.hash ∧
          DocLinked rt (get pfirst.previousHash) (previous.entries ++ current.entries)) := by
  obtain ⟨pfirst, prest, zp, hp, -, hpn, hpl, -⟩ := verifyEpoch_passes_iff.mp hprevious
  obtain ⟨cfirst, crest, zc, hc, -, hcn, hcl, -⟩ := verifyEpoch_passes_iff.mp hcurrent
  have hne : previous.entries ≠ [] := by
    rw [hp]
    exact List.cons_ne_nil _ _
  have hlast : previous.entries.getLast? = some (previous.entries.getLast hne) :=
    List.getLast?_eq_some_getLast hne
  have href : HashRef (hashOf (previous.entries.getLast hne)) :=
    (hpl.ok_of_mem _ (List.getLast_mem hne)).hashRef
  refine ⟨pfirst, previous.entries.getLast hne, cfirst, zp, zc, by rw [hp]; rfl, hlast,
    by rw [hc]; rfl, hpn, hpl, hcn, hcl, ?_⟩
  rcases verifyCrossEpoch_passes hc hlast href hcross with hlink | ⟨hnone, hlink⟩
  · exact Or.inl hlink
  · refine Or.inr ⟨hnone, hlink, linked_append.mpr ⟨hpl, ?_⟩⟩
    have hcarried : lastHash hashOf (get pfirst.previousHash) previous.entries =
        prevOf cfirst := by
      rw [lastHash_of_ne_nil hashOf hne, hlink]
    rw [hcarried]
    exact hcl

def fileEntry (sequence epoch : Int) (previousHash previousEpochHash : Val) : Doc :=
  { oid := 0, sequence := some sequence, epoch := some epoch
    timestamp := some (.str "2026-03-04T05:06:07"), domain := none, action := none, actor := none
    status := none, summary := none, details := none, tenantId := none
    previousHash := some previousHash, isEpochStart := none, isEpochEnd := none
    previousEpochHash := some previousEpochHash, hash := none, extra := [] }

def sealedEntry (rt : Runtime) (sequence epoch : Int) (previousHash previousEpochHash : Val) :
    Doc :=
  withHash rt (fileEntry sequence epoch previousHash previousEpochHash) previousHash

def earlierFile (rt : Runtime) : EpochFile := ⟨[], [sealedEntry rt 0 0 .none .none]⟩

/-- Its one entry is at sequence 7 and names the earlier file in
`previous_epoch_hash` only. -/
def forgedFile (rt : Runtime) : EpochFile :=
  ⟨[], [sealedEntry rt 7 1 (.str "forged") (hashOf (sealedEntry rt 0 0 .none .none))]⟩

theorem sealedEntry_sequence (rt : Runtime) (n e : Int) (p peh : Val) :
    (sealedEntry rt n e p peh).sequence = some n := by
  rw [sealedEntry, withHash_sequence]
  rfl

theorem sealedEntry_previousEpochHash (rt : Runtime) (n e : Int) (p peh : Val) :
    get (sealedEntry rt n e p peh).previousEpochHash = peh := by
  rw [sealedEntry, withHash]
  split <;> rfl

theorem sealedEntry_ok (rt : Runtime) (n e : Int) (p peh : Val) :
    EntryOk rt (sealedEntry rt n e p peh) := by
  have hok : EntryOk rt (withHash rt (fileEntry n e p peh) (prevOf (fileEntry n e p peh))) :=
    entryOk_withHash rfl rfl
  exact hok

theorem singleFile_passes (rt : Runtime) (n e : Int) (p peh : Val) :
    Passes (verifyEpoch rt ⟨[], [sealedEntry rt n e p peh]⟩) := by
  rw [verifyEpoch_passes_iff]
  refine ⟨_, [], n, rfl, sealedEntry_sequence rt n e p peh,
    ⟨sealedEntry_sequence rt n e p peh, trivial⟩,
    ⟨rfl, sealedEntry_ok rt n e p peh, trivial⟩, ?_⟩
  exact checkExportHash_iff.mpr (Or.inl rfl)

theorem forgedFile_cross (rt : Runtime) :
    Passes (verifyCrossEpoch rt (forgedFile rt) (earlierFile rt)) := by
  have hpeh := sealedEntry_previousEpochHash rt 7 1 (.str "forged")
    (hashOf (sealedEntry rt 0 0 .none .none))
  obtain ⟨h, -, hh⟩ := sealedEntry_ok rt 0 0 .none .none
  have hnone : (hashOf (sealedEntry rt 0 0 .none .none) == Val.none) = false := by
    rw [hh]
    rfl
  have hself : (hashOf (sealedEntry rt 0 0 .none .none) ==
      get (sealedEntry rt 0 0 .none .none).hash) = true :=
    (beq_hashRef (sealedEntry_ok rt 0 0 .none .none).hashRef).mpr rfl
  rw [verifyCrossEpoch, forgedFile, earlierFile]
  simp only [List.getLast?_singleton, hpeh, hnone, hself, Bool.false_eq_true, if_false,
    Bool.not_true]
  exact ⟨_, rfl, rfl⟩

theorem cross_epoch_reference_forged :
    ∃ pfirst plast cfirst zp zc, (earlierFile .tagged).entries.head? = some pfirst ∧
      (earlierFile .tagged).entries.getLast? = some plast ∧
      (forgedFile .tagged).entries.head? = some cfirst ∧
      Numbered Doc.sequence zp (earlierFile .tagged).entries ∧
      DocLinked .tagged (get pfirst.previousHash) (earlierFile .tagged).entries ∧
      Numbered Doc.sequence zc (forgedFile .tagged).entries ∧
      DocLinked .tagged (get cfirst.previousHash) (forgedFile .tagged).entries ∧
      (get cfirst.previousEpochHash = get plast.hash ∨
        get cfirst.previousEpochHash = .none ∧ get cfirst.previousHash = get plast.hash ∧
          DocLinked .tagged (get pfirst.previousHash)
            ((earlierFile .tagged).entries ++ (forgedFile .tagged).entries)) :=
  cross_epoch_reference .tagged (forgedFile .tagged) (earlierFile .tagged)
    (singleFile_passes .tagged 0 0 .none .none) (singleFile_passes .tagged 7 1 _ _)
    (forgedFile_cross .tagged)

/-- Three passing checks do not make one chain of the two files. -/
theorem cross_epoch_not_chained :
    ¬∀ (rt : Runtime) (current previous : EpochFile), Passes (verifyEpoch rt previous) →
      Passes (verifyEpoch rt current) → Passes (verifyCrossEpoch rt current previous) →
      ∀ cfirst plast z, current.entries.head? = some cfirst →
        previous.entries.getLast? = some plast → plast.sequence = some z →
        get cfirst.previousHash = get plast.hash ∧ cfirst.sequence = some (z + 1) := by
  intro hclaim
  have h := hclaim .tagged (forgedFile .tagged) (earlierFile .tagged)
    (singleFile_passes .tagged 0 0 .none .none) (singleFile_passes .tagged 7 1 _ _)
    (forgedFile_cross .tagged) _ _ 0 rfl rfl (sealedEntry_sequence _ 0 0 _ _)
  have hseq := h.2
  rw [sealedEntry_sequence] at hseq
  cases hseq

end Sentora.Audit
