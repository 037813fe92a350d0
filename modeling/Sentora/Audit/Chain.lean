import Sentora.Audit.Commands
import Sentora.Audit.Queries

namespace Sentora.Audit

open Lib Process

/-- A document sealed over the reference it holds is right. -/
theorem entryOk_withHash {rt : Runtime} {d : Doc} {n e : Int} (hs : d.sequence = some n)
    (he : d.epoch = some e) : EntryOk rt (withHash rt d (prevOf d)) := by
  obtain ⟨h, hh⟩ : ∃ h, computeEntryHash rt d (prevOf d) = .ok h := computeEntryHash_exists hs he
  have hw : withHash rt d (prevOf d) = { d with hash := some (.str h) } := by
    rw [withHash, hh]
  rw [hw]
  exact ⟨h, hh, rfl⟩

def nextSequence (s : Store) : Int := s.sequenceCounter.getD 0

def nextEpoch (s : Store) : Int := nextSequence s / (getEpochSize s).val

/-- The entry an append closes: the last one of the epoch before the one it
opens. -/
def closing (s : Store) : Option Doc :=
  if opensEpoch (nextSequence s) (getEpochSize s) then
    getEpochBoundaryEntry s.auditLog (nextEpoch s - 1) true
  else none

/-- The change an append makes to the entries that are there. -/
def closeMark (s : Store) (d : Doc) : Doc :=
  match closing s with
  | some last => markOid last.oid d
  | none => d

def prepared (s : Store) : Store :=
  { s with
    sequenceCounter := some (nextSequence s + 1)
    auditLog := s.auditLog.map (closeMark s) }

def nextEntry (rt : Runtime) (s : Store) (a : AppendArgs) : Doc :=
  withHash rt
    (chainEntry a (nextSequence s) (nextEpoch s) (getPreviousHash s.auditLog (nextSequence s))
      (opensEpoch (nextSequence s) (getEpochSize s))
      (match closing s with
        | some last => get last.hash
        | none => .none))
    (getPreviousHash s.auditLog (nextSequence s))

theorem untouched_closeMark (s : Store) : Untouched (closeMark s) := by
  unfold closeMark
  cases closing s with
  | none => constructor <;> intros <;> rfl
  | some last => exact untouched_markOid last.oid

/-- An append changes one field of the entries that are there. -/
theorem closeMark_eq (s : Store) (d : Doc) :
    ∃ mark, closeMark s d = { d with isEpochEnd := mark } := by
  unfold closeMark
  cases closing s with
  | none => exact ⟨d.isEpochEnd, rfl⟩
  | some last =>
    by_cases hoid : d.oid = last.oid
    · exact ⟨some (.bool true), if_pos hoid⟩
    · exact ⟨d.isEpochEnd, if_neg hoid⟩

theorem closeMark_oid (s : Store) (d : Doc) : (closeMark s d).oid = d.oid := by
  obtain ⟨mark, h⟩ := closeMark_eq s d
  rw [h]

theorem append_run (rt : Runtime) (outcome : Nat → InsertOutcome) (a : AppendArgs) (s : Store) :
    (appendChainedEntry rt outcome a).run s =
      (insertEntry outcome (nextSequence s) (nextEntry rt s a)).run (prepared s) := by
  have hnext : getNextSequence s =
      ({ s with sequenceCounter := some (nextSequence s + 1) }, nextSequence s) := by
    simp [getNextSequence, nextSequence]
  by_cases hopen : opensEpoch (nextSequence s) (getEpochSize s) = true
  · cases hb : getEpochBoundaryEntry s.auditLog (nextEpoch s - 1) true with
    | none =>
      have hc : closing s = none := by rw [closing, if_pos hopen, hb]
      have hmark : closeMark s = id := by
        funext d
        simp [closeMark, hc]
      have hb' : getEpochBoundaryEntry s.auditLog
          (nextSequence s / ((getEpochSize s).val : Int) - 1) true = none := hb
      simp [appendChainedEntry, closeEpoch, hnext, hopen, hb', prepared, nextEntry, hmark, hc,
        nextEpoch]
    | some last =>
      have hc : closing s = some last := by rw [closing, if_pos hopen, hb]
      have hmark : closeMark s = markOid last.oid := by
        funext d
        simp [closeMark, hc]
      have hb' : getEpochBoundaryEntry s.auditLog
          (nextSequence s / ((getEpochSize s).val : Int) - 1) true = some last := hb
      have hprev := getPreviousHash_map (untouched_markOid last.oid) s.auditLog (nextSequence s)
      simp [appendChainedEntry, closeEpoch, hnext, hopen, hb', prepared, nextEntry, hmark, hc,
        nextEpoch, markEpochEnd, hprev]
  · have hc : closing s = none := by rw [closing, if_neg hopen]
    have hmark : closeMark s = id := by
      funext d
      simp [closeMark, hc]
    simp [appendChainedEntry, hnext, hopen, prepared, nextEntry, hmark, hc, nextEpoch]

theorem nextEntry_sequence (rt : Runtime) (s : Store) (a : AppendArgs) :
    (nextEntry rt s a).sequence = some (nextSequence s) := by
  rw [nextEntry, withHash_sequence]
  rfl

theorem nextEntry_epoch (rt : Runtime) (s : Store) (a : AppendArgs) :
    (nextEntry rt s a).epoch = some (nextEpoch s) := by
  rw [nextEntry, withHash_epoch]
  rfl

theorem insertEntry_run {outcome : Nat → InsertOutcome} {n : Int} {entry : Doc} {s : Store}
    (hn : entry.sequence = some n) (hfree : ∀ d ∈ s.auditLog, d.sequence ≠ some n) :
    (insertEntry outcome n entry).run s =
      match outcome 0, outcome 1 with
      | .applied, _ => (push entry s, .ok entry)
      | .notApplied, .applied => (push entry s, .ok entry)
      | .notApplied, .notApplied => (resetSequenceTo n s, .error (.integrity n))
      | .notApplied, .lostAck => (resetSequenceTo n (push entry s), .error (.integrity n))
      | .lostAck, _ => (resetSequenceTo n (push entry s), .error (.integrity n)) := by
  have hdup : duplicateKey s.auditLog entry = false := (duplicateKey_eq_false hn).mpr hfree
  have hdup' : duplicateKey (push entry s).auditLog entry = true := by
    rw [duplicateKey_eq_true hn, push_auditLog]
    exact ⟨_, List.mem_append_right _ List.mem_cons_self, hn⟩
  cases h0 : outcome 0 with
  | applied => simp [insertEntry, insertOne, hdup, h0]
  | lostAck => simp [insertEntry, insertOne, hdup, hdup', h0]
  | notApplied =>
    cases h1 : outcome 1 with
    | applied => simp [insertEntry, insertOne, hdup, h0, h1]
    | notApplied => simp [insertEntry, insertOne, hdup, h0, h1]
    | lostAck => simp [insertEntry, insertOne, hdup, h0, h1]

theorem insertEntry_ok {outcome : Nat → InsertOutcome} {n : Int} {entry e : Doc} {s : Store}
    (h : ((insertEntry outcome n entry).run s).2 = .ok e) : e = entry := by
  rw [insertEntry] at h
  cases hw : (insertOne (outcome 0) entry s).2 with
  | true =>
    simp only [run_bind, run_atomic, hw, if_true, pure_eq, run_ret] at h
    exact (Except.ok.inj h).symm
  | false =>
    simp only [run_bind, run_atomic, hw, Bool.false_eq_true, if_false] at h
    cases hw' : (insertOne (outcome 1) entry (insertOne (outcome 0) entry s).1).2 with
    | true =>
      simp only [hw', if_true, pure_eq, run_ret] at h
      exact (Except.ok.inj h).symm
    | false =>
      simp only [hw', Bool.false_eq_true, if_false, run_bind, pure_eq, run_ret] at h
      cases h

theorem append_ok {rt : Runtime} {outcome : Nat → InsertOutcome} {a : AppendArgs} {s : Store}
    {entry : Doc} (h : ((appendChainedEntry rt outcome a).run s).2 = .ok entry) :
    entry.sequence = some (nextSequence s) := by
  rw [append_run] at h
  rw [insertEntry_ok h]
  exact nextEntry_sequence rt s a

theorem prepared_free {s : Store} {n : Int} (hfree : ∀ d ∈ s.auditLog, d.sequence ≠ some n) :
    ∀ d ∈ (prepared s).auditLog, d.sequence ≠ some n := by
  intro d hd hz
  obtain ⟨e, he, rfl⟩ := List.mem_map.mp hd
  rw [(untouched_closeMark s).sequence] at hz
  exact hfree e he hz

theorem append_healthy {rt : Runtime} {s : Store} (a : AppendArgs)
    (hfree : ∀ d ∈ s.auditLog, d.sequence ≠ some (nextSequence s)) :
    (appendChainedEntry rt healthy a).run s =
      (push (nextEntry rt s a) (prepared s), .ok (nextEntry rt s a)) := by
  rw [append_run, insertEntry_run (nextEntry_sequence rt s a) (prepared_free hfree)]
  rfl

theorem push_prepared_auditLog (entry : Doc) (s : Store) :
    (push entry (prepared s)).auditLog =
      s.auditLog.map (closeMark s) ++ [readBack entry s.nextOid] := rfl

/-! ## Growing a log

The log after an append: the entries that were there, one of them perhaps
marked, and the new one.
-/

section Grow

variable {rt : Runtime} {log : List Doc} {m : Int} {f : Doc → Doc} {x : Doc}
variable {k : { k : Nat // 0 < k }}

theorem IsLast.grow (hm : IsLast log m) (hf : Untouched f) (hx : x.sequence = some (m + 1)) :
    IsLast (log.map f ++ [x]) (m + 1) := by
  refine ⟨⟨x, by simp, hx⟩, ?_⟩
  intro d hd z hz
  rcases List.mem_append.mp hd with hd | hd
  · obtain ⟨e, he, rfl⟩ := List.mem_map.mp hd
    rw [hf.sequence] at hz
    have := hm.2 e he z hz
    omega
  · rw [List.mem_singleton.mp hd, hx] at hz
    cases hz
    exact le_refl _

theorem IsLast.map (hm : IsLast log m) (hf : Untouched f) : IsLast (log.map f) m := by
  obtain ⟨⟨d, hd, hdm⟩, hmax⟩ := hm
  refine ⟨⟨f d, List.mem_map_of_mem hd, by rw [hf.sequence, hdm]⟩, ?_⟩
  intro x hx z hz
  obtain ⟨e, he, rfl⟩ := List.mem_map.mp hx
  rw [hf.sequence] at hz
  exact hmax e he z hz

theorem IsLast.push_nextEntry {s : Store} (hm : IsLast s.auditLog m) (hn : nextSequence s = m + 1)
    (a : AppendArgs) : IsLast (push (nextEntry rt s a) (prepared s)).auditLog (m + 1) := by
  rw [push_prepared_auditLog]
  apply hm.grow (untouched_closeMark s)
  rw [readBack_sequence, nextEntry_sequence, hn]

theorem seqKey_map (hf : Untouched f) (d : Doc) : seqKey (f d) = seqKey d := by
  rw [seqKey, hf.sequence]
  rfl

theorem inRange_map (hf : Untouched f) (lo hi : Int) (d : Doc) :
    inRange lo hi (f d) = inRange lo hi d := by
  rw [inRange, hf.sequence]
  rfl

theorem streamEntriesInRange_map (hf : Untouched f) (log : List Doc) (lo hi : Int) :
    streamEntriesInRange (log.map f) lo hi = (streamEntriesInRange log lo hi).map f := by
  have hcomp : inRange lo hi ∘ f = inRange lo hi := funext (inRange_map hf lo hi)
  rw [streamEntriesInRange, List.filter_map, hcomp]
  exact sortBy_map seqKey (seqKey_map hf) _

theorem streamEntriesInRange_below (hf : Untouched f) (hx : x.sequence = some (m + 1)) (lo : Int)
    {hi : Int} (h : hi ≤ m) :
    streamEntriesInRange (log.map f ++ [x]) lo hi = (streamEntriesInRange log lo hi).map f := by
  have hout : inRange lo hi x = false := by
    rw [inRange, hx]
    simp only [Bool.and_eq_false_iff, decide_eq_false_iff_not]
    omega
  rw [streamEntriesInRange, List.filter_append, List.filter_cons_of_neg (by simp [hout]),
    List.filter_nil, List.append_nil]
  exact streamEntriesInRange_map hf log lo hi

theorem streamEntriesInRange_grow (hm : IsLast log m) (hf : Untouched f)
    (hx : x.sequence = some (m + 1)) {lo : Int} (h : lo ≤ m + 1) :
    streamEntriesInRange (log.map f ++ [x]) lo (m + 1) =
      (streamEntriesInRange log lo m).map f ++ [x] := by
  have hnone : (log.map f).filter (inRange (m + 1) (m + 1)) = [] := by
    apply List.filter_eq_nil_iff.mpr
    intro d hd hin
    obtain ⟨z, hz, hlo, -⟩ := inRange_iff.mp hin
    obtain ⟨e, he, rfl⟩ := List.mem_map.mp hd
    rw [hf.sequence] at hz
    have := hm.2 e he z hz
    omega
  have htop : streamEntriesInRange (log.map f ++ [x]) (m + 1) (m + 1) = [x] := by
    have hin : inRange (m + 1) (m + 1) x = true := inRange_iff.mpr ⟨m + 1, hx, by omega, by omega⟩
    rw [streamEntriesInRange, List.filter_append, hnone, List.nil_append,
      List.filter_cons_of_pos hin, List.filter_nil]
    rfl
  rw [streamEntriesInRange_split h (by omega : m ≤ m + 1), htop,
    streamEntriesInRange_below hf hx lo (le_refl m)]

theorem entryOk_map (hf : Untouched f) (d : Doc) : EntryOk rt (f d) ↔ EntryOk rt d := by
  simp only [EntryOk, prevOf, hashOf, hf.previousHash, hf.hash, computeEntryHash, hf.hashable]

theorem docLinked_map (hf : Untouched f) (p : Val) (ds : List Doc) :
    DocLinked rt p (ds.map f) ↔ DocLinked rt p ds :=
  linked_map (fun d => by rw [prevOf, prevOf, hf.previousHash])
    (fun d => by rw [hashOf, hashOf, hf.hash]) (entryOk_map hf)

theorem lastHash_mapped (hf : Untouched f) (p : Val) (ds : List Doc) :
    lastHash hashOf p (ds.map f) = lastHash hashOf p ds :=
  lastHash_map (fun d => by rw [hashOf, hashOf, hf.hash]) p ds

theorem length_to_stored {lo hi : Int} (hs : ∃ d ∈ log, d.sequence = some hi) (hlo : lo ≤ hi)
    (h : Numbered Doc.sequence lo (streamEntriesInRange log lo hi)) :
    lo + (streamEntriesInRange log lo hi).length = hi + 1 := by
  obtain ⟨d, hd, hdz⟩ := hs
  have hmem : d ∈ streamEntriesInRange log lo hi :=
    mem_streamEntriesInRange.mpr ⟨hd, hi, hdz, hlo, le_refl hi⟩
  have hlt := ((h.mem_iff hi).mp ⟨d, hmem, hdz⟩).2
  by_contra hne
  obtain ⟨e, he, hz⟩ := (h.mem_iff (hi + 1)).mpr (by omega)
  obtain ⟨-, z, hz', -, hle⟩ := mem_streamEntriesInRange.mp he
  rw [hz] at hz'
  cases hz'
  omega

theorem BatchesNumbered.grow (hm : IsLast log m) (hf : Untouched f)
    (hx : x.sequence = some (m + 1)) (h : BatchesNumbered log k m 0) :
    BatchesNumbered (log.map f ++ [x]) k (m + 1) 0 := by
  intro j hj
  have hk := k.property
  by_cases hnew : 0 + (j : Int) * k.val = m + 1
  · -- the new entry opens a batch
    have hend : batchEnd k (m + 1) (m + 1) = m + 1 := by
      simp only [batchEnd]
      omega
    rw [hnew, hend, streamEntriesInRange_grow hm hf hx (le_refl _),
      streamEntriesInRange_empty (by omega : m < m + 1)]
    exact ⟨hx, trivial⟩
  · have hle : 0 + (j : Int) * k.val ≤ m := by omega
    have hold : Numbered Doc.sequence (0 + j * k.val)
        (streamEntriesInRange log (0 + j * k.val) (batchEnd k m (0 + j * k.val))) := h j hle
    by_cases hfull : 0 + (j : Int) * k.val + k.val - 1 ≤ m
    · have hend : batchEnd k (m + 1) (0 + j * k.val) = batchEnd k m (0 + j * k.val) := by
        simp only [batchEnd]
        omega
      rw [hend, streamEntriesInRange_below hf hx _ (batchEnd_bounds k hle).2]
      exact hold.map hf.sequence
    · have hend : batchEnd k m (0 + j * k.val) = m := by
        simp only [batchEnd]
        omega
      have hend' : batchEnd k (m + 1) (0 + j * k.val) = m + 1 := by
        simp only [batchEnd]
        omega
      rw [hend] at hold
      rw [hend', streamEntriesInRange_grow hm hf hx (by omega)]
      refine numbered_append.mpr ⟨hold.map hf.sequence, ?_, trivial⟩
      rw [List.length_map, length_to_stored hm.1 hle hold]
      exact hx

theorem Verified.lastHash_eq (h : Verified rt k log m) {d : Doc}
    (hd : d ∈ log) (hdm : d.sequence = some m) :
    lastHash hashOf .none (streamEntriesInRange log 0 m) = hashOf d := by
  have hk := k.property
  have hm0 : 0 ≤ m := h.nonneg
  -- the last batch
  have hdiv : 0 + ((m.toNat / k.val : Nat) : Int) * k.val ≤ m := by
    have := Nat.div_mul_le_self m.toNat k.val
    omega
  have hrest : m < 0 + ((m.toNat / k.val : Nat) : Int) * k.val + k.val := by
    have := Nat.lt_div_mul_add (a := m.toNat) hk
    omega
  generalize hstart : 0 + ((m.toNat / k.val : Nat) : Int) * k.val = start at hdiv hrest
  have hnum := h.batches (m.toNat / k.val) (by rw [hstart]; exact hdiv)
  have hend : batchEnd k m start = m := by
    simp only [batchEnd]
    omega
  simp only [hstart, hend] at hnum
  have hmem : d ∈ streamEntriesInRange log start m :=
    mem_streamEntriesInRange.mpr ⟨hd, m, hdm, hdiv, le_refl m⟩
  have hne : streamEntriesInRange log start m ≠ [] := List.ne_nil_of_mem hmem
  have hlast : (streamEntriesInRange log start m).getLast hne = d := by
    apply hnum.eq_of_num_eq (List.getLast_mem hne) hmem
    rw [hnum.getLast hne, hdm, length_to_stored h.last.1 hdiv hnum]
    congr 1
    omega
  have hstart0 : 0 ≤ start := by
    have : (0 : Int) ≤ ((m.toNat / k.val : Nat) : Int) * k.val :=
      Int.mul_nonneg (Int.natCast_nonneg _) (Int.natCast_nonneg _)
    omega
  rw [streamEntriesInRange_split (by omega : (0 : Int) ≤ start - 1 + 1) (by omega : start - 1 ≤ m),
    show start - 1 + 1 = start by omega, lastHash_append, lastHash_of_ne_nil hashOf hne, hlast]

theorem Verified.previousHash (h : Verified rt k log m) :
    getPreviousHash log (m + 1) = lastHash hashOf .none (streamEntriesInRange log 0 m) := by
  have hm0 : 0 ≤ m := h.nonneg
  obtain ⟨d, hd⟩ := findSequence_ne_none.mp h.last.1
  obtain ⟨hdlog, hdm⟩ := findSequence_eq_some hd
  rw [h.lastHash_eq hdlog hdm, getPreviousHash, if_neg (by omega),
    show m + 1 - 1 = m by omega, hd]
  rfl

theorem Verified.map (h : Verified rt k log m) (hf : Untouched f) :
    Verified rt k (log.map f) m := by
  obtain ⟨g, hg, hg0⟩ := h.genesis
  refine ⟨h.last.map hf, ⟨f g, List.mem_map_of_mem hg, by rw [hf.sequence, hg0]⟩, ?_, ?_⟩
  · intro j hj
    have hnum : Numbered Doc.sequence (0 + j * k.val)
        (streamEntriesInRange log (0 + j * k.val) (batchEnd k m (0 + j * k.val))) := h.batches j hj
    rw [streamEntriesInRange_map hf]
    exact hnum.map hf.sequence
  · rw [streamEntriesInRange_map hf]
    exact (docLinked_map hf _ _).mpr h.linked

theorem Verified.grow (h : Verified rt k log m) (hf : Untouched f)
    (hx : x.sequence = some (m + 1)) (hprev : prevOf x = getPreviousHash log (m + 1))
    (hok : EntryOk rt x) : Verified rt k (log.map f ++ [x]) (m + 1) := by
  obtain ⟨g, hg, hg0⟩ := h.genesis
  have hm0 : 0 ≤ m := h.nonneg
  refine ⟨h.last.grow hf hx, ⟨f g, ?_, by rw [hf.sequence, hg0]⟩, h.batches.grow h.last hf hx, ?_⟩
  · exact List.mem_append_left _ (List.mem_map_of_mem hg)
  · rw [streamEntriesInRange_grow h.last hf hx (by omega)]
    refine linked_concat.mpr ⟨(docLinked_map hf _ _).mpr h.linked, ?_, hok⟩
    rw [lastHash_mapped hf, hprev, h.previousHash]

theorem verified_singleton (hx : x.sequence = some 0)
    (hprev : prevOf x = .none) (hok : EntryOk rt x) : Verified rt k [x] 0 := by
  have hall : ∀ d ∈ [x], d = x := fun d h => List.mem_singleton.mp h
  have hstream : streamEntriesInRange [x] 0 0 = [x] := by
    have hin : inRange 0 0 x = true := inRange_iff.mpr ⟨0, hx, le_refl _, le_refl _⟩
    rw [streamEntriesInRange, List.filter_cons_of_pos hin]
    rfl
  refine ⟨⟨⟨x, List.mem_cons_self, hx⟩, ?_⟩, ⟨x, List.mem_cons_self, hx⟩, ?_, ?_⟩
  · intro d h z hz
    rw [hall d h, hx] at hz
    cases hz
    exact le_refl _
  · apply batchesNumbered_of_numbered
    rw [hstream]
    exact ⟨hx, trivial⟩
  · rw [hstream]
    exact ⟨hprev, hok, trivial⟩

end Grow

end Sentora.Audit
