import Sentora.Audit.Hasher

/-!
# The audit store

The two collections the chain lives in, and `audit/chain/repository.py`: the
queries and updates on them, each a single database operation.

`audit_log` is a list in insertion order.  It also holds plain entries, which
have no `sequence`; every chain query asks for one, so it sees the chained
documents only.
-/

namespace Sentora.Audit

open Lib

/-- `audit_log` and the documents of `audit_chain_meta` the chain code reads. -/
structure Store where
  auditLog : List Doc
  nextOid : Nat
  sequenceCounter : Option Int
  epochSize : Option Nat
  exportedEpochs : List Int

def Store.empty : Store := ⟨[], 0, none, none, []⟩

def defaultEpochSize : Nat := 1000

/-- The sort key of the chain queries. -/
def seqKey (d : Doc) : Int := d.sequence.getD 0

/-- The documents that have a `sequence`. -/
def chained (log : List Doc) : List Doc := log.filter (fun d => d.sequence.isSome)

/-- `$inc` on the counter, which starts at zero, and the value before it. -/
def getNextSequence (s : Store) : Store × Int :=
  let value := s.sequenceCounter.getD 0 + 1
  ({ s with sequenceCounter := some value }, value - 1)

def resetSequenceTo (value : Int) (s : Store) : Store :=
  { s with sequenceCounter := some value }

def findSequence (log : List Doc) (n : Int) : Option Doc :=
  log.find? (fun d => d.sequence == some n)

def getPreviousHash (log : List Doc) (sequence : Int) : Val :=
  if sequence = 0 then .none
  else
    match findSequence log (sequence - 1) with
    | none => .none
    | some prev => get prev.hash

def getLatestChainedEntry (log : List Doc) : Option Doc :=
  firstBy (fun a b => seqKey b ≤ seqKey a) (chained log)

def streamEntriesForEpoch (log : List Doc) (epoch : Int) : List Doc :=
  sortBy seqKey (log.filter (fun d => d.epoch == some epoch && d.sequence.isSome))

def inRange (lo hi : Int) (d : Doc) : Bool :=
  match d.sequence with
  | some z => decide (lo ≤ z) && decide (z ≤ hi)
  | none => false

def streamEntriesInRange (log : List Doc) (startSequence endSequence : Int) : List Doc :=
  sortBy seqKey (log.filter (inRange startSequence endSequence))

def getEpochBoundaryEntry (log : List Doc) (epoch : Int) (last : Bool) : Option Doc :=
  let entries := log.filter (fun d => d.epoch == some epoch && d.sequence.isSome)
  if last then firstBy (fun a b => seqKey b ≤ seqKey a) entries
  else firstBy (fun a b => seqKey a ≤ seqKey b) entries

theorem mem_chained {log : List Doc} {d : Doc} :
    d ∈ chained log ↔ d ∈ log ∧ ∃ z, d.sequence = some z := by
  rw [chained, List.mem_filter, Option.isSome_iff_exists]

theorem findSequence_eq_none {log : List Doc} {n : Int} :
    findSequence log n = none ↔ ∀ d ∈ log, d.sequence ≠ some n := by
  simp [findSequence]

theorem findSequence_eq_some {log : List Doc} {n : Int} {d : Doc}
    (h : findSequence log n = some d) : d ∈ log ∧ d.sequence = some n := by
  have hp := List.find?_some h
  exact ⟨List.mem_of_find?_eq_some h, by simpa using hp⟩

theorem seqKey_of {d : Doc} {z : Int} (h : d.sequence = some z) : seqKey d = z := by
  rw [seqKey, h]
  rfl

theorem latest_eq_none {log : List Doc} (h : getLatestChainedEntry log = none) :
    ∀ d ∈ log, d.sequence = none := by
  intro d hd
  have hnil : chained log = [] := firstBy_eq_none.mp h
  by_contra hs
  obtain ⟨z, hz⟩ := Option.ne_none_iff_exists'.mp hs
  have hmem := mem_chained.mpr ⟨hd, z, hz⟩
  rw [hnil] at hmem
  exact List.not_mem_nil hmem

/-- A query sorted by descending sequence returns an entry with the highest
one. -/
theorem firstBy_desc_spec {l : List Doc} {d : Doc}
    (h : firstBy (fun a b => seqKey b ≤ seqKey a) l = some d) :
    d ∈ l ∧ ∀ e ∈ l, seqKey e ≤ seqKey d := by
  have : Std.Total (fun a b : Doc => seqKey b ≤ seqKey a) :=
    ⟨fun a b => le_total (seqKey b) (seqKey a)⟩
  have : IsTrans Doc (fun a b : Doc => seqKey b ≤ seqKey a) := ⟨fun _ _ _ h₁ h₂ => le_trans h₂ h₁⟩
  exact firstBy_spec h

theorem boundary_eq_some {log : List Doc} {epoch : Int} {d : Doc}
    (h : getEpochBoundaryEntry log epoch true = some d) :
    d ∈ log ∧ d.epoch = some epoch ∧ d.sequence = some (seqKey d) ∧
      ∀ e ∈ log, e.epoch = some epoch → ∀ z, e.sequence = some z → z ≤ seqKey d := by
  rw [getEpochBoundaryEntry, if_pos rfl] at h
  obtain ⟨hmem, hmax⟩ := firstBy_desc_spec h
  simp only [List.mem_filter, Bool.and_eq_true, beq_iff_eq, Option.isSome_iff_exists] at hmem hmax
  obtain ⟨hd, hepoch, z, hz⟩ := hmem
  refine ⟨hd, hepoch, ?_, fun e he hee y hy => ?_⟩
  · rw [seqKey_of hz]
    exact hz
  · have hle := hmax e ⟨he, hee, y, hy⟩
    rw [seqKey_of hy] at hle
    exact hle

theorem boundary_ne_none {log : List Doc} {epoch : Int} {d : Doc} {z : Int}
    (hd : d ∈ log) (hepoch : d.epoch = some epoch) (hz : d.sequence = some z) :
    getEpochBoundaryEntry log epoch true ≠ none := by
  intro h
  rw [getEpochBoundaryEntry, if_pos rfl] at h
  have hnil := firstBy_eq_none.mp h
  have hmem : d ∈ log.filter (fun d => d.epoch == some epoch && d.sequence.isSome) := by
    rw [List.mem_filter, hepoch, hz]
    exact ⟨hd, by simp⟩
  rw [hnil] at hmem
  exact List.not_mem_nil hmem

theorem latest_eq_some {log : List Doc} {d : Doc} (h : getLatestChainedEntry log = some d) :
    d ∈ log ∧ d.sequence = some (seqKey d) ∧
      ∀ e ∈ log, ∀ z, e.sequence = some z → z ≤ seqKey d := by
  obtain ⟨hmem, hmax⟩ := firstBy_desc_spec h
  obtain ⟨hd, z, hz⟩ := mem_chained.mp hmem
  refine ⟨hd, ?_, fun e he y hy => ?_⟩
  · rw [seqKey_of hz]
    exact hz
  · have hle := hmax e (mem_chained.mpr ⟨he, y, hy⟩)
    rw [seqKey_of hy] at hle
    exact hle

theorem inRange_iff {lo hi : Int} {d : Doc} :
    inRange lo hi d = true ↔ ∃ z, d.sequence = some z ∧ lo ≤ z ∧ z ≤ hi := by
  rw [inRange]
  cases d.sequence with
  | none => simp
  | some z => simp

theorem mem_streamEntriesInRange {log : List Doc} {lo hi : Int} {d : Doc} :
    d ∈ streamEntriesInRange log lo hi ↔ d ∈ log ∧ ∃ z, d.sequence = some z ∧ lo ≤ z ∧ z ≤ hi := by
  rw [streamEntriesInRange, mem_sortBy, List.mem_filter, inRange_iff]

theorem mem_streamEntriesForEpoch {log : List Doc} {epoch : Int} {d : Doc} :
    d ∈ streamEntriesForEpoch log epoch ↔
      d ∈ log ∧ d.epoch = some epoch ∧ ∃ z, d.sequence = some z := by
  rw [streamEntriesForEpoch, mem_sortBy, List.mem_filter, Bool.and_eq_true, beq_iff_eq,
    Option.isSome_iff_exists]

theorem streamEntriesInRange_split {log : List Doc} {lo mid hi : Int} (hlo : lo ≤ mid + 1)
    (hhi : mid ≤ hi) :
    streamEntriesInRange log lo hi =
      streamEntriesInRange log lo mid ++ streamEntriesInRange log (mid + 1) hi := by
  have hor : inRange lo hi = fun d => inRange lo mid d || inRange (mid + 1) hi d := by
    funext d
    rw [Bool.eq_iff_iff, Bool.or_eq_true, inRange_iff, inRange_iff, inRange_iff]
    constructor
    · rintro ⟨z, hz, hl, hh⟩
      by_cases hm : z ≤ mid
      · exact Or.inl ⟨z, hz, hl, hm⟩
      · exact Or.inr ⟨z, hz, by omega, hh⟩
    · rintro (⟨z, hz, hl, hh⟩ | ⟨z, hz, hl, hh⟩)
      · exact ⟨z, hz, hl, by omega⟩
      · exact ⟨z, hz, by omega, hh⟩
  rw [streamEntriesInRange, hor]
  apply sortBy_filter_or
  intro a _ b _ ha hb
  obtain ⟨y, hy, -, hym⟩ := inRange_iff.mp ha
  obtain ⟨z, hz, hzm, -⟩ := inRange_iff.mp hb
  show seqKey a < seqKey b
  simp only [seqKey, hy, hz, Option.getD_some]
  omega

theorem streamEntriesInRange_empty {log : List Doc} {lo hi : Int} (h : hi < lo) :
    streamEntriesInRange log lo hi = [] := by
  apply List.eq_nil_iff_forall_not_mem.mpr
  intro d hd
  obtain ⟨-, z, -, hl, hh⟩ := mem_streamEntriesInRange.mp hd
  omega

theorem streamEntriesInRange_of_sorted {log : List Doc}
    (h : (chained log).Pairwise (fun a b => seqKey a ≤ seqKey b)) (lo hi : Int) :
    streamEntriesInRange log lo hi = (chained log).filter (inRange lo hi) := by
  have hf : log.filter (inRange lo hi) = (chained log).filter (inRange lo hi) := by
    rw [chained, List.filter_filter]
    apply List.filter_congr
    intro d _
    rw [inRange]
    cases d.sequence with
    | none => rfl
    | some z => simp
  rw [streamEntriesInRange, hf]
  exact sortBy_eq_self seqKey (h.filter _)

theorem filter_epoch_eq (log : List Doc) (epoch : Int) :
    log.filter (fun d => d.epoch == some epoch && d.sequence.isSome) =
      (chained log).filter (fun d => d.epoch == some epoch) := by
  rw [chained, List.filter_filter]

theorem streamEntriesForEpoch_of_sorted {log : List Doc}
    (h : (chained log).Pairwise (fun a b => seqKey a ≤ seqKey b)) (epoch : Int) :
    streamEntriesForEpoch log epoch = (chained log).filter (fun d => d.epoch == some epoch) := by
  rw [streamEntriesForEpoch, filter_epoch_eq]
  exact sortBy_eq_self seqKey (h.filter _)

def setEpochEnd (d : Doc) : Doc := { d with isEpochEnd := some (.bool true) }

def markOid (oid : Nat) (d : Doc) : Doc := if d.oid = oid then setEpochEnd d else d

def markEpochEnd (oid : Nat) (s : Store) : Store :=
  { s with auditLog := s.auditLog.map (markOid oid) }

/-- The configured epoch size, the default where none or zero is stored. -/
def getEpochSize (s : Store) : { k : Nat // 0 < k } :=
  match s.epochSize with
  | some (k + 1) => ⟨k + 1, Nat.succ_pos k⟩
  | _ => ⟨defaultEpochSize, by decide⟩

def saveEpochSize (k : Nat) (s : Store) : Store := { s with epochSize := some k }

def markEpochExported (epoch : Int) (s : Store) : Store :=
  { s with exportedEpochs :=
      if s.exportedEpochs.contains epoch then s.exportedEpochs else s.exportedEpochs ++ [epoch] }

/-! ## Inserts

The unique sparse index on `sequence` refuses a second document with the same
one.  An insert that the index admits may still fail. -/

/-- What happens to an insert: it succeeds, it fails and nothing is written, or
it is written and reported to the client as an error. -/
inductive InsertOutcome where
  | applied
  | notApplied
  | lostAck
deriving DecidableEq

def duplicateKey (log : List Doc) (entry : Doc) : Bool :=
  match entry.sequence with
  | none => false
  | some z => log.any (fun d => d.sequence == some z)

def readBack (entry : Doc) (oid : Nat) : Doc := { entry.stored with oid := oid }

def push (entry : Doc) (s : Store) : Store :=
  { s with
    auditLog := s.auditLog ++ [readBack entry s.nextOid]
    nextOid := s.nextOid + 1 }

/-- `insert_one`, with whether the client sees it succeed. -/
def insertOne (outcome : InsertOutcome) (entry : Doc) (s : Store) : Store × Bool :=
  if duplicateKey s.auditLog entry then (s, false)
  else
    match outcome with
    | .applied => (push entry s, true)
    | .notApplied => (s, false)
    | .lostAck => (push entry s, false)

/-- `update_one({"sequence": 0}, {"$setOnInsert": entry}, upsert=True)`, with
whether a document was inserted. -/
def upsertGenesis (entry : Doc) (s : Store) : Store × Bool :=
  match findSequence s.auditLog 0 with
  | some _ => (s, false)
  | none => (push entry s, true)

/-- An update that leaves sequence, epoch, hash and everything the hash covers. -/
structure Untouched (f : Doc → Doc) : Prop where
  sequence : ∀ d, (f d).sequence = d.sequence
  epoch : ∀ d, (f d).epoch = d.epoch
  hash : ∀ d, (f d).hash = d.hash
  previousHash : ∀ d, (f d).previousHash = d.previousHash
  hashable : ∀ rt d p, buildHashable rt (f d) p = buildHashable rt d p

theorem untouched_markOid (oid : Nat) : Untouched (markOid oid) := by
  constructor <;> intros <;> unfold markOid <;> split <;> rfl

theorem getPreviousHash_map {f : Doc → Doc} (hf : Untouched f) (log : List Doc) (n : Int) :
    getPreviousHash (log.map f) n = getPreviousHash log n := by
  have hfind : findSequence (log.map f) (n - 1) = (findSequence log (n - 1)).map f := by
    simp only [findSequence, List.find?_map, Function.comp_def, hf.sequence]
  rw [getPreviousHash, getPreviousHash, hfind]
  cases findSequence log (n - 1) with
  | none => rfl
  | some d => simp only [Option.map_some, hf.hash]

theorem duplicateKey_eq_true {log : List Doc} {entry : Doc} {z : Int}
    (h : entry.sequence = some z) :
    duplicateKey log entry = true ↔ ∃ d ∈ log, d.sequence = some z := by
  rw [duplicateKey, h]
  simp

theorem duplicateKey_eq_false {log : List Doc} {entry : Doc} {z : Int}
    (h : entry.sequence = some z) :
    duplicateKey log entry = false ↔ ∀ d ∈ log, d.sequence ≠ some z := by
  rw [← Bool.not_eq_true, duplicateKey_eq_true h]
  simp

theorem push_auditLog (entry : Doc) (s : Store) :
    (push entry s).auditLog = s.auditLog ++ [readBack entry s.nextOid] := rfl

theorem readBack_sequence (entry : Doc) (oid : Nat) :
    (readBack entry oid).sequence = entry.sequence := rfl

end Sentora.Audit
