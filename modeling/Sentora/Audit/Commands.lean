import Sentora.Audit.Repository
import Sentora.Lib.Process

/-!
# Chain commands

`audit/chain/commands.py` as processes over the store, one step for each
database operation.  Running a process alone is the command on its own, or an
append under its lock; the interleavings of a pool are the concurrent ones.
-/

namespace Sentora.Audit

open Lib

inductive ChainOp where
  | saveEpochSize | findGenesis | readMax | resetSequence | allocate | upsertGenesis | readGenesis
  | getEpochSize | findBoundary | markEpochEnd | previousHash | insert
deriving DecidableEq

def utcNow (clock : DateTime) : DateTime := { clock with tz := some 0 }

def ofOption (v : Option String) : Val :=
  match v with
  | none => .none
  | some s => .str s

/-- `entry["hash"] = compute_entry_hash(entry, previous_hash)`.  Both keys the
computation needs are there. -/
def withHash (rt : Runtime) (entry : Doc) (previousHash : Val) : Doc :=
  match computeEntryHash rt entry previousHash with
  | .ok h => { entry with hash := some (.str h) }
  | .error _ => entry

theorem withHash_sequence (rt : Runtime) (d : Doc) (p : Val) :
    (withHash rt d p).sequence = d.sequence := by
  rw [withHash]
  split <;> rfl

theorem withHash_previousHash (rt : Runtime) (d : Doc) (p : Val) :
    (withHash rt d p).previousHash = d.previousHash := by
  rw [withHash]
  split <;> rfl

theorem withHash_epoch (rt : Runtime) (d : Doc) (p : Val) :
    (withHash rt d p).epoch = d.epoch := by
  rw [withHash]
  split <;> rfl

structure InitArgs where
  tenantId : Option String := none
  initializedBy : String := "system"
  epochSize : Nat := defaultEpochSize
  sentoraVersion : String := "1.1.0"
  clock : DateTime

def genesisEntry (a : InitArgs) : Doc :=
  { oid := 0
    sequence := some 0
    epoch := some 0
    timestamp := some (.date (utcNow a.clock))
    domain := some (.str "system")
    action := some (.str "system.genesis")
    actor := some (.str a.initializedBy)
    status := some (.str "info")
    summary := some (.str "Audit hash-chain initialized")
    details := some (.dict [
      ("sentora_version", .str a.sentoraVersion),
      ("tenant_id", ofOption a.tenantId),
      ("initialized_by", .str a.initializedBy),
      ("chain_algorithm", .str chainAlgorithm),
      ("epoch_size", .int a.epochSize)])
    tenantId := some (ofOption a.tenantId)
    previousHash := some .none
    isEpochStart := some (.bool true)
    isEpochEnd := some (.bool false)
    previousEpochHash := some .none
    hash := none
    extra := [] }

def initializeChain (rt : Runtime) (a : InitArgs) : Process Store ChainOp Doc := do
  .write .saveEpochSize (saveEpochSize a.epochSize)
  let existing ← .read .findGenesis (fun s => findSequence s.auditLog 0)
  match existing with
  | some genesis => do
    -- resynchronise the counter with the log
    let maxDoc ← .read .readMax (fun s => getLatestChainedEntry s.auditLog)
    match maxDoc with
    | some d => do
      .write .resetSequence (resetSequenceTo (seqKey d + 1))
      pure genesis
    | none => pure genesis
  | none => do
    let sequence ← .atomic .allocate getNextSequence
    if sequence ≠ 0 then .write .resetSequence (resetSequenceTo 0) else pure ()
    let entry := withHash rt (genesisEntry a) .none
    let _inserted ← .atomic .upsertGenesis (upsertGenesis entry)
    .write .resetSequence (resetSequenceTo 1)
    let existing ← .read .readGenesis (fun s => findSequence s.auditLog 0)
    pure (existing.getD entry)

structure AppendArgs where
  domain : String
  action : String
  actor : String := "system"
  status : String := "success"
  summary : String
  details : Option (List (String × Val)) := none
  tenantId : Option String := none
  clock : DateTime

def chainEntry (a : AppendArgs) (sequence epoch : Int) (previousHash : Val)
    (isEpochStart : Bool) (prevEpochHash : Val) : Doc :=
  { oid := 0
    sequence := some sequence
    epoch := some epoch
    timestamp := some (.date (utcNow a.clock))
    domain := some (.str a.domain)
    action := some (.str a.action)
    actor := some (.str a.actor)
    status := some (.str a.status)
    summary := some (.str a.summary)
    details := some (.dict (a.details.getD []))
    tenantId := some (ofOption a.tenantId)
    previousHash := some previousHash
    isEpochStart := some (.bool isEpochStart)
    isEpochEnd := some (.bool false)
    previousEpochHash := some prevEpochHash
    hash := none
    extra := [] }

def opensEpoch (sequence : Int) (epochSize : Nat) : Bool :=
  decide (0 < sequence) && decide (sequence % epochSize = 0)

/-- Mark the last entry of the epoch that ends and return its hash. -/
def closeEpoch (prevEpoch : Int) : Process Store ChainOp Val := do
  let lastEntry ← .read .findBoundary (fun s => getEpochBoundaryEntry s.auditLog prevEpoch true)
  match lastEntry with
  | some d => do
    .write .markEpochEnd (markEpochEnd d.oid)
    pure (get d.hash)
  | none => pure .none

/-- The insert with its one retry.  After a second failure the counter goes back
to the sequence that was not written. -/
def insertEntry (outcome : Nat → InsertOutcome) (sequence : Int) (entry : Doc) :
    Process Store ChainOp (Except ChainError Doc) := do
  let written ← .atomic .insert (insertOne (outcome 0) entry)
  if written then pure (.ok entry)
  else do
    let written ← .atomic .insert (insertOne (outcome 1) entry)
    if written then pure (.ok entry)
    else do
      .write .resetSequence (resetSequenceTo sequence)
      pure (.error (.integrity sequence))

/-- The section an append runs under its lock.  `outcome` says what happens to
each of its insert attempts. -/
def appendChainedEntry (rt : Runtime) (outcome : Nat → InsertOutcome) (a : AppendArgs) :
    Process Store ChainOp (Except ChainError Doc) := do
  let epochSize ← .read .getEpochSize getEpochSize
  let sequence ← .atomic .allocate getNextSequence
  let epoch := sequence / (epochSize.val : Int)
  let isEpochStart := opensEpoch sequence epochSize
  let prevEpochHash ← if isEpochStart then closeEpoch (epoch - 1) else pure .none
  let previousHash ← .read .previousHash (fun s => getPreviousHash s.auditLog sequence)
  let entry := withHash rt
    (chainEntry a sequence epoch previousHash isEpochStart prevEpochHash) previousHash
  insertEntry outcome sequence entry

def healthy : Nat → InsertOutcome := fun _ => .applied

def appendAll (rt : Runtime) (outcome : Nat → InsertOutcome) :
    List AppendArgs → Process Store ChainOp (List (Except ChainError Doc))
  | [] => pure []
  | a :: as => do
    let r ← appendChainedEntry rt outcome a
    let rs ← appendAll rt outcome as
    pure (r :: rs)

end Sentora.Audit
