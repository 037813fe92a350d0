import Mathlib.Data.String.Basic
import Sentora.Classification.Classifier
import Sentora.Lib.Fallible
import Sentora.Lib.RangeSort

/-!
# Classification runs

The run of a `ClassificationManager` over all agents, the bulk write of
`domains/classification/repository.py`, and `get_overview`.

Which steps of a run fail is given beforehand.
-/

namespace Sentora.Classification

open Lib

/-- The steps of a run that fail.  Batches are counted from 0. -/
structure Failures where
  config : Bool := false
  fingerprints : Bool := false
  countAgents : Bool := false
  fetch : Nat → Bool := fun _ => false
  /-- The applications of an agent cannot be read. -/
  apps : Sync.AgentDoc → Bool := fun _ => false
  /-- An agent cannot be classified. -/
  classify : Sync.AgentDoc → Bool := fun _ => false
  /-- The result of an agent is not written. -/
  write : Sync.AgentDoc → Bool := fun _ => false
  /-- The write of a batch raises, whatever it has written. -/
  upsert : Nat → Bool := fun _ => false
  update : Ending := .done
  updateFailed : Ending := .done

section Runs

variable {F : Type}

abbrev Results (F : Type) := Collection fun r : ClassificationResult F => r.agentId

/-- `ReplaceOne(…, upsert=True)`, and whether it inserts or modifies a document. -/
def upsertResult [DecidableEq F] (c : Results F × Nat) (r : ClassificationResult F) :
    Results F × Nat :=
  (c.1.replaceOne r, c.2 + if c.1.get r.agentId = some r then 0 else 1)

def bulkUpsertResults [DecidableEq F] (results : Results F)
    (written : List (ClassificationResult F)) : Results F × Nat :=
  written.foldl upsertResult (results, 0)

structure Progress (F : Type) where
  results : Results F
  classified : Nat := 0
  errors : Nat := 0

/-- The agents behind an `_id`. -/
def afterId (lastSeenId : Option String) (agents : List Sync.AgentDoc) : List Sync.AgentDoc :=
  agents.filter fun a => lastSeenId.all (· < a.id)

def fetchBatch (batchSize : Nat) (lastSeenId : Option String) (agents : List Sync.AgentDoc) :
    List Sync.AgentDoc :=
  (sortBy Sync.AgentDoc.id (afterId lastSeenId agents)).take batchSize

def load (fails : Failures) (db : Database F) (runId : Nat) : Loaded F where
  runId := runId
  fingerprints := if fails.fingerprints then [] else db.fingerprints
  config := if fails.config then none else some db.config

structure Engine (F : Type) where
  text : Taxonomy.CaseText
  floats : Floats F
  batchSize : Nat
  positive : 0 < batchSize
  /-- When an agent is classified. -/
  clock : Sync.AgentDoc → Int

def resultOf (e : Engine F) (fails : Failures) (db : Database F) (runId : Nat)
    (agent : Sync.AgentDoc) : ClassificationResult F :=
  classifySingleAgent e.text e.floats (load fails db runId) (e.clock agent)
    (installedAppNames db.installedApps (fails.apps agent) agent) agent

variable [DecidableEq F]

/-- One turn of the loop, behind the fetching of its batch. -/
def classifyBatch (result : Sync.AgentDoc → ClassificationResult F) (fails : Failures) (k : Nat)
    (batch : List Sync.AgentDoc) (p : Progress F) : Progress F :=
  let found := batch.filter fun a => !fails.classify a
  let (results, written) := bulkUpsertResults p.results
    ((found.filter fun a => !fails.write a).map result)
  let failed := if fails.upsert k then found.length else found.length - written
  { results
    classified := p.classified + found.length - failed
    errors := p.errors + (batch.length - found.length) + failed }

def runBatches (result : Sync.AgentDoc → ClassificationResult F) (batchSize : Nat)
    (fails : Failures) (agents : List Sync.AgentDoc) :
    Nat → Nat → Option String → Progress F → Progress F
  | 0, _, _, p => p
  | fuel + 1, k, lastSeenId, p =>
    if fails.fetch k then { p with errors := p.errors + 1 }
    else
      let batch := fetchBatch batchSize lastSeenId agents
      match batch.getLast? with
      | none => p
      | some last =>
        let p' := classifyBatch result fails k batch p
        if batch.length < batchSize then p'
        else runBatches result batchSize fails agents fuel (k + 1) (some last.id) p'

def newRunId (db : Database F) : Nat :=
  (db.results.docs.map ClassificationResult.runId ++
    db.runs.docs.map ClassificationRun.id).foldr max 0 + 1

/-- `save_run` of a new run. -/
def saveRun (trigger : String) (db : Database F) : Database F :=
  { db with runs := db.runs.replaceOne ⟨newRunId db, trigger, .running, 0, 0⟩ }

def finishRun (status : RunStatus) (classified errors : Nat) (run : ClassificationRun) :
    ClassificationRun :=
  { run with status, agentsClassified := classified, errors }

theorem id_finishRun {status : RunStatus} {classified errors : Nat} (run : ClassificationRun) :
    (finishRun status classified errors run).id = run.id := rfl

def updateRun (ending : Ending) (runId : Nat) (status : RunStatus) (classified errors : Nat)
    (runs : Collection ClassificationRun.id) : Collection ClassificationRun.id :=
  if ending.isApplied then
    runs.updateOne (fun run => run.id == runId) (finishRun status classified errors)
      id_finishRun
  else runs

/-- The results and counts at the end of the loop, unless the agents cannot be counted. -/
def classifyAll (e : Engine F) (fails : Failures) (runId : Nat) (db : Database F) :
    Option (Progress F) :=
  if fails.countAgents then none
  else if db.agents.docs.length = 0 then some { results := db.results }
  else some (runBatches (resultOf e fails db runId) e.batchSize fails db.agents.docs
    (db.agents.docs.length + 1) 0 none { results := db.results })

/-- `_run_classification`, but for the flags and the lock. -/
def runClassification (e : Engine F) (fails : Failures) (runId : Nat) (db : Database F) :
    Database F :=
  match classifyAll e fails runId db with
  | none => { db with runs := updateRun fails.updateFailed runId .failed 0 1 db.runs }
  | some p =>
    let completed := updateRun fails.update runId .completed p.classified p.errors db.runs
    { db with
      results := p.results
      runs :=
        if fails.update.raised then
          updateRun fails.updateFailed runId .failed p.classified (p.errors + 1) completed
        else completed }

end Runs

structure Overview where
  total : Nat
  correct : Nat
  misclassified : Nat
  ambiguous : Nat
  unclassifiable : Nat
deriving DecidableEq

/-- `get_overview`, but for the groups and the last time. -/
def getOverview {F : Type} (results : List (ClassificationResult F)) : Overview :=
  let count (v : Verdict) := results.countP fun r => r.classification == v
  { total := count .correct + count .misclassified + count .ambiguous + count .unclassifiable
    correct := count .correct
    misclassified := count .misclassified
    ambiguous := count .ambiguous
    unclassifiable := count .unclassifiable }

end Sentora.Classification
