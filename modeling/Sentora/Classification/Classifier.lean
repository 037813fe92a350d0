import Mathlib.Data.List.Dedup
import Mathlib.Data.List.Sort
import Sentora.Sync.Documents
import Sentora.Taxonomy.Matchers

/-!
# The classifier

`domains/classification/entities.py`, and what a classification reads of fingerprints and of the
configuration.  The id of a run is a number, and a new one is greater than those before.

`classify_single_agent` of `domains/classification/classifier.py`, and `matches_pattern` of
`domains/fingerprint/matcher.py`.
-/

namespace Sentora.Classification

open Lib

/-- What `float` does.  Nothing is assumed of it. -/
structure Floats (F : Type) where
  zero : F
  add : F → F → F
  sub : F → F → F
  div : F → F → F
  lt : F → F → Bool
  le : F → F → Bool
  eq : F → F → Bool
  /-- `round(x, 6)`. -/
  round : F → F
  /-- `f"{x:.2f}"`. -/
  format : F → String
  /-- 0.7, 0.4 and 0.15. -/
  scoreClear : F
  scorePartial : F
  gapClear : F

structure FingerprintMarker (F : Type) where
  pattern : String
  displayName : String
  weight : F

structure Fingerprint (F : Type) where
  groupId : String
  groupName : String
  markers : List (FingerprintMarker F)

/-- The thresholds of `AppConfig`. -/
structure AppConfig (F : Type) where
  classificationThreshold : F
  partialThreshold : F
  ambiguityGap : F

structure GroupMatchScore (F : Type) where
  groupId : String
  groupName : String
  score : F
  matchedMarkers : List String
  missingMarkers : List String
deriving DecidableEq

inductive Verdict where
  | correct
  | misclassified
  | ambiguous
  | unclassifiable
deriving DecidableEq

structure Finding where
  classification : Verdict
  suggestedGroupId : Option String := none
  suggestedGroupName : Option String := none
  anomalyReasons : List String := []
deriving DecidableEq

structure ClassificationResult (F : Type) extends Finding where
  runId : Nat
  agentId : String
  hostname : String
  currentGroupId : String
  currentGroupName : String
  matchScores : List (GroupMatchScore F)
  computedAt : Int
  acknowledged : Bool
deriving DecidableEq

inductive RunStatus where
  | running
  | completed
  | failed
deriving DecidableEq

structure ClassificationRun where
  id : Nat
  trigger : String
  status : RunStatus
  agentsClassified : Nat
  errors : Nat
deriving DecidableEq

/-- What a run reads and writes. -/
structure Database (F : Type) where
  agents : Collection Sync.AgentDoc.id
  /-- The `_id` of an agent is made of its source and its id there. -/
  unique : (agents.docs.map fun a => (a.source, a.sourceId)).Nodup
  installedApps : List Sync.AppDoc
  fingerprints : List (Fingerprint F)
  config : AppConfig F
  results : Collection (fun r : ClassificationResult F => r.agentId)
  runs : Collection ClassificationRun.id

/-- `glob_to_regex`, for which only stars and question marks are wildcards. -/
def globToRegex (pattern : String) : List Glob.Token :=
  pattern.toList.map fun c => if c = '*' then .star else if c = '?' then .any else .lit c

/-- What is left of a text behind some characters of its first line. -/
def lineTails : List Char → List (List Char)
  | [] => [[]]
  | c :: cs => (c :: cs) :: if c = '\n' then [] else lineTails cs

/-- A dot is no line feed, and a text may have one behind its end. -/
def matchLine (variants : Char → List Char) : List Glob.Token → List Char → Bool
  | [] => fun xs => xs.isEmpty || xs == ['\n']
  | .star :: ts => fun xs => (lineTails xs).any (matchLine variants ts)
  | t :: ts => fun xs =>
    match xs with
    | [] => false
    | x :: rest => (t != .any || x != '\n') && t.accepts variants x && matchLine variants ts rest

def isExact (pattern : String) : Bool :=
  !pattern.toList.contains '*' && !pattern.toList.contains '?'

def matchesPattern (t : Taxonomy.CaseText) (pattern text : String) : Bool :=
  if isExact pattern then t.lower pattern == t.lower text
  else matchLine t.variants (globToRegex pattern) text.toList

section Scores

variable {F : Type}

def markerMatched (t : Taxonomy.CaseText) (installedApps : List String)
    (marker : FingerprintMarker F) : Bool :=
  if isExact marker.pattern then (installedApps.map t.lower).contains (t.lower marker.pattern)
  else installedApps.any (matchesPattern t marker.pattern)

def totalWeight (fl : Floats F) (markers : List (FingerprintMarker F)) : F :=
  (markers.map FingerprintMarker.weight).foldl fl.add fl.zero

def scoreFingerprint (t : Taxonomy.CaseText) (fl : Floats F) (installedApps : List String)
    (fp : Fingerprint F) : GroupMatchScore F :=
  let hit := markerMatched t installedApps
  let total := totalWeight fl fp.markers
  let (score, matched, missing) :=
    if fl.eq total fl.zero then (fl.zero, [], fp.markers)
    else
      (fl.div (totalWeight fl (fp.markers.filter hit)) total, fp.markers.filter hit,
        fp.markers.filter fun m => !hit m)
  { groupId := fp.groupId
    groupName := fp.groupName
    score := fl.round (if fp.markers.isEmpty then fl.zero else score)
    matchedMarkers := matched.map FingerprintMarker.displayName
    missingMarkers := missing.map FingerprintMarker.displayName }

def topNScores : Nat := 5

def topScores (fl : Floats F) (scores : List (GroupMatchScore F)) : List (GroupMatchScore F) :=
  (scores.insertionSort fun a b => fl.lt a.score b.score = false).take topNScores

structure Thresholds (F : Type) where
  clear : F
  partialMatch : F
  gap : F

def thresholds (fl : Floats F) : Option (AppConfig F) → Thresholds F
  | some cfg => ⟨cfg.classificationThreshold, cfg.partialThreshold, cfg.ambiguityGap⟩
  | none => ⟨fl.scoreClear, fl.scorePartial, fl.gapClear⟩

def unclassifiable (reason : String) : Finding where
  classification := .unclassifiable
  anomalyReasons := [reason]

def judgeBest (fl : Floats F) (th : Thresholds F) (groupId groupName : String)
    (best : GroupMatchScore F) (second : Option (GroupMatchScore F)) : Finding :=
  let gap := (second.map fun s => fl.sub best.score s.score).getD best.score
  if fl.le th.clear best.score && fl.le th.gap gap then
    if best.groupId = groupId then { classification := .correct }
    else
      { classification := .misclassified
        suggestedGroupId := some best.groupId
        suggestedGroupName := some best.groupName
        anomalyReasons := ["Agent is in group '" ++ groupName ++
          "' but best fingerprint match is '" ++ best.groupName ++ "' (score " ++
          fl.format best.score ++ ")."] }
  else
    { classification := .ambiguous
      anomalyReasons :=
        (if fl.lt best.score th.clear then
          ["Best match score " ++ fl.format best.score ++ " is below the confident threshold of " ++
            fl.format th.clear ++ "."] else []) ++
        if fl.lt gap th.gap && second.isSome then
          ["Gap between top two scores is " ++ fl.format gap ++ ", below the minimum gap of " ++
            fl.format th.gap ++ " required for a confident verdict."] else [] }

def judge (fl : Floats F) (th : Thresholds F) (groupId groupName : String)
    (fingerprints : List (Fingerprint F)) (top : List (GroupMatchScore F)) : Finding :=
  if fingerprints.isEmpty then unclassifiable "No fingerprints have been defined yet."
  else
    match top with
    | [] => unclassifiable "No match scores could be computed."
    | best :: rest =>
      if fl.lt best.score th.partialMatch then
        unclassifiable ("Best match score " ++ fl.format best.score ++
          " is below the minimum threshold of " ++ fl.format th.partialMatch ++ ".")
      else judgeBest fl th groupId groupName best rest.head?

/-- `active_match_stage(agent_id=…)`. -/
def isActiveOf (agentId : String) (d : Sync.AppDoc) : Bool :=
  d.active != some false && d.agentId == agentId

def appNames (apps : List Sync.AppDoc) : List String :=
  ((apps.map Sync.AppDoc.normalizedName).dedup).filter (· ≠ "")

/-- The names of the applications of an agent: its own list, or those that the applications
with its id have, unless these cannot be read. -/
def installedAppNames (apps : List Sync.AppDoc) (unreadable : Bool) (agent : Sync.AgentDoc) :
    List String :=
  match agent.installedAppNames.getD [] with
  | [] => if unreadable then [] else appNames (apps.filter (isActiveOf agent.sourceId))
  | names => names

/-- What a run has loaded before its first agent. -/
structure Loaded (F : Type) where
  runId : Nat
  fingerprints : List (Fingerprint F)
  config : Option (AppConfig F)

/-- `classify_single_agent`, behind the reading of the names. -/
def classifySingleAgent (t : Taxonomy.CaseText) (fl : Floats F) (loaded : Loaded F)
    (computedAt : Int) (names : List String) (agent : Sync.AgentDoc) : ClassificationResult F :=
  let top := topScores fl (loaded.fingerprints.map (scoreFingerprint t fl names))
  { judge fl (thresholds fl loaded.config) agent.groupId agent.groupName loaded.fingerprints
      top with
    runId := loaded.runId
    agentId := agent.sourceId
    hostname := agent.hostname
    currentGroupId := agent.groupId
    currentGroupName := agent.groupName
    matchScores := top
    computedAt
    acknowledged := false }

end Scores

end Sentora.Classification
