import Mathlib.Data.Finset.Card
import Sentora.Compliance.Engine

/-!
# The compliance service

`domains/compliance/commands.py` and the dashboard of `queries.py` over the collections of
`repository.py`, one request after another.  Results stand in the order of the runs that stored
them.
-/

namespace Sentora.Compliance

open Lib

/-- The built-in frameworks, of which no two controls have one id. -/
structure Frameworks where
  registry : Registry
  distinctFrameworks : (registry.map Prod.fst).Nodup
  distinctControls : ((registry.flatMap Prod.snd).map ControlDefinition.id).Nodup

structure World (f : Frameworks) where
  database : Database
  settings : Settings
  /-- No custom control has the id of a built-in one. -/
  custom : ∀ c ∈ settings.customControls, getControl f.registry c.id = none
  /-- `compliance_results`. -/
  results : List CheckResult

def Settings.initial : Settings where
  frameworkConfigs := .empty
  controlConfigs := .empty
  customControls := .empty

/-- Without settings and results. -/
def World.initial (f : Frameworks) (database : Database) : World f where
  database := database
  settings := .initial
  custom := fun _ h => absurd h Collection.not_mem_empty
  results := []

inductive ComplianceFailure where
  | frameworkNotFound (message : String)
  | controlNotFound (message : String)
  | customControlAlreadyExists (message : String)
  | invalidCheckType (message : String)
  | valueError (message : String)
deriving DecidableEq

def ControlSeverity.value : ControlSeverity → String
  | .critical => "critical"
  | .high => "high"
  | .medium => "medium"
  | .low => "low"

def toSeverity (value : String) : Except ComplianceFailure ControlSeverity :=
  match [ControlSeverity.critical, .high, .medium, .low].find? fun s => s.value == value with
  | some severity => .ok severity
  | none => .error (.valueError ("'" ++ value ++ "' is not a valid ControlSeverity"))

def isValidFramework (registry : Registry) (frameworkId : String) : Bool :=
  (getAllFrameworkIds registry).contains frameworkId

section Commands

variable {f : Frameworks}

/-- `enable_framework` and `disable_framework`. -/
def setFrameworkEnabled (frameworkId : String) (enabled : Bool) (w : World f) :
    Except ComplianceFailure (World f) :=
  if isValidFramework f.registry frameworkId then
    .ok { w with
      settings := { w.settings with
        frameworkConfigs := w.settings.frameworkConfigs.replaceOne ⟨frameworkId, enabled⟩ } }
  else .error (.frameworkNotFound ("Unknown framework: " ++ frameworkId))

structure ConfigureControlRequest where
  enabled : Option Bool := none
  severityOverride : Option String := none
  parametersOverride : Option JsonDict := none
  scopeTagsOverride : Option (List String) := none
  scopeGroupsOverride : Option (List String) := none

/-- `configure_control`, which replaces the configuration. -/
def configureControl (controlId : String) (r : ConfigureControlRequest) (w : World f) :
    Except ComplianceFailure (World f) := do
  match (getControl f.registry controlId).or (w.settings.customControls.get controlId) with
  | none => throw (.controlNotFound ("Unknown control: " ++ controlId))
  | some defn =>
    let severity ← r.severityOverride.mapM toSeverity
    let config : ControlConfiguration :=
      { controlId
        frameworkId := defn.frameworkId
        enabled := r.enabled.getD true
        severityOverride := severity
        parametersOverride := r.parametersOverride.getD .empty
        scopeTagsOverride := r.scopeTagsOverride
        scopeGroupsOverride := r.scopeGroupsOverride }
    pure { w with
      settings :=
        { w.settings with controlConfigs := w.settings.controlConfigs.replaceOne config } }

structure CreateCustomControlRequest where
  id : String
  frameworkId : String
  name : String
  category : String
  severity : String
  checkType : String
  parameters : JsonDict := .empty
  scopeTags : List String := []
  scopeGroups : List String := []

def existsAlready (controlId : String) : ComplianceFailure :=
  .customControlAlreadyExists ("Custom control '" ++ controlId ++ "' already exists")

def createCustomControl (r : CreateCustomControlRequest) (w : World f) :
    Except ComplianceFailure (World f) :=
  if !isValidFramework f.registry r.frameworkId then
    .error (.frameworkNotFound ("Unknown framework: " ++ r.frameworkId))
  else if (getExecutor r.checkType).isNone then
    .error (.invalidCheckType ("Unknown check type: " ++ r.checkType))
  else if hbuiltIn : getControl f.registry r.id = none then
    if (w.settings.customControls.get r.id).isSome then .error (existsAlready r.id)
    else
      match toSeverity r.severity with
      | .error e => .error e
      | .ok severity =>
        let control : ControlDefinition :=
          { id := r.id, frameworkId := r.frameworkId, name := r.name, category := r.category
            severity, checkType := r.checkType, parameters := r.parameters
            scopeTags := r.scopeTags, scopeGroups := r.scopeGroups }
        match hinsert : w.settings.customControls.insertOne control with
        | none => .error (existsAlready r.id)
        | some customControls =>
          .ok { w with
            settings := { w.settings with customControls }
            custom := fun c hc => by
              rcases (Collection.mem_insertOne hinsert).mp hc with hold | rfl
              · exact w.custom c hold
              · exact hbuiltIn }
  else
    .error (.customControlAlreadyExists
      ("Control ID '" ++ r.id ++ "' conflicts with a built-in control"))

end Commands

/-- `get_latest_results`: of each control the result that was stored last. -/
def latestResults (frameworkId : Option String) (results : List CheckResult) : List CheckResult :=
  latest CheckResult.controlId
    (results.filter fun r => (wanted frameworkId).all (r.frameworkId == ·))

/-- A key `control_id:agent_id`.  The id of a control has no colon. -/
abbrev ViolationKey := String × String

def agentIds (r : CheckResult) : List String := r.violations.map ComplianceViolation.agentId

def violationKeys (results : List CheckResult) : Finset ViolationKey :=
  ((results.filter fun r => r.status == .failed).flatMap fun r =>
    (agentIds r).map fun agentId => (r.controlId, agentId)).toFinset

structure ComplianceRun where
  results : List CheckResult
  passed : Nat
  failed : Nat
  warning : Nat
  newViolations : Finset ViolationKey
  resolvedViolations : Finset ViolationKey

def executeOrFail (py : Python) (now : Int) (db : Database) (fails : ResolvedControl → Bool)
    (c : ResolvedControl) : Option CheckResult :=
  if fails c then
    (getExecutor c.checkType).map fun _ => c.result now (errorOutcome py .operationFailure)
  else executeCheck py now db c

section Runs

variable {f : Frameworks}

def activeControls (frameworkId : Option String) (w : World f) : List ResolvedControl :=
  resolveActiveControls f.registry w.settings frameworkId

def runResults (digest : String → String) (py : Python) (frameworkId : Option String) (now : Int)
    (fails : ResolvedControl → Bool) (w : World f) : List CheckResult :=
  runChecks digest (executeOrFail py now w.database fails) (activeControls frameworkId w)

def triggerComplianceRun (digest : String → String) (py : Python) (frameworkId : Option String)
    (now : Int) (fails : ResolvedControl → Bool) (w : World f) : World f × ComplianceRun :=
  let previous := violationKeys (latestResults frameworkId w.results)
  let results := runResults digest py frameworkId now fails w
  let current := violationKeys results
  ({ w with results := w.results ++ results },
    { results
      passed := results.countP fun r => r.status == .passed
      failed := results.countP fun r => r.status == .failed
      warning := results.countP fun r => r.status == .warning
      newViolations := current \ previous
      resolvedViolations := previous \ current })

/-- What `compliance.violation.resolved` has for a control. -/
structure ResolvedEvent where
  controlId : String
  previouslyAffected : Nat
deriving DecidableEq

def ComplianceRun.resolvedEvents (run : ComplianceRun) : Finset ResolvedEvent :=
  (run.resolvedViolations.image Prod.fst).image fun controlId =>
    ⟨controlId, (run.resolvedViolations.filter fun key => key.1 = controlId).card⟩

structure FrameworkScore where
  frameworkId : String
  totalControls : Nat
  passed : Nat
  failed : Nat
  warning : Nat
  error : Nat
  notApplicable : Nat
deriving DecidableEq

structure Dashboard where
  frameworks : List FrameworkScore
  totalViolations : Nat
deriving DecidableEq

def enabledFrameworks (w : World f) : List String :=
  (w.settings.frameworkConfigs.docs.filter FrameworkConfig.enabled).map FrameworkConfig.frameworkId

def frameworkResults (results : List CheckResult) (frameworkId : String) : List CheckResult :=
  results.filter fun r => r.frameworkId == frameworkId

def frameworkScore (latest : List CheckResult) (frameworkId : String) : FrameworkScore :=
  let results := frameworkResults latest frameworkId
  { frameworkId
    totalControls := results.length
    passed := results.countP fun r => r.status == .passed
    failed := results.countP fun r => r.status == .failed
    warning := results.countP fun r => r.status == .warning
    error := results.countP fun r => r.status == .error
    notApplicable := results.countP fun r => r.status == .notApplicable }

def getDashboard (w : World f) : Dashboard :=
  let latest := latestResults none w.results
  { frameworks := (enabledFrameworks w).map (frameworkScore latest)
    totalViolations := ((enabledFrameworks w).map fun id =>
      ((frameworkResults latest id).map fun r => r.violations.length).sum).sum }

structure ViolationDetail where
  controlId : String
  frameworkId : String
  controlName : String
  severity : ControlSeverity
  checkedAt : Int
  violation : ComplianceViolation
deriving DecidableEq

def CheckResult.details (r : CheckResult) : List ViolationDetail :=
  r.violations.map fun violation =>
    { controlId := r.controlId
      frameworkId := r.frameworkId
      controlName := r.controlName
      severity := r.severity
      checkedAt := r.checkedAt
      violation }

/-- The violations of `get_all_current_violations`, before they are sorted. -/
def currentViolations (frameworkId severity : Option String) (results : List CheckResult) :
    List ViolationDetail :=
  (((latestResults frameworkId results).filter fun r =>
      r.status == .failed || r.status == .warning).filter fun r =>
    (severity.filter (· ≠ "")).all (r.severity.value == ·)).flatMap CheckResult.details

inductive Request where
  | setFrameworkEnabled (frameworkId : String) (enabled : Bool)
  | configureControl (controlId : String) (r : ConfigureControlRequest)
  | createCustomControl (r : CreateCustomControlRequest)
  /-- What the checks read changes. -/
  | change (database : Database)
  | run (frameworkId : Option String) (now : Int) (fails : ResolvedControl → Bool)

def perform (digest : String → String) (py : Python) (w : World f) : Request → World f
  | .setFrameworkEnabled frameworkId enabled =>
    (setFrameworkEnabled frameworkId enabled w).toOption.getD w
  | .configureControl controlId r => (configureControl controlId r w).toOption.getD w
  | .createCustomControl r => (createCustomControl r w).toOption.getD w
  | .change database => { w with database }
  | .run frameworkId now fails => (triggerComplianceRun digest py frameworkId now fails w).1

def performs (digest : String → String) (py : Python) (w : World f) (requests : List Request) :
    World f :=
  requests.foldl (perform digest py) w

end Runs

end Sentora.Compliance
