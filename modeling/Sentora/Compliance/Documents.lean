import Sentora.Eol.Matching
import Sentora.Lib.JsonDict

/-!
# Compliance documents

`domains/compliance/entities.py`, what the checks read of the database, and what they use of
Python.  Instants are counted in milliseconds.
-/

namespace Sentora.Compliance

open Lib

inductive ControlSeverity where
  | critical
  | high
  | medium
  | low
deriving DecidableEq

inductive CheckStatus where
  | passed
  | failed
  | warning
  | error
  | notApplicable
deriving DecidableEq

/-- A control of a framework.  A custom control has the same fields. -/
structure ControlDefinition where
  id : String
  frameworkId : String
  name : String
  category : String
  severity : ControlSeverity
  checkType : String
  parameters : JsonDict := .empty
  scopeTags : List String := []
  scopeGroups : List String := []

structure ControlConfiguration where
  controlId : String
  frameworkId : String
  enabled : Bool := true
  severityOverride : Option ControlSeverity := none
  parametersOverride : JsonDict := .empty
  scopeTagsOverride : Option (List String) := none
  scopeGroupsOverride : Option (List String) := none

structure ComplianceViolation where
  agentId : String
  agentHostname : String
  violationDetail : String
  appName : Option String := none
  appVersion : Option String := none
  remediation : String := ""
deriving DecidableEq

structure Finding where
  status : CheckStatus
  totalEndpoints : Int
  compliantEndpoints : Int
  nonCompliantEndpoints : Int
  violations : List ComplianceViolation
deriving DecidableEq

structure Outcome extends Finding where
  evidenceSummary : String
deriving DecidableEq

structure CheckResult extends Outcome where
  controlId : String
  frameworkId : String
  severity : ControlSeverity
  category : String
  controlName : String
  checkedAt : Int
deriving DecidableEq

def maxViolations : Nat := 10000

inductive Stamp where
  | text (s : String)
  | date (t : Int)
deriving DecidableEq

structure AgentDoc where
  sourceId : String
  hostname : Option String := none
  tags : List String := []
  groupName : Option String := none
  agentVersion : Option String := none
  lastActive : Option Stamp := none
  installedAppNames : Option (List String) := none
deriving DecidableEq

structure AppDoc where
  agentId : String
  normalizedName : String
  version : Option String := none
  riskLevel : Option String := none
  lastSyncedAt : Option Stamp := none
  active : Option Bool := none
deriving DecidableEq

/-- `active: {"$ne": False}`. -/
def AppDoc.isActive (d : AppDoc) : Bool := d.active != some false

structure SyncRunDoc where
  status : String
  completedAt : Option Stamp := none
deriving DecidableEq

/-- What the checks read.  Of a classification result it is the agent. -/
structure Database where
  agents : List AgentDoc := []
  installedApps : List AppDoc := []
  appSummaries : List Agents.AppSummary := []
  classificationResults : List String := []
  syncRuns : List SyncRunDoc := []
  eolProducts : List Eol.ProductDoc := []

inductive ScopeFilter where
  | all
  | tagsIn (tags : List String)
  | groupNameIn (groups : List String)
  | both (tags groups : List String)
deriving DecidableEq

def buildScopeFilter (scopeTags scopeGroups : List String) : ScopeFilter :=
  match scopeTags, scopeGroups with
  | [], [] => .all
  | tags, [] => .tagsIn tags
  | [], groups => .groupNameIn groups
  | tags, groups => .both tags groups

namespace ScopeFilter

def tagCondition (tags : List String) : Json :=
  .obj [("tags", .obj [("$in", .arr (tags.map .str))])]

def groupCondition (groups : List String) : Json :=
  .obj [("group_name", .obj [("$in", .arr (groups.map .str))])]

def toJson : ScopeFilter → Json
  | .all => .obj []
  | .tagsIn tags => tagCondition tags
  | .groupNameIn groups => groupCondition groups
  | .both tags groups => .obj [("$and", .arr [tagCondition tags, groupCondition groups])]

def hasTag (tags : List String) (agent : AgentDoc) : Bool := agent.tags.any tags.contains

def hasGroup (groups : List String) (agent : AgentDoc) : Bool :=
  agent.groupName.any groups.contains

def selects : ScopeFilter → AgentDoc → Bool
  | .all, _ => true
  | .tagsIn tags, agent => hasTag tags agent
  | .groupNameIn groups, agent => hasGroup groups agent
  | .both tags groups, agent => hasTag tags agent && hasGroup groups agent

end ScopeFilter

/-- A number, which for Python may be a truth value. -/
inductive Number where
  | bool (b : Bool)
  | int (i : Int)
  | float (x : FloatLit)
deriving DecidableEq

inductive Raised where
  | typeError
  | attributeError
  | valueError
  | overflowError
  | operationFailure
deriving DecidableEq

/-- Functions of `str`, of numbers and of dates, and the texts of values and exceptions. -/
structure Python extends Eol.Python where
  variants : Char → List Char
  toInt : String → Option Int
  str : Json → String
  message : Raised → String
  le : Number → Number → Bool
  lt : Number → Number → Bool
  /-- `a / b * 100`. -/
  percent : Nat → Nat → Number
  /-- `x * 0.8`. -/
  fourFifths : Number → Number
  ofRat : Rat → Number
  oneDecimal : Number → String
  /-- `now - timedelta(days=x)`. -/
  daysBefore : Int → Number → Except Raised Int
  hoursBefore : Int → Number → Except Raised Int
  /-- `(now - t).total_seconds() / 3600`. -/
  hoursBetween : Int → Int → Number
  isoformat : Int → String
  isoDate : Nat → String
  today : Int → Nat

def Number.toJson : Number → Json
  | .bool b => .bool b
  | .int i => .int i
  | .float x => .float x

/-- `str` of a text or of `None`. -/
def strOf (s : Option String) : String := s.getD "None"

/-- Texts without letters of two cases, and no arithmetic. -/
def plainPython : Python where
  toPython := ⟨⟨⟨id, fun a b => a == b⟩, id, id, fun s => [s]⟩, Char.isDigit⟩
  variants c := [c]
  toInt := String.toInt?
  str _ := ""
  message _ := ""
  le _ _ := true
  lt _ _ := true
  percent _ _ := .int 0
  fourFifths x := x
  ofRat _ := .int 0
  oneDecimal _ := ""
  daysBefore now _ := .ok now
  hoursBefore now _ := .ok now
  hoursBetween _ _ := .int 0
  isoformat _ := ""
  isoDate _ := ""
  today _ := 0

/-- The same, with days and hours of whole numbers, and the days since the epoch. -/
def clockPython : Python :=
  { plainPython with
    daysBefore := fun now x =>
      match x with
      | .int days => .ok (now - 86400000 * days)
      | _ => .error .overflowError
    hoursBefore := fun now x =>
      match x with
      | .int hours => .ok (now - 3600000 * hours)
      | _ => .error .overflowError
    today := fun now => (now / 86400000).toNat }

def bareDatabase : Database where
  agents := [{ sourceId := "7", hostname := some "laptop" }]

end Sentora.Compliance
