import Mathlib.Data.Sum.Order
import Sentora.Compliance.Documents

/-!
# Compliance checks

The executors of `domains/compliance/checks`.  An executor reads the database, its parameters
and its scope.
-/

namespace Sentora.Compliance

open Lib

/-- `bool(value)`. -/
def truthy : Json → Bool
  | .null => false
  | .bool b => b
  | .int i => i ≠ 0
  | .float x => x.text ≠ "0.0" ∧ x.text ≠ "-0.0"
  | .str s => s ≠ ""
  | .arr xs => !xs.isEmpty
  | .obj ms => !ms.isEmpty

def number : Json → Except Raised Number
  | .bool b => .ok (.bool b)
  | .int i => .ok (.int i)
  | .float x => .ok (.float x)
  | _ => .error .typeError

def mongoNumber : Json → Option Number
  | .int i => some (.int i)
  | .float x => some (.float x)
  | _ => none

/-- What `re.escape` takes. -/
def patternText : Json → Except Raised String
  | .str s => .ok s
  | _ => .error .typeError

/-- What iterating over a value gives. -/
def items : Json → Except Raised (List Json)
  | .str s => .ok (s.toList.map fun c => .str (String.singleton c))
  | .arr xs => .ok xs
  | .obj ms => .ok (ms.map fun m => .str m.1)
  | _ => .error .typeError

def patternTexts (value : Json) : Except Raised (List String) := do
  (← items value).mapM patternText

def versionText : Json → Except Raised String
  | .str s => .ok s
  | _ => .error .attributeError

def ninTexts : Json → Except Raised (List String)
  | .arr xs => .ok (xs.filterMap fun x => match x with | .str s => some s | _ => none)
  | _ => .error .operationFailure

/-- `not_applicable_result`. -/
def notApplicable (evidenceSummary : String := "No agents in scope") : Outcome where
  status := .notApplicable
  totalEndpoints := 0
  compliantEndpoints := 0
  nonCompliantEndpoints := 0
  violations := []
  evidenceSummary := evidenceSummary

/-- An outcome of which some endpoints are not compliant, with no more violations than are
stored. -/
def outcome (status : CheckStatus) (total nonCompliant : Nat)
    (violations : List ComplianceViolation) (evidenceSummary : String) : Outcome where
  status := status
  totalEndpoints := total
  compliantEndpoints := total - nonCompliant
  nonCompliantEndpoints := nonCompliant
  violations := violations.take maxViolations
  evidenceSummary := evidenceSummary

def passedIfNone (nonCompliant : Nat) : CheckStatus := if nonCompliant = 0 then .passed else .failed

/-- `compliant/total` of an evidence summary. -/
def ratio (total nonCompliant : Nat) : String :=
  toString ((total : Int) - nonCompliant) ++ "/" ++ toString total

def agentCount (violations : List ComplianceViolation) : Nat :=
  (violations.map ComplianceViolation.agentId).dedup.length

def agentsIn (db : Database) (scope : ScopeFilter) : List AgentDoc := db.agents.filter scope.selects

def agentIdsIn (db : Database) (scope : ScopeFilter) : List String :=
  (agentsIn db scope).map AgentDoc.sourceId

def hostname (agent : AgentDoc) : String := agent.hostname.getD "unknown"

def installed (agent : AgentDoc) : List String := agent.installedAppNames.getD []

def hostnameOf (db : Database) (agentId : String) : String :=
  ((db.agents.reverse.find? fun agent => agent.sourceId == agentId).map hostname).getD ""

/-- Where `.*` may end. -/
def lineSuffixes : List Char → List (List Char)
  | [] => [[]]
  | c :: cs => (c :: cs) :: if c = '\n' then [] else lineSuffixes cs

/-- Whether characters, and `.*` between them, match at the start of a text. -/
def matchesHere (py : Python) : List (Option Char) → List Char → Bool
  | [], _ => true
  | none :: rest, cs => (lineSuffixes cs).any (matchesHere py rest)
  | some p :: rest, c :: cs => (py.variants p).contains c && matchesHere py rest cs
  | some _ :: _, [] => false

/-- `pattern.search`, with `re.IGNORECASE`. -/
def search (py : Python) (pattern : List (Option Char)) (name : String) : Bool :=
  name.toList.tails.any (matchesHere py pattern)

/-- `re.escape`. -/
def literal (s : String) : List (Option Char) := s.toList.map some

/-- `re.escape`, with each escaped star replaced by `.*`. -/
def starred (s : String) : List (Option Char) :=
  s.toList.map fun c => if c = '*' then none else some c

def agentOnline (py : Python) (now : Int) (db : Database) (parameters : JsonDict)
    (scope : ScopeFilter) : Except Raised Outcome := do
  let maxOfflineDays ← number (parameters.getD "max_offline_days" (.int 7))
  let cutoff ← py.daysBefore now maxOfflineDays
  let days := py.str maxOfflineDays.toJson
  let total := (agentsIn db scope).length
  if total = 0 then return notApplicable
  let violations := (agentsIn db scope).filterMap fun agent =>
    match agent.lastActive with
    | some (.date t) =>
      if t < cutoff then
        some {
          agentId := agent.sourceId
          agentHostname := hostname agent
          violationDetail := "Agent offline since " ++ py.isoformat t ++ " (>" ++ days ++ " days)"
          remediation := "Investigate endpoint " ++ hostname agent ++ " — last check-in " ++
            py.isoformat t }
      else none
    | _ => none
  return outcome (passedIfNone violations.length) total violations.length violations
    (ratio total violations.length ++ " agents active within " ++ days ++ " days. " ++
      toString violations.length ++ " agent(s) stale.")

def versionTuple (py : Python) (version : String) : List Int :=
  (Library.splitOn '.' version).map fun segment => (py.toInt segment).getD 0

def commonVersion (db : Database) (scope : ScopeFilter) : Option String :=
  (sortBy (fun g => OrderDual.toDual g.2.length)
    (groupsBy AgentDoc.agentVersion (agentsIn db scope))).head?.bind Prod.fst

def agentVersion (py : Python) (_now : Int) (db : Database) (parameters : JsonDict)
    (scope : ScopeFilter) : Except Raised Outcome := do
  let total := (agentsIn db scope).length
  if total = 0 then return notApplicable
  let given := parameters.getD "min_version" .null
  let minVersion ←
    if truthy given then some <$> versionText given
    else pure ((commonVersion db scope).filter (· ≠ ""))
  match minVersion with
  | none =>
    return {
      status := .warning
      totalEndpoints := total
      compliantEndpoints := 0
      nonCompliantEndpoints := 0
      violations := []
      evidenceSummary := "Could not determine baseline agent version" }
  | some minVersion =>
    let violations := (agentsIn db scope).filterMap fun agent =>
      (agent.agentVersion.filter (· ≠ "")).bind fun version =>
        if versionTuple py version < versionTuple py minVersion then
          some {
            agentId := agent.sourceId
            agentHostname := hostname agent
            violationDetail := "Agent version " ++ version ++ " is below minimum " ++ minVersion
            remediation := "Update agent on " ++ hostname agent ++ " from " ++ version ++ " to " ++
              minVersion ++ " or later" }
        else none
    return outcome (passedIfNone violations.length) total violations.length violations
      (ratio total violations.length ++ " agents at version " ++ minVersion ++ " or later. " ++
        toString violations.length ++ " agent(s) outdated.")

def versionGroups (db : Database) (scope : ScopeFilter) :
    List ((String × Option String) × List AppDoc) :=
  let selected := db.installedApps.filter fun app => (agentIdsIn db scope).contains app.agentId
  sortBy (fun g => g.1.1) (sortBy (fun g => OrderDual.toDual g.2.length)
    (groupsBy (fun app => (app.normalizedName, app.version)) selected))

def outdated (db : Database) (app : String)
    (versions : List ((String × Option String) × List AppDoc)) : List ComplianceViolation :=
  let top := versions.head?.bind fun g => g.1.2
  (versions.filter fun g => g.1.2 ≠ top).flatMap fun g => g.2.map fun install =>
    { agentId := install.agentId
      agentHostname := hostnameOf db install.agentId
      violationDetail := "'" ++ app ++ "' version " ++ strOf g.1.2 ++
        " installed, fleet standard is " ++ strOf top
      appName := app
      appVersion := g.1.2
      remediation := "Update '" ++ app ++ "' to version " ++ strOf top }

def appVersion (py : Python) (_now : Int) (db : Database) (parameters : JsonDict)
    (scope : ScopeFilter) : Except Raised Outcome := do
  let total := (agentsIn db scope).length
  if total = 0 then return notApplicable
  let violations := (groupsBy (fun g => g.1.1) (versionGroups db scope)).flatMap fun app =>
    if 1 < app.2.length then outdated db app.1 app.2 else []
  let nonCompliant := agentCount violations
  let outdatedPct := py.percent nonCompliant total
  let status ←
    if nonCompliant = 0 then pure CheckStatus.passed
    else do
      let maxOutdatedPct ← number (parameters.getD "max_outdated_percent" (.int 20))
      pure (if py.le outdatedPct maxOutdatedPct then .warning else .failed)
  return outcome status total nonCompliant violations
    (ratio total nonCompliant ++ " endpoints running current app versions. " ++
      toString nonCompliant ++ " endpoint(s) with outdated software (" ++
      py.oneDecimal outdatedPct ++ "%).")

def classificationCoverage (py : Python) (_now : Int) (db : Database) (parameters : JsonDict)
    (scope : ScopeFilter) : Except Raised Outcome := do
  let total := (agentsIn db scope).length
  if total = 0 then return notApplicable
  let classified := db.classificationResults.countP (agentIdsIn db scope).contains
  let coverage := py.percent classified total
  let minClassified ← number (parameters.getD "min_classified_percent" (.int 90))
  let minText := py.str minClassified.toJson
  let unclassified : Int := total - classified
  return {
    status :=
      if py.le minClassified coverage then .passed
      else if py.le (py.fourFifths minClassified) coverage then .warning
      else .failed
    totalEndpoints := total
    compliantEndpoints := classified
    nonCompliantEndpoints := unclassified
    violations :=
      if 0 < unclassified then
        [{ agentId := "aggregate"
           agentHostname := "fleet-wide"
           violationDetail := toString unclassified ++ " agent(s) lack classification results (" ++
             py.oneDecimal coverage ++ "% coverage, minimum " ++ minText ++ "%)"
           remediation := "Run a classification sweep to classify unprocessed agents" }]
      else []
    evidenceSummary := toString classified ++ "/" ++ toString total ++ " agents classified (" ++
      py.oneDecimal coverage ++ "% coverage, threshold " ++ minText ++ "%)" }

def unclassifiedApps (py : Python) (classified : List String) (maxUnclassified : Json)
    (agent : AgentDoc) : Except Raised (List ComplianceViolation) := do
  let apps := installed agent
  if apps.isEmpty then return []
  let unclassified := apps.countP fun app => !classified.contains app
  let share := py.percent unclassified apps.length
  let limit ← number maxUnclassified
  if py.lt limit share then
    return [{
      agentId := agent.sourceId
      agentHostname := hostname agent
      violationDetail := toString unclassified ++ "/" ++ toString apps.length ++
        " apps unclassified (" ++ py.oneDecimal share ++ "%, threshold " ++
        py.str limit.toJson ++ "%)"
      remediation := "Review and classify unrecognised applications on this endpoint" }]
  else return []

def unclassifiedThreshold (py : Python) (_now : Int) (db : Database) (parameters : JsonDict)
    (scope : ScopeFilter) : Except Raised Outcome := do
  let total := (agentsIn db scope).length
  if total = 0 then return notApplicable
  let classified := (db.appSummaries.filter fun d => d.category.any (· ≠ "")).map
    Agents.AppSummary.normalizedName
  let maxUnclassified := parameters.getD "max_unclassified_percent" (.int 10)
  let found ← (agentsIn db scope).mapM (unclassifiedApps py classified maxUnclassified)
  let violations := found.flatten
  let nonCompliant := agentCount violations
  return outcome (passedIfNone nonCompliant) total nonCompliant violations
    (ratio total nonCompliant ++ " endpoints below " ++ py.str maxUnclassified ++
      "% unclassified app threshold. " ++ toString nonCompliant ++
      " endpoint(s) exceed threshold.")

def deltaDetection (py : Python) (now : Int) (db : Database) (parameters : JsonDict)
    (scope : ScopeFilter) : Except Raised Outcome := do
  let lookbackHours ← number (parameters.getD "lookback_hours" (.int 24))
  let cutoff ← py.hoursBefore now lookbackHours
  let total := (agentsIn db scope).length
  if total = 0 then return notApplicable
  let newApps := db.installedApps.filter fun app =>
    (match app.lastSyncedAt with
      | some (.date t) => decide (cutoff ≤ t)
      | _ => false) &&
    (scope == .all || (agentIdsIn db scope).contains app.agentId)
  let byAgent := (sortBy (fun g => OrderDual.toDual g.2.length)
    (groupsBy AppDoc.agentId newApps)).take 100
  let violations := byAgent.flatMap fun g => (g.2.take 10).map fun app =>
    { agentId := g.1
      agentHostname := hostnameOf db g.1
      violationDetail := "New application detected: '" ++ app.normalizedName ++ "' v" ++
        strOf app.version
      appName := app.normalizedName
      appVersion := app.version
      remediation := "Review and classify '" ++ app.normalizedName ++ "' on " ++
        hostnameOf db g.1 }
  return outcome (if newApps.isEmpty then .passed else .warning) total byAgent.length violations
    (toString newApps.length ++ " new application(s) detected across " ++
      toString byAgent.length ++ " endpoint(s) in the last " ++ py.str lookbackHours.toJson ++
      "h. " ++ ratio total byAgent.length ++ " endpoints unchanged.")

def customAppPresence (py : Python) (_now : Int) (db : Database) (parameters : JsonDict)
    (scope : ScopeFilter) : Except Raised Outcome := do
  let given := parameters.getD "app_pattern" (.str "")
  let mustExist := truthy (parameters.getD "must_exist" (.bool true))
  if !truthy given then
    return notApplicable ("No app_pattern configured — configure this control in " ++
      "Compliance > Settings to specify the application to check")
  let total := (agentsIn db scope).length
  if total = 0 then return notApplicable
  let pattern ← patternText given
  let violations := (agentsIn db scope).flatMap fun agent =>
    let found := (installed agent).filter (search py (starred pattern))
    if mustExist then
      if found.isEmpty then
        [{ agentId := agent.sourceId
           agentHostname := hostname agent
           violationDetail := "Required application matching '" ++ pattern ++ "' not found"
           appName := pattern
           remediation := "Install an application matching '" ++ pattern ++ "' on " ++
             hostname agent }]
      else []
    else
      found.map fun name =>
        { agentId := agent.sourceId
          agentHostname := hostname agent
          violationDetail := "Disallowed application '" ++ name ++ "' found (matches pattern '" ++
            pattern ++ "')"
          appName := name
          remediation := "Remove '" ++ name ++ "' from " ++ hostname agent }
  let nonCompliant := agentCount violations
  return outcome (passedIfNone nonCompliant) total nonCompliant violations
    (ratio total nonCompliant ++ " endpoints: '" ++ pattern ++ "' is " ++
      (if mustExist then "present" else "absent") ++ ". " ++ toString nonCompliant ++
      " non-compliant endpoint(s).")

def missingApps (py : Python) (required : List String) (agent : AgentDoc) :
    List ComplianceViolation :=
  (required.filter fun app => !(installed agent).any (search py (literal app))).map fun app =>
    { agentId := agent.sourceId
      agentHostname := hostname agent
      violationDetail := "Required application '" ++ app ++ "' not found"
      appName := app
      remediation := "Install '" ++ app ++ "' on endpoint " ++ hostname agent }

def requiredApp (py : Python) (_now : Int) (db : Database) (parameters : JsonDict)
    (scope : ScopeFilter) : Except Raised Outcome := do
  let given := parameters.getD "required_apps" (.arr [])
  if !truthy given then return notApplicable "No required applications configured"
  let total := (agentsIn db scope).length
  if total = 0 then return notApplicable
  let required ← patternTexts given
  let violations := (agentsIn db scope).flatMap (missingApps py required)
  let nonCompliant := agentCount violations
  return outcome (passedIfNone nonCompliant) total nonCompliant violations
    (ratio total nonCompliant ++ " endpoints have all " ++ toString required.length ++
      " required application(s). " ++ toString (violations.take maxViolations).length ++
      " missing installation(s) across " ++ toString nonCompliant ++ " endpoint(s).")

def prohibitedApp (py : Python) (_now : Int) (db : Database) (_parameters : JsonDict)
    (scope : ScopeFilter) : Except Raised Outcome := do
  let total := (agentsIn db scope).length
  if total = 0 then return notApplicable
  let prohibited := ((db.installedApps.filter fun app => app.riskLevel == some "prohibited").take
    10000).map AppDoc.normalizedName
  if prohibited.isEmpty then
    return outcome .passed total 0 []
      (toString total ++ "/" ++ toString total ++ " endpoints free of prohibited software.")
  let violations := (agentsIn db scope).flatMap fun agent =>
    ((installed agent).filter fun name =>
      (prohibited.map py.lower).contains (py.lower name)).map fun name =>
        { agentId := agent.sourceId
          agentHostname := hostname agent
          violationDetail := "Prohibited application '" ++ name ++ "' installed"
          appName := name
          remediation := "Uninstall '" ++ name ++ "' from endpoint " ++ hostname agent }
  let nonCompliant := agentCount violations
  return outcome (passedIfNone nonCompliant) total nonCompliant violations
    (ratio total nonCompliant ++ " endpoints free of prohibited software. " ++
      toString (violations.take maxViolations).length ++ " violation(s) found on " ++
      toString nonCompliant ++ " endpoint(s).")

/-- The violation of `sync_freshness`. -/
def staleData (detail remediation : String) : ComplianceViolation where
  agentId := "system"
  agentHostname := "sentora"
  violationDetail := detail
  remediation := remediation

/-- The place of a time in the order of MongoDB, where a text is before a date. -/
def Stamp.order : Stamp → String ⊕ₗ Int
  | .text s => Sum.inlₗ s
  | .date t => Sum.inrₗ t

def latestSync (db : Database) : Option SyncRunDoc :=
  (sortBy (fun run => OrderDual.toDual
      (run.completedAt.elim ⊥ fun t => (t.order : WithBot (String ⊕ₗ Int))))
    (db.syncRuns.filter fun run => run.status == "completed")).head?

def ensureUtc : Option Stamp → Except Raised Int
  | some (.date t) => .ok t
  | _ => .error .attributeError

def syncFreshness (py : Python) (now : Int) (db : Database) (parameters : JsonDict)
    (scope : ScopeFilter) : Except Raised Outcome := do
  let maxHours ← number (parameters.getD "max_hours_since_sync" (.int 24))
  let cutoff ← py.hoursBefore now maxHours
  let hours := py.str maxHours.toJson
  match latestSync db with
  | none =>
    return outcome .failed 1 1
      [staleData "No successful data sync has ever completed"
        "Trigger a full data sync from the Sync page"]
      "No completed sync runs found — data inventory not populated"
  | some run =>
    let completedAt ← ensureUtc run.completedAt
    if cutoff ≤ completedAt then
      return outcome .passed 1 0 []
        ("Last sync completed at " ++ py.isoformat completedAt ++ " (within " ++ hours ++
          "h window). " ++ toString (agentsIn db scope).length ++ " agents in inventory.")
    else
      let age := py.oneDecimal (py.hoursBetween now completedAt)
      return outcome .failed 1 1
        [staleData ("Data is " ++ age ++ "h old (threshold: " ++ hours ++ "h)")
          "Trigger a data sync to refresh the inventory"]
        ("Last sync completed " ++ age ++ "h ago at " ++ py.isoformat completedAt ++
          " — exceeds " ++ hours ++ "h threshold")

def installedCycle (py : Python) (version : Option String) (cycles : List Eol.EOLCycle) :
    Option Eol.EOLCycle :=
  Eol.extractCycleMatch py.isDecimal (Agents.orUnknown version) cycles

def mappedProduct (py : Python) (minConfidence : Option Number) (excluded : List String)
    (allCycles : Eol.Products) (summaries : List Agents.AppSummary) (app : String) :
    Option (String × String × List Eol.EOLCycle) :=
  (summaries.reverse.filter fun d => d.normalizedName == app).findSome? fun d =>
    d.eolMatch.bind fun m =>
      if minConfidence.any (fun c => py.le c (py.ofRat m.matchConfidence)) &&
          (m.matchSource = .cpe || m.matchSource = .manual) && !excluded.contains m.eolProductId
      then (allCycles.lookup m.eolProductId).map fun cycles =>
        (m.eolProductId, d.displayName, cycles)
      else none

def endOfLife (py : Python) (db : Database) (product displayName version : String)
    (cycle : Eol.EOLCycle) (agentId : String) : ComplianceViolation :=
  let since := (cycle.eolDate.map py.isoDate).getD "unknown"
  { agentId := agentId
    agentHostname := hostnameOf db agentId
    violationDetail := "'" ++ displayName ++ "' version " ++ version ++ " is End-of-Life since " ++
      since ++ ". No security patches are available."
    appName := displayName
    appVersion := version
    remediation := "Upgrade " ++ displayName ++ " to a supported version. Current version " ++
      version ++ " reached End-of-Life on " ++ since ++ ". See https://endoflife.date/" ++
      product ++ " for supported versions." }

def securityOnly (py : Python) (db : Database) (product displayName version : String)
    (cycle : Eol.EOLCycle) (agentId : String) : ComplianceViolation :=
  let since := (cycle.supportEnd.map py.isoDate).getD "unknown"
  { agentId := agentId
    agentHostname := hostnameOf db agentId
    violationDetail := "'" ++ displayName ++ "' version " ++ version ++
      " is in security-only support since " ++ since ++ ". Active support has ended."
    appName := displayName
    appVersion := version
    remediation := "Consider upgrading " ++ displayName ++
      " to a fully supported version. Active support ended on " ++ since ++
      ". See https://endoflife.date/" ++ product ++ " for supported versions." }

def evaluateInstall (py : Python) (db : Database) (flagSecurityOnly : Bool)
    (mapped : String → Option (String × String × List Eol.EOLCycle)) (install : AppDoc) :
    Option (String × Bool × ComplianceViolation) := do
  let (product, displayName, cycles) ← mapped install.normalizedName
  let cycle ← installedCycle py install.version cycles
  let version := Agents.orUnknown install.version
  if cycle.isEol then
    some (install.normalizedName, true,
      endOfLife py db product displayName version cycle install.agentId)
  else if flagSecurityOnly && cycle.isSecurityOnly then
    some (install.normalizedName, false,
      securityOnly py db product displayName version cycle install.agentId)
  else none

def eolSoftware (py : Python) (now : Int) (db : Database) (parameters : JsonDict)
    (scope : ScopeFilter) : Except Raised Outcome := do
  let flagSecurityOnly := truthy (parameters.getD "flag_security_only" (.bool true))
  let minConfidence := mongoNumber (parameters.getD "min_match_confidence"
    (.float ⟨"0.8", by decide⟩))
  let given := parameters.getD "exclude_products" (.arr [])
  let total := (agentsIn db scope).length
  if total = 0 then return notApplicable
  let allCycles := Eol.getAllProductsWithCycles db.eolProducts (py.today now)
  let excluded ← if truthy given then ninTexts given else pure []
  let mapped := mappedProduct py minConfidence excluded allCycles db.appSummaries
  if db.appSummaries.all fun d => (mapped d.normalizedName).isNone then
    return outcome .passed total 0 []
      ("No End-of-Life software detected across " ++ toString total ++ " endpoints.")
  let installs := (db.installedApps.filter fun app =>
    (agentIdsIn db scope).contains app.agentId && (mapped app.normalizedName).isSome)
  let ended := (firstOfEach (fun app => (app.agentId, app.normalizedName)) installs).filterMap
    (evaluateInstall py db flagSecurityOnly mapped)
  let nonCompliant := agentCount (ended.map fun e => e.2.2)
  let appsOf := fun isEol => ((ended.filter fun e => e.2.1 == isEol).map Prod.fst).dedup.length
  return outcome (passedIfNone nonCompliant) total nonCompliant (ended.map fun e => e.2.2)
    (toString nonCompliant ++ "/" ++ toString total ++ " endpoints have End-of-Life software. " ++
      toString (appsOf true) ++ " EOL application(s) detected." ++
      if flagSecurityOnly && decide (0 < appsOf false) then
        " " ++ toString (appsOf false) ++ " application(s) in security-only support."
      else "")

abbrev Executor :=
  Python → Int → Database → JsonDict → ScopeFilter → Except Raised Outcome

def registry : List (String × Executor) :=
  [("prohibited_app_check", prohibitedApp), ("required_app_check", requiredApp),
    ("agent_version_check", agentVersion), ("agent_online_check", agentOnline),
    ("app_version_check", appVersion), ("sync_freshness_check", syncFreshness),
    ("classification_coverage_check", classificationCoverage),
    ("unclassified_threshold_check", unclassifiedThreshold),
    ("delta_detection_check", deltaDetection), ("custom_app_presence_check", customAppPresence),
    ("eol_software_check", eolSoftware)]

def getExecutor (checkType : String) : Option Executor := registry.lookup checkType

end Sentora.Compliance
