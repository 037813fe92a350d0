import Mathlib.Algebra.GroupWithZero.Nat
import Mathlib.Algebra.Order.BigOperators.Group.Finset
import Sentora.Enforcement.Engine
import Sentora.Lib.Tables

/-!
# The enforcement service

`domains/enforcement/service.py` over the collections of `repository.py`, one request
after another.  The ids of new rules are given, and results stand in the order of the runs
that stored them.
-/

namespace Sentora.Enforcement

open Lib

structure World where
  taxonomy : Taxonomy.TaxonomyStore
  agents : List Sync.AgentDoc
  rules : Collection EnforcementRule.id
  /-- `enforcement_results`. -/
  results : List EnforcementResult

/-- Without rules and results. -/
def World.initial (taxonomy : Taxonomy.TaxonomyStore) (agents : List Sync.AgentDoc) : World where
  taxonomy := taxonomy
  agents := agents
  rules := .empty
  results := []

/-- `list_rules`, newest first. -/
def listRules (enabledOnly : Bool) (w : World) : List EnforcementRule :=
  (w.rules.docs.filter fun rule => !enabledOnly || rule.enabled).reverse

theorem mem_listRules {enabledOnly : Bool} {w : World} {rule : EnforcementRule} :
    rule ∈ listRules enabledOnly w ↔
      rule ∈ w.rules ∧ (enabledOnly = true → rule.enabled = true) := by
  unfold listRules
  rw [List.mem_reverse, List.mem_filter]
  cases enabledOnly with
  | false => simp [Collection.mem_def]
  | true => simp [Collection.mem_def]

def getRule (ruleId : String) (w : World) : Option EnforcementRule := w.rules.get ruleId

inductive EnforcementFailure where
  | invalidTaxonomyCategory (message : String)
  | valueError (message : String)
deriving DecidableEq

def RuleType.value : RuleType → String
  | .required => "required"
  | .forbidden => "forbidden"
  | .allowlist => "allowlist"

def Severity.value : Severity → String
  | .critical => "critical"
  | .high => "high"
  | .medium => "medium"
  | .low => "low"

def toRuleType (value : String) : Except EnforcementFailure RuleType :=
  match [RuleType.required, .forbidden, .allowlist].find? fun type => type.value == value with
  | some type => .ok type
  | none => .error (.valueError ("'" ++ value ++ "' is not a valid RuleType"))

def toSeverity (value : String) : Except EnforcementFailure Severity :=
  match [Severity.critical, .high, .medium, .low].find? fun s => s.value == value with
  | some severity => .ok severity
  | none => .error (.valueError ("'" ++ value ++ "' is not a valid Severity"))

structure CreateRuleRequest where
  id : String
  name : String
  taxonomyCategoryId : String
  type : String
  severity : String
  scopeGroups : List String := []
  scopeTags : List String := []
deriving DecidableEq

def createRule (r : CreateRuleRequest) (w : World) : Except EnforcementFailure World := do
  if (Taxonomy.getCategory r.taxonomyCategoryId w.taxonomy).isNone then
    throw (.invalidTaxonomyCategory
      ("Taxonomy category '" ++ r.taxonomyCategoryId ++ "' does not exist"))
  let type ← toRuleType r.type
  let severity ← toSeverity r.severity
  let rule : EnforcementRule :=
    { id := r.id, name := r.name, taxonomyCategoryId := r.taxonomyCategoryId, type, severity
      scopeGroups := r.scopeGroups, scopeTags := r.scopeTags }
  pure { w with rules := (w.rules.insertOne rule).getD w.rules }

theorem of_createRule {r : CreateRuleRequest} {w w' : World} (h : createRule r w = .ok w') :
    w'.results = w.results ∧ ∀ rule ∈ w.rules, rule ∈ w'.rules := by
  unfold createRule at h
  by_cases hcategory : (Taxonomy.getCategory r.taxonomyCategoryId w.taxonomy).isNone = true
  · rw [if_pos hcategory] at h
    cases h
  · rw [if_neg hcategory] at h
    cases htype : toRuleType r.type with
    | error e =>
      rw [htype] at h
      cases h
    | ok type =>
      cases hseverity : toSeverity r.severity with
      | error e =>
        rw [htype, hseverity] at h
        cases h
      | ok severity =>
        rw [htype, hseverity] at h
        obtain rfl := Except.ok.inj h
        refine ⟨rfl, fun rule hrule => ?_⟩
        show rule ∈ (w.rules.insertOne _).getD w.rules
        cases hinsert : w.rules.insertOne _ with
        | none => exact hrule
        | some rules => exact (Collection.mem_insertOne hinsert).mpr (Or.inl hrule)

structure UpdateRuleRequest where
  name : Option String := none
  taxonomyCategoryId : Option String := none
  type : Option String := none
  severity : Option String := none
  scopeGroups : Option (List String) := none
  scopeTags : Option (List String) := none
deriving DecidableEq

/-- `update_one({"_id": …}, {"$set": …})`, which leaves the id. -/
def World.modifyRule (w : World) (ruleId : String) (f : EnforcementRule → EnforcementRule)
    (hid : ∀ rule, (f rule).id = rule.id) : World :=
  { w with rules := w.rules.updateOne (fun rule => rule.id == ruleId) f hid }

theorem mem_modifyRule {w : World} {ruleId : String} {f : EnforcementRule → EnforcementRule}
    {hid : ∀ rule, (f rule).id = rule.id} {rule : EnforcementRule} :
    rule ∈ (w.modifyRule ruleId f hid).rules ↔
      ∃ old ∈ w.rules, (if old.id = ruleId then f old else old) = rule := by
  have hone : ∀ d ∈ w.rules, ∀ e ∈ w.rules, (d.id == ruleId) = true → (e.id == ruleId) = true →
      d = e := fun d hd e he hid hid' =>
    w.rules.eq_of_key hd he ((beq_iff_eq.mp hid).trans (beq_iff_eq.mp hid').symm)
  have hmem := @Collection.mem_updateOne_iff EnforcementRule String EnforcementRule.id w.rules rule
    (fun rule => rule.id == ruleId) f hid hone
  simp only [beq_iff_eq] at hmem
  exact hmem

/-- `update_rule_fields`, which checks the values of the enumerations. -/
def updateRuleFields (ruleId : String) (r : UpdateRuleRequest) (w : World) :
    Except EnforcementFailure World := do
  let type ← r.type.mapM toRuleType
  let severity ← r.severity.mapM toSeverity
  pure (w.modifyRule ruleId (fun rule => { rule with
    name := r.name.getD rule.name
    taxonomyCategoryId := r.taxonomyCategoryId.getD rule.taxonomyCategoryId
    type := type.getD rule.type
    severity := severity.getD rule.severity
    scopeGroups := r.scopeGroups.getD rule.scopeGroups
    scopeTags := r.scopeTags.getD rule.scopeTags }) fun _ => rfl)

theorem of_updateRuleFields {r : UpdateRuleRequest} {ruleId : String} {w w' : World}
    (h : updateRuleFields ruleId r w = .ok w') :
    ∃ (f : EnforcementRule → EnforcementRule) (hid : ∀ rule, (f rule).id = rule.id),
      (∀ rule, (f rule).enabled = rule.enabled) ∧ w.modifyRule ruleId f hid = w' := by
  unfold updateRuleFields at h
  cases htype : r.type.mapM toRuleType with
  | error e =>
    rw [htype] at h
    cases h
  | ok type =>
    cases hseverity : r.severity.mapM toSeverity with
    | error e =>
      rw [htype, hseverity] at h
      cases h
    | ok severity =>
      rw [htype, hseverity] at h
      have heq := Except.ok.inj h
      refine ⟨_, _, ?_, heq⟩
      intro rule
      rfl

def toggleRule (ruleId : String) (w : World) : World :=
  match getRule ruleId w with
  | none => w
  | some rule =>
    w.modifyRule ruleId (fun doc => { doc with enabled := !rule.enabled }) fun _ => rfl

/-- `remove_rule`, which leaves the results. -/
def removeRule (ruleId : String) (w : World) : World :=
  { w with rules := w.rules.deleteMany fun rule => rule.id == ruleId }

/-- `get_latest_results`: of each rule the result that was stored last. -/
def latestResults (results : List EnforcementResult) : List EnforcementResult :=
  latest EnforcementResult.ruleId results

def rulesToCheck (ruleId : Option String) (w : World) : List EnforcementRule :=
  match ruleId.filter (· ≠ "") with
  | some id => (getRule id w).toList
  | none => listRules true w

/-- `run_enforcement_checks`, but for the storing. -/
def runEnforcementChecks (t : Taxonomy.CaseText) (ruleId : Option String) (w : World) :
    List EnforcementResult :=
  (rulesToCheck ruleId w).map (evaluateRule t w.taxonomy.entries.docs w.agents)

/-- A key `rule_id:agent_id`.  The id of a rule has no colon. -/
abbrev ViolationKey := String × String

def violationKeys (results : List EnforcementResult) : Finset ViolationKey :=
  (results.flatMap fun r => r.violations.map fun v => (r.ruleId, v.agentId)).toFinset

structure CheckRun where
  results : List EnforcementResult
  newViolations : Finset ViolationKey
  resolvedViolations : Finset ViolationKey

def triggerCheck (t : Taxonomy.CaseText) (ruleId : Option String) (w : World) :
    World × CheckRun :=
  let previous := violationKeys (latestResults w.results)
  let results := runEnforcementChecks t ruleId w
  let current := violationKeys results
  ({ w with results := w.results ++ results }, ⟨results, current \ previous, previous \ current⟩)

structure CheckRunResponse where
  rulesEvaluated : Nat
  passed : Nat
  failed : Nat
  totalViolations : Nat
deriving DecidableEq

def totalViolations (results : List EnforcementResult) : Nat :=
  (results.map fun r => r.violations.length).sum

def CheckRun.response (run : CheckRun) : CheckRunResponse where
  rulesEvaluated := run.results.length
  passed := run.results.countP fun r => r.status == .passed
  failed := run.results.countP fun r => r.status == .failed
  totalViolations := totalViolations run.results

/-- What `enforcement.violation.new` or `enforcement.violation.resolved` has for a rule. -/
structure ViolationEvent where
  eventType : String
  ruleId : String
  ruleName : String
  severity : String
  affectedAgents : Nat
  topHostnames : List String
deriving DecidableEq

def topHostnames (affected : EnforcementViolation → Bool) :
    List String → List EnforcementViolation → List String
  | hostnames, [] => hostnames
  | hostnames, v :: rest =>
    let hostnames :=
      if affected v ∧ v.agentHostname ∉ hostnames then hostnames ++ [v.agentHostname] else hostnames
    if 5 ≤ hostnames.length then hostnames else topHostnames affected hostnames rest

def violationEvent (results : List EnforcementResult) (keys : Finset ViolationKey)
    (eventType ruleId : String) : ViolationEvent :=
  let ruleResult := results.find? fun r => r.ruleId == ruleId
  { eventType := "enforcement.violation." ++ eventType
    ruleId := ruleId
    ruleName := ruleResult.elim ruleId EnforcementResult.ruleName
    severity := ruleResult.elim "medium" fun r => r.severity.value
    affectedAgents := (keys.filter fun key => key.1 = ruleId).card
    topHostnames := ruleResult.elim [] fun r =>
      topHostnames (fun v => (ruleId, v.agentId) ∈ keys) [] r.violations }

/-- `_dispatch_violation_webhook`: an event for each rule. -/
def violationEvents (results : List EnforcementResult) (keys : Finset ViolationKey)
    (eventType : String) : Finset ViolationEvent :=
  (keys.image Prod.fst).image (violationEvent results keys eventType)

structure Summary where
  totalRules : Nat
  enabledRules : Nat
  passing : Nat
  failing : Nat
  totalViolations : Nat
  bySeverity : List (Severity × Nat)
deriving DecidableEq

def bySeverity (results : List EnforcementResult) : List (Severity × Nat) :=
  let failing := results.filter fun r => r.status == .failed
  (failing.map EnforcementResult.severity).dedup.map fun s =>
    (s, totalViolations (failing.filter fun r => r.severity == s))

def getSummary (w : World) : Summary where
  totalRules := (listRules false w).length
  enabledRules := (listRules false w).countP EnforcementRule.enabled
  passing := (latestResults w.results).countP fun r => r.status == .passed
  failing := (latestResults w.results).countP fun r => r.status == .failed
  totalViolations := totalViolations (latestResults w.results)
  bySeverity := bySeverity (latestResults w.results)

structure ViolationDetail where
  ruleId : String
  ruleName : String
  ruleType : RuleType
  severity : Severity
  violation : EnforcementViolation
deriving DecidableEq

def EnforcementResult.details (r : EnforcementResult) : List ViolationDetail :=
  r.violations.map fun v => ⟨r.ruleId, r.ruleName, r.ruleType, r.severity, v⟩

/-- `get_all_current_violations`, all pages together. -/
def currentViolations (severity : Option Severity) (w : World) : List ViolationDetail :=
  ((latestResults w.results).filter fun r =>
    r.status == .failed && severity.all fun s => r.severity == s).flatMap EnforcementResult.details

section Runs

variable {t : Taxonomy.CaseText} {ruleId : Option String} {w : World} {rule : EnforcementRule}

theorem mem_of_mem_rulesToCheck (h : rule ∈ rulesToCheck ruleId w) : rule ∈ w.rules := by
  unfold rulesToCheck at h
  split at h
  · exact (Collection.get_eq_some_iff.mp (Option.mem_toList.mp h)).1
  · exact (mem_listRules.mp h).1

theorem nodup_rulesToCheck : ((rulesToCheck ruleId w).map EnforcementRule.id).Nodup := by
  unfold rulesToCheck
  split
  · rename_i id _
    cases getRule id w with
    | none => exact List.nodup_nil
    | some rule => exact List.nodup_singleton _
  · unfold listRules
    rw [List.map_reverse, List.nodup_reverse]
    exact w.rules.distinct.sublist (List.filter_sublist.map _)

theorem ruleIds_runEnforcementChecks :
    (runEnforcementChecks t ruleId w).map EnforcementResult.ruleId =
      (rulesToCheck ruleId w).map EnforcementRule.id := by
  unfold runEnforcementChecks
  rw [List.map_map]
  exact List.map_congr_left fun rule _ => ruleId_evaluateRule

theorem latestResults_triggerCheck :
    latestResults (triggerCheck t ruleId w).1.results =
      (latestResults w.results).filter
          (fun r => r.ruleId ∉ (rulesToCheck ruleId w).map EnforcementRule.id) ++
        runEnforcementChecks t ruleId w := by
  show latest EnforcementResult.ruleId (w.results ++ runEnforcementChecks t ruleId w) = _
  rw [latest_append, ruleIds_runEnforcementChecks]
  congr 1
  apply latest_eq_self
  rw [ruleIds_runEnforcementChecks]
  exact nodup_rulesToCheck

end Runs

inductive Request where
  | createRule (r : CreateRuleRequest)
  | updateRule (ruleId : String) (r : UpdateRuleRequest)
  | toggleRule (ruleId : String)
  | removeRule (ruleId : String)
  | triggerCheck (ruleId : Option String)
  /-- What others make of the taxonomy and the fleet. -/
  | change (taxonomy : Taxonomy.TaxonomyStore) (agents : List Sync.AgentDoc)

def perform (t : Taxonomy.CaseText) (w : World) : Request → World
  | .createRule r => (createRule r w).toOption.getD w
  | .updateRule ruleId r => (updateRuleFields ruleId r w).toOption.getD w
  | .toggleRule ruleId => toggleRule ruleId w
  | .removeRule ruleId => removeRule ruleId w
  | .triggerCheck ruleId => (triggerCheck t ruleId w).1
  | .change taxonomy agents => { w with taxonomy, agents }

def performs (t : Taxonomy.CaseText) (w : World) (requests : List Request) : World :=
  requests.foldl (perform t) w

end Sentora.Enforcement
