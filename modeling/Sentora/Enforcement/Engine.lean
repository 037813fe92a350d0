import Mathlib.Data.List.Dedup
import Sentora.Sync.Documents
import Sentora.Taxonomy.Matchers

/-!
# Enforcement checks

`domains/enforcement/entities.py` and the checks of `domains/enforcement/engine.py`.
Times are left out.
-/

namespace Sentora.Enforcement

open Lib

inductive RuleType where
  | required
  | forbidden
  | allowlist
deriving DecidableEq

inductive Severity where
  | critical
  | high
  | medium
  | low
deriving DecidableEq

inductive CheckStatus where
  | passed
  | failed
deriving DecidableEq

structure EnforcementRule where
  id : String
  name : String
  taxonomyCategoryId : String
  type : RuleType
  severity : Severity
  enabled : Bool := true
  scopeGroups : List String := []
  scopeTags : List String := []
deriving DecidableEq

structure EnforcementViolation where
  agentId : String
  agentHostname : String
  violationDetail : String
  appName : Option String := none
deriving DecidableEq

structure EnforcementResult where
  ruleId : String
  ruleName : String
  ruleType : RuleType
  severity : Severity
  status : CheckStatus
  totalAgents : Nat := 0
  compliantAgents : Nat := 0
  nonCompliantAgents : Nat := 0
  violations : List EnforcementViolation := []
deriving DecidableEq

def maxViolations : Nat := 10000

/-- `_get_taxonomy_patterns`, unless the patterns of an entry are null. -/
def getTaxonomyPatterns (categoryId : String) (docs : List Taxonomy.EntryDoc) :
    Option (List String) :=
  ((docs.filter (Taxonomy.EntryDoc.inCategory categoryId)).mapM Taxonomy.EntryDoc.patterns).map
    List.flatten

def compilePatterns (patterns : List String) : List (List Glob.Token) :=
  patterns.map fun p => Glob.translate p.toList

def matchesAny (t : Taxonomy.CaseText) (appName : String) (compiled : List (List Glob.Token)) :
    Bool :=
  compiled.any fun p => Glob.matchTokens t.variants p appName.toList

/-- Whether an agent is among those that `build_agent_scope_filter` selects. -/
def inScope (rule : EnforcementRule) (agent : Sync.AgentDoc) : Bool :=
  (rule.scopeTags.isEmpty || agent.tags.any rule.scopeTags.contains) &&
    (rule.scopeGroups.isEmpty || rule.scopeGroups.contains agent.groupName)

def EnforcementRule.result (rule : EnforcementRule) (status : CheckStatus) : EnforcementResult where
  ruleId := rule.id
  ruleName := rule.name
  ruleType := rule.type
  severity := rule.severity
  status := status

def checkAgents (found : Sync.AgentDoc → List EnforcementViolation)
    (count : List EnforcementViolation → Nat) (rule : EnforcementRule)
    (agents : List Sync.AgentDoc) : EnforcementResult :=
  let selected := agents.filter (inScope rule)
  let violations := selected.flatMap found
  let nonCompliant := count violations
  if selected.length = 0 then rule.result .passed
  else
    { rule.result (if nonCompliant = 0 then .passed else .failed) with
      totalAgents := selected.length
      compliantAgents := selected.length - nonCompliant
      nonCompliantAgents := nonCompliant
      violations := violations.take maxViolations }

def installed (agent : Sync.AgentDoc) : List String := agent.installedAppNames.getD []

def violation (agent : Sync.AgentDoc) (detail : String) (appName : Option String := none) :
    EnforcementViolation where
  agentId := agent.sourceId
  agentHostname := agent.hostname
  violationDetail := detail
  appName := appName

def missing (t : Taxonomy.CaseText) (rule : EnforcementRule) (compiled : List (List Glob.Token))
    (agent : Sync.AgentDoc) : List EnforcementViolation :=
  if (installed agent).any fun app => matchesAny t app compiled then []
  else [violation agent
    ("Missing: no application in category '" ++ rule.taxonomyCategoryId ++ "'")]

def forbiddenApps (t : Taxonomy.CaseText) (rule : EnforcementRule)
    (compiled : List (List Glob.Token)) (agent : Sync.AgentDoc) : List EnforcementViolation :=
  ((installed agent).filter fun app => matchesAny t app compiled).map fun app =>
    violation agent ("Forbidden application '" ++ app ++ "' found (category '" ++
      rule.taxonomyCategoryId ++ "')") app

def unapprovedApps (t : Taxonomy.CaseText) (compiled : List (List Glob.Token))
    (agent : Sync.AgentDoc) : List EnforcementViolation :=
  ((installed agent).filter fun app => !matchesAny t app compiled).map fun app =>
    violation agent ("Unapproved application '" ++ app ++ "' not in allowlist") app

/-- `len({v.agent_id for v in violations})`. -/
def violatingAgents (violations : List EnforcementViolation) : Nat :=
  (violations.map EnforcementViolation.agentId).dedup.length

def checkRequired (t : Taxonomy.CaseText) (rule : EnforcementRule)
    (compiled : List (List Glob.Token)) : List Sync.AgentDoc → EnforcementResult :=
  checkAgents (missing t rule compiled) List.length rule

def checkForbidden (t : Taxonomy.CaseText) (rule : EnforcementRule)
    (compiled : List (List Glob.Token)) : List Sync.AgentDoc → EnforcementResult :=
  checkAgents (forbiddenApps t rule compiled) violatingAgents rule

def checkAllowlist (t : Taxonomy.CaseText) (rule : EnforcementRule)
    (compiled : List (List Glob.Token)) : List Sync.AgentDoc → EnforcementResult :=
  checkAgents (unapprovedApps t compiled) violatingAgents rule

/-- `_CHECK_DISPATCH`. -/
def check (t : Taxonomy.CaseText) (rule : EnforcementRule) :
    List (List Glob.Token) → List Sync.AgentDoc → EnforcementResult :=
  match rule.type with
  | .required => checkRequired t rule
  | .forbidden => checkForbidden t rule
  | .allowlist => checkAllowlist t rule

def systemViolation (detail : String) : EnforcementViolation := ⟨"system", "sentora", detail, none⟩

def EnforcementRule.unchecked (rule : EnforcementRule) : EnforcementResult :=
  { rule.result .passed with
    violations := [systemViolation
      ("No taxonomy patterns found for category '" ++ rule.taxonomyCategoryId ++ "'")] }

def EnforcementRule.raised (rule : EnforcementRule) : EnforcementResult :=
  { rule.result .failed with
    violations := [systemViolation "Check error: 'NoneType' object is not iterable"] }

/-- `evaluate_rule`, with what the run makes of its exception. -/
def evaluateRule (t : Taxonomy.CaseText) (docs : List Taxonomy.EntryDoc)
    (agents : List Sync.AgentDoc) (rule : EnforcementRule) : EnforcementResult :=
  match getTaxonomyPatterns rule.taxonomyCategoryId docs with
  | none => rule.raised
  | some patterns =>
    if (compilePatterns patterns).isEmpty then rule.unchecked
    else check t rule (compilePatterns patterns) agents

section Results

variable {t : Taxonomy.CaseText} {docs : List Taxonomy.EntryDoc} {agents : List Sync.AgentDoc}
  {rule : EnforcementRule} {compiled : List (List Glob.Token)}
  {found : Sync.AgentDoc → List EnforcementViolation} {count : List EnforcementViolation → Nat}

def findViolations (t : Taxonomy.CaseText) (rule : EnforcementRule)
    (compiled : List (List Glob.Token)) : Sync.AgentDoc → List EnforcementViolation :=
  match rule.type with
  | .required => missing t rule compiled
  | .forbidden => forbiddenApps t rule compiled
  | .allowlist => unapprovedApps t compiled

def allViolations (t : Taxonomy.CaseText) (rule : EnforcementRule)
    (compiled : List (List Glob.Token)) (agents : List Sync.AgentDoc) : List EnforcementViolation :=
  (agents.filter (inScope rule)).flatMap (findViolations t rule compiled)

theorem checkAgents_eq :
    checkAgents found count rule agents =
      if (agents.filter (inScope rule)).length = 0 then rule.result .passed
      else
        { rule.result
            (if count ((agents.filter (inScope rule)).flatMap found) = 0 then .passed
              else .failed) with
          totalAgents := (agents.filter (inScope rule)).length
          compliantAgents := (agents.filter (inScope rule)).length -
            count ((agents.filter (inScope rule)).flatMap found)
          nonCompliantAgents := count ((agents.filter (inScope rule)).flatMap found)
          violations := ((agents.filter (inScope rule)).flatMap found).take maxViolations } := rfl

theorem ruleId_checkAgents : (checkAgents found count rule agents).ruleId = rule.id := by
  rw [checkAgents_eq]
  split
  · rfl
  · rfl

theorem violations_checkAgents :
    (checkAgents found count rule agents).violations =
      ((agents.filter (inScope rule)).flatMap found).take maxViolations := by
  rw [checkAgents_eq]
  split
  · rename_i hnone
    rw [List.eq_nil_of_length_eq_zero hnone]
    rfl
  · rfl

theorem violations_of_checkAgents_passed
    (hcount : ∀ violations, count violations = 0 → violations = [])
    (h : (checkAgents found count rule agents).status = .passed) :
    (checkAgents found count rule agents).violations = [] := by
  rw [violations_checkAgents]
  rw [checkAgents_eq] at h
  split at h
  · rename_i hnone
    rw [List.eq_nil_of_length_eq_zero hnone]
    rfl
  · by_cases hzero : count ((agents.filter (inScope rule)).flatMap found) = 0
    · rw [hcount _ hzero]
      rfl
    · rw [if_neg hzero] at h
      cases h

theorem eq_nil_of_violatingAgents {violations : List EnforcementViolation}
    (h : violatingAgents violations = 0) : violations = [] := by
  have hids : violations.map EnforcementViolation.agentId = [] :=
    (List.dedup_eq_nil _).mp (List.eq_nil_of_length_eq_zero h)
  exact List.map_eq_nil_iff.mp hids

theorem ruleId_check : (check t rule compiled agents).ruleId = rule.id := by
  unfold check
  cases rule.type with
  | required => exact ruleId_checkAgents
  | forbidden => exact ruleId_checkAgents
  | allowlist => exact ruleId_checkAgents

theorem violations_check :
    (check t rule compiled agents).violations =
      (allViolations t rule compiled agents).take maxViolations := by
  unfold check allViolations findViolations
  cases rule.type with
  | required => exact violations_checkAgents
  | forbidden => exact violations_checkAgents
  | allowlist => exact violations_checkAgents

theorem violations_of_check_passed (h : (check t rule compiled agents).status = .passed) :
    (check t rule compiled agents).violations = [] := by
  unfold check at h ⊢
  cases htype : rule.type with
  | required =>
    rw [htype] at h
    exact violations_of_checkAgents_passed (fun _ => List.eq_nil_of_length_eq_zero) h
  | forbidden =>
    rw [htype] at h
    exact violations_of_checkAgents_passed (fun _ => eq_nil_of_violatingAgents) h
  | allowlist =>
    rw [htype] at h
    exact violations_of_checkAgents_passed (fun _ => eq_nil_of_violatingAgents) h

theorem evaluateRule_cases (t : Taxonomy.CaseText) (docs : List Taxonomy.EntryDoc)
    (agents : List Sync.AgentDoc) (rule : EnforcementRule) :
    (getTaxonomyPatterns rule.taxonomyCategoryId docs = none ∧
        evaluateRule t docs agents rule = rule.raised) ∨
      (getTaxonomyPatterns rule.taxonomyCategoryId docs = some [] ∧
        evaluateRule t docs agents rule = rule.unchecked) ∨
      ∃ patterns, patterns ≠ [] ∧
        getTaxonomyPatterns rule.taxonomyCategoryId docs = some patterns ∧
        evaluateRule t docs agents rule = check t rule (compilePatterns patterns) agents := by
  unfold evaluateRule
  cases getTaxonomyPatterns rule.taxonomyCategoryId docs with
  | none => exact Or.inl ⟨rfl, rfl⟩
  | some patterns =>
    cases patterns with
    | nil => exact Or.inr (Or.inl ⟨rfl, rfl⟩)
    | cons p rest => exact Or.inr (Or.inr ⟨p :: rest, List.cons_ne_nil p rest, rfl, rfl⟩)

theorem ruleId_evaluateRule : (evaluateRule t docs agents rule).ruleId = rule.id := by
  rcases evaluateRule_cases t docs agents rule with ⟨-, heq⟩ | ⟨-, heq⟩ | ⟨patterns, -, -, heq⟩
  · rw [heq]
    rfl
  · rw [heq]
    rfl
  · rw [heq]
    exact ruleId_check

theorem passed_clean_iff :
    ((evaluateRule t docs agents rule).status = .passed →
        (evaluateRule t docs agents rule).violations = []) ↔
      getTaxonomyPatterns rule.taxonomyCategoryId docs ≠ some [] := by
  rcases evaluateRule_cases t docs agents rule with
    ⟨hpatterns, heq⟩ | ⟨hpatterns, heq⟩ | ⟨patterns, hsome, hpatterns, heq⟩
  · rw [heq, hpatterns]
    exact iff_of_true (fun h => by cases h) (fun h => by cases h)
  · rw [heq, hpatterns]
    exact iff_of_false (fun h => by cases h rfl) (fun h => h rfl)
  · rw [heq, hpatterns]
    exact iff_of_true violations_of_check_passed fun h => hsome (Option.some.inj h)

end Results

end Sentora.Enforcement
