import Sentora.Enforcement.Meaning
import Sentora.Lib.Groups

/-!
# Counted agents

Whether the numbers of a result are those of the agents in scope.

A required rule is counted by its violations, of which an agent has one.  The others are
counted by the source ids in their violations, which agents of two sources may share.  Where
a category has no patterns no agent is counted.
-/

namespace Sentora.Enforcement

open Lib Taxonomy

section Specification

variable (t : CaseText) (docs : List EntryDoc) (agents : List Sync.AgentDoc)
  (rule : EnforcementRule)

def breaks (compiled : List (List Glob.Token)) : RuleType → Sync.AgentDoc → Bool
  | .required, agent => !(installed agent).any fun app => matchesAny t app compiled
  | .forbidden, agent => (installed agent).any fun app => matchesAny t app compiled
  | .allowlist, agent => (installed agent).any fun app => !matchesAny t app compiled

def compiledOf (categoryId : String) : List (List Glob.Token) :=
  compilePatterns ((getTaxonomyPatterns categoryId docs).getD [])

def breaking (type : RuleType) : List Sync.AgentDoc :=
  (agents.filter (inScope rule)).filter
    (breaks t (compiledOf docs rule.taxonomyCategoryId) type)

/-- A result has the numbers of the agents in scope, and its verdict. -/
structure CountsAgents : Prop where
  total : (evaluateRule t docs agents rule).totalAgents = (agents.filter (inScope rule)).length
  nonCompliant : (evaluateRule t docs agents rule).nonCompliantAgents =
    (breaking t docs agents rule rule.type).length
  compliant : (evaluateRule t docs agents rule).compliantAgents +
    (evaluateRule t docs agents rule).nonCompliantAgents =
      (evaluateRule t docs agents rule).totalAgents
  status : (evaluateRule t docs agents rule).status = .passed ↔
    (evaluateRule t docs agents rule).nonCompliantAgents = 0
  violations : (evaluateRule t docs agents rule).violations = [] ↔
    (evaluateRule t docs agents rule).status = .passed

structure SameScope (rule other : EnforcementRule) : Prop where
  category : rule.taxonomyCategoryId = other.taxonomyCategoryId
  groups : rule.scopeGroups = other.scopeGroups
  tags : rule.scopeTags = other.scopeTags

/-- What is required and what is forbidden of the category and scope of a rule add up to the
agents in scope. -/
def AddsUp : Prop :=
  ∀ required forbidden : EnforcementRule, required.type = .required →
    forbidden.type = .forbidden → SameScope rule required → SameScope rule forbidden →
      (evaluateRule t docs agents required).nonCompliantAgents +
        (evaluateRule t docs agents forbidden).nonCompliantAgents =
          (agents.filter (inScope rule)).length

def Checked : Prop :=
  ∃ patterns, patterns ≠ [] ∧ getTaxonomyPatterns rule.taxonomyCategoryId docs = some patterns

/-- The category has a pattern, and no two agents in scope that have an app of it, or that
break an allowlist, share a source id. -/
structure DistinctIds : Prop where
  checked : Checked docs rule
  forbidden : ((breaking t docs agents rule .forbidden).map Sync.AgentDoc.sourceId).Nodup
  allowlist : rule.type = .allowlist →
    ((breaking t docs agents rule .allowlist).map Sync.AgentDoc.sourceId).Nodup

end Specification

section Counts

variable {t : CaseText} {docs : List EntryDoc} {agents : List Sync.AgentDoc}
  {rule other : EnforcementRule} {compiled : List (List Glob.Token)}
  {found : Sync.AgentDoc → List EnforcementViolation} {count : List EnforcementViolation → Nat}
variable {selected : List Sync.AgentDoc}

def countedBy : RuleType → List EnforcementViolation → Nat
  | .required => List.length
  | .forbidden => violatingAgents
  | .allowlist => violatingAgents

theorem check_eq :
    check t rule compiled agents =
      checkAgents (findViolations t rule compiled) (countedBy rule.type) rule agents := by
  unfold check findViolations
  cases rule.type with
  | required => rfl
  | forbidden => rfl
  | allowlist => rfl

theorem countedBy_eq_zero_iff {type : RuleType} {violations : List EnforcementViolation} :
    countedBy type violations = 0 ↔ violations = [] := by
  constructor
  · intro h
    cases type with
    | required => exact List.eq_nil_of_length_eq_zero h
    | forbidden => exact eq_nil_of_violatingAgents h
    | allowlist => exact eq_nil_of_violatingAgents h
  · rintro rfl
    cases type with
    | required => rfl
    | forbidden => rfl
    | allowlist => rfl

theorem findViolations_eq_nil_iff {agent : Sync.AgentDoc} :
    findViolations t rule compiled agent = [] ↔ breaks t compiled rule.type agent = false := by
  unfold findViolations
  cases rule.type with
  | required => simp [missing, breaks]
  | forbidden => simp [forbiddenApps, breaks]
  | allowlist => simp [unapprovedApps, breaks]

theorem agentId_of_findViolations {agent : Sync.AgentDoc} {v : EnforcementViolation}
    (h : v ∈ findViolations t rule compiled agent) : v.agentId = agent.sourceId := by
  unfold findViolations at h
  cases htype : rule.type with
  | required =>
    rw [htype] at h
    simp only [missing] at h
    split at h
    · exact absurd h List.not_mem_nil
    · rw [List.mem_singleton.mp h]
      rfl
  | forbidden =>
    rw [htype] at h
    obtain ⟨app, -, rfl⟩ := List.mem_map.mp h
    rfl
  | allowlist =>
    rw [htype] at h
    obtain ⟨app, -, rfl⟩ := List.mem_map.mp h
    rfl

theorem length_flatMap_missing :
    (selected.flatMap (missing t rule compiled)).length =
      (selected.filter (breaks t compiled .required)).length := by
  induction selected with
  | nil => rfl
  | cons agent selected ih =>
    rw [List.flatMap_cons, List.length_append, ih, List.filter_cons, missing, breaks]
    cases (installed agent).any fun app => matchesAny t app compiled with
    | true => simp
    | false =>
      simp
      omega

theorem mem_agentIds {id : String} :
    id ∈ (selected.flatMap (findViolations t rule compiled)).map EnforcementViolation.agentId ↔
      id ∈ (selected.filter (breaks t compiled rule.type)).map Sync.AgentDoc.sourceId := by
  rw [List.mem_map, List.mem_map]
  constructor
  · intro ⟨v, hv, hid⟩
    obtain ⟨agent, hagent, hfound⟩ := List.mem_flatMap.mp hv
    have hbreaks : breaks t compiled rule.type agent = true := by
      rw [← Bool.not_eq_false, ← @findViolations_eq_nil_iff t rule]
      exact List.ne_nil_of_mem hfound
    exact ⟨agent, List.mem_filter.mpr ⟨hagent, hbreaks⟩,
      (agentId_of_findViolations hfound).symm.trans hid⟩
  · intro ⟨agent, hagent, hid⟩
    obtain ⟨hmem, hbreaks⟩ := List.mem_filter.mp hagent
    have hne : findViolations t rule compiled agent ≠ [] := fun hnil =>
      absurd (findViolations_eq_nil_iff.mp hnil) (by rw [hbreaks]; decide)
    obtain ⟨v, hv⟩ := List.exists_mem_of_ne_nil _ hne
    exact ⟨v, List.mem_flatMap.mpr ⟨agent, hmem, hv⟩, (agentId_of_findViolations hv).trans hid⟩

theorem violatingAgents_flatMap :
    violatingAgents (selected.flatMap (findViolations t rule compiled)) =
      ((selected.filter (breaks t compiled rule.type)).map
        Sync.AgentDoc.sourceId).dedup.length := by
  refine ((List.perm_ext_iff_of_nodup (List.nodup_dedup _) (List.nodup_dedup _)).mpr
    fun id => ?_).length_eq
  rw [List.mem_dedup, List.mem_dedup]
  exact mem_agentIds

theorem countedBy_eq_iff :
    countedBy rule.type (selected.flatMap (findViolations t rule compiled)) =
        (selected.filter (breaks t compiled rule.type)).length ↔
      (rule.type ≠ .required →
        ((selected.filter (breaks t compiled rule.type)).map Sync.AgentDoc.sourceId).Nodup) := by
  have hids : violatingAgents (selected.flatMap (findViolations t rule compiled)) =
        (selected.filter (breaks t compiled rule.type)).length ↔
      ((selected.filter (breaks t compiled rule.type)).map Sync.AgentDoc.sourceId).Nodup := by
    rw [violatingAgents_flatMap, ← length_dedup_eq_iff, List.length_map]
  cases htype : rule.type with
  | required =>
    have hfound : findViolations t rule compiled = missing t rule compiled := by
      rw [findViolations, htype]
    rw [hfound]
    exact iff_of_true length_flatMap_missing fun h => absurd rfl h
  | forbidden =>
    rw [htype] at hids
    exact hids.trans ⟨fun h _ => h, fun h => h (by decide)⟩
  | allowlist =>
    rw [htype] at hids
    exact hids.trans ⟨fun h _ => h, fun h => h (by decide)⟩

theorem nonCompliantAgents_checkAgents (hnil : count [] = 0) :
    (checkAgents found count rule agents).nonCompliantAgents =
      count ((agents.filter (inScope rule)).flatMap found) := by
  rw [checkAgents_eq]
  split
  · rename_i hnone
    rw [List.eq_nil_of_length_eq_zero hnone, List.flatMap_nil, hnil]
    rfl
  · rfl

theorem totalAgents_checkAgents :
    (checkAgents found count rule agents).totalAgents = (agents.filter (inScope rule)).length := by
  rw [checkAgents_eq]
  split
  · rename_i hnone
    rw [hnone]
    rfl
  · rfl

theorem compliantAgents_checkAgents :
    (checkAgents found count rule agents).compliantAgents =
      (agents.filter (inScope rule)).length -
        count ((agents.filter (inScope rule)).flatMap found) := by
  rw [checkAgents_eq]
  split
  · rename_i hnone
    rw [hnone, Nat.zero_sub]
    rfl
  · rfl

theorem status_checkAgents_iff (hnil : count [] = 0) :
    (checkAgents found count rule agents).status = .passed ↔
      count ((agents.filter (inScope rule)).flatMap found) = 0 := by
  rw [checkAgents_eq]
  split
  · rename_i hnone
    rw [List.eq_nil_of_length_eq_zero hnone, List.flatMap_nil]
    exact iff_of_true rfl hnil
  · by_cases hzero : count ((agents.filter (inScope rule)).flatMap found) = 0
    · rw [if_pos hzero]
      exact iff_of_true rfl hzero
    · rw [if_neg hzero]
      exact iff_of_false (fun h => by cases h) hzero

theorem Checked.evaluateRule_eq (h : Checked docs rule) :
    evaluateRule t docs agents rule =
      check t rule (compiledOf docs rule.taxonomyCategoryId) agents := by
  obtain ⟨patterns, hne, hsome⟩ := h
  rcases evaluateRule_cases t docs agents rule with
    ⟨hnone, -⟩ | ⟨hnil, -⟩ | ⟨patterns', -, hsome', heq⟩
  · rw [hsome] at hnone
    cases hnone
  · rw [hsome] at hnil
    exact absurd (Option.some.inj hnil) hne
  · rw [heq, compiledOf, hsome']
    rfl

theorem Checked.nonCompliantAgents_eq (h : Checked docs rule) :
    (evaluateRule t docs agents rule).nonCompliantAgents = countedBy rule.type
      ((agents.filter (inScope rule)).flatMap
        (findViolations t rule (compiledOf docs rule.taxonomyCategoryId))) := by
  rw [h.evaluateRule_eq, check_eq]
  exact nonCompliantAgents_checkAgents (countedBy_eq_zero_iff.mpr rfl)

theorem Checked.nonCompliantAgents_eq_iff (h : Checked docs rule) :
    (evaluateRule t docs agents rule).nonCompliantAgents =
        (breaking t docs agents rule rule.type).length ↔
      (rule.type ≠ .required →
        ((breaking t docs agents rule rule.type).map Sync.AgentDoc.sourceId).Nodup) := by
  rw [h.nonCompliantAgents_eq, breaking]
  exact countedBy_eq_iff

/-- Where the category has patterns, the count decides whether a result is right. -/
theorem Checked.countsAgents_iff (h : Checked docs rule) :
    CountsAgents t docs agents rule ↔
      (evaluateRule t docs agents rule).nonCompliantAgents =
        (breaking t docs agents rule rule.type).length := by
  have hnil : countedBy rule.type [] = 0 := countedBy_eq_zero_iff.mpr rfl
  have hnon := @Checked.nonCompliantAgents_eq t docs agents rule h
  have heq : evaluateRule t docs agents rule = checkAgents
      (findViolations t rule (compiledOf docs rule.taxonomyCategoryId)) (countedBy rule.type)
      rule agents := h.evaluateRule_eq.trans check_eq
  have hstatus : (evaluateRule t docs agents rule).status = .passed ↔
      (evaluateRule t docs agents rule).nonCompliantAgents = 0 := by
    rw [hnon, heq]
    exact status_checkAgents_iff hnil
  refine ⟨CountsAgents.nonCompliant, fun hcount => ⟨?_, hcount, ?_, hstatus, ?_⟩⟩
  · rw [heq]
    exact totalAgents_checkAgents
  · have htotal : (evaluateRule t docs agents rule).totalAgents =
        (agents.filter (inScope rule)).length := heq ▸ totalAgents_checkAgents
    have hcompliant : (evaluateRule t docs agents rule).compliantAgents =
        (agents.filter (inScope rule)).length - countedBy rule.type
          ((agents.filter (inScope rule)).flatMap
            (findViolations t rule (compiledOf docs rule.taxonomyCategoryId))) :=
      heq ▸ compliantAgents_checkAgents
    have hle : (breaking t docs agents rule rule.type).length ≤
        (agents.filter (inScope rule)).length := List.length_filter_le _ _
    omega
  · rw [hstatus, hnon, countedBy_eq_zero_iff, heq, violations_checkAgents, List.take_eq_nil_iff]
    exact or_iff_right (by decide)

theorem not_countsAgents_of_raised (h : evaluateRule t docs agents rule = rule.raised) :
    ¬CountsAgents t docs agents rule := by
  intro hcounts
  have hpassed : rule.raised.status = .passed := h ▸ hcounts.status.mpr (by rw [h]; rfl)
  cases hpassed

theorem not_countsAgents_of_unchecked (h : evaluateRule t docs agents rule = rule.unchecked) :
    ¬CountsAgents t docs agents rule := by
  intro hcounts
  have hnone : rule.unchecked.violations = [] := h ▸ hcounts.violations.mpr (by rw [h]; rfl)
  cases hnone

theorem countsAgents_iff :
    CountsAgents t docs agents rule ↔ Checked docs rule ∧
      (rule.type ≠ .required →
        ((breaking t docs agents rule rule.type).map Sync.AgentDoc.sourceId).Nodup) := by
  rcases evaluateRule_cases t docs agents rule with
    ⟨hnone, heq⟩ | ⟨hnil, heq⟩ | ⟨patterns, hne, hsome, -⟩
  · refine iff_of_false (not_countsAgents_of_raised heq) fun h => ?_
    obtain ⟨patterns, -, hsome⟩ := h.1
    rw [hnone] at hsome
    cases hsome
  · refine iff_of_false (not_countsAgents_of_unchecked heq) fun h => ?_
    obtain ⟨patterns, hne, hsome⟩ := h.1
    rw [hnil] at hsome
    exact hne (Option.some.inj hsome).symm
  · have hchecked : Checked docs rule := ⟨patterns, hne, hsome⟩
    rw [hchecked.countsAgents_iff, hchecked.nonCompliantAgents_eq_iff, and_iff_right hchecked]

theorem SameScope.breaking_eq (h : SameScope rule other) {type : RuleType} :
    breaking t docs agents other type = breaking t docs agents rule type := by
  have hscope : inScope other = inScope rule := by
    funext agent
    rw [inScope, inScope, h.groups, h.tags]
  rw [breaking, breaking, hscope, h.category]

theorem SameScope.checked (h : SameScope rule other) (hchecked : Checked docs rule) :
    Checked docs other := by
  rw [Checked, ← h.category]
  exact hchecked

theorem length_breaking :
    (breaking t docs agents rule .required).length +
        (breaking t docs agents rule .forbidden).length =
      (agents.filter (inScope rule)).length := by
  have hsplit := List.length_eq_length_filter_add
    (breaks t (compiledOf docs rule.taxonomyCategoryId) .required)
    (l := agents.filter (inScope rule))
  have hother : ((agents.filter (inScope rule)).filter
      fun agent => !breaks t (compiledOf docs rule.taxonomyCategoryId) .required agent) =
      breaking t docs agents rule .forbidden :=
    List.filter_congr fun agent _ => Bool.not_not _
  rw [hother] at hsplit
  exact hsplit.symm

theorem SameScope.nonCompliantAgents_required (h : SameScope rule other)
    (hchecked : Checked docs rule) (htype : other.type = .required) :
    (evaluateRule t docs agents other).nonCompliantAgents =
      (breaking t docs agents rule .required).length := by
  have hcount := @Checked.nonCompliantAgents_eq_iff t docs agents other (h.checked hchecked)
  rw [htype, h.breaking_eq] at hcount
  exact hcount.mpr fun hne => absurd rfl hne

theorem SameScope.nonCompliantAgents_forbidden_iff (h : SameScope rule other)
    (hchecked : Checked docs rule) (htype : other.type = .forbidden) :
    (evaluateRule t docs agents other).nonCompliantAgents =
        (breaking t docs agents rule .forbidden).length ↔
      ((breaking t docs agents rule .forbidden).map Sync.AgentDoc.sourceId).Nodup := by
  have hcount := @Checked.nonCompliantAgents_eq_iff t docs agents other (h.checked hchecked)
  rw [htype, h.breaking_eq] at hcount
  exact hcount.trans ⟨fun hids => hids (by decide), fun hids _ => hids⟩

theorem Checked.addsUp_iff (h : Checked docs rule) :
    AddsUp t docs agents rule ↔
      ((breaking t docs agents rule .forbidden).map Sync.AgentDoc.sourceId).Nodup := by
  have hsum := @length_breaking t docs agents rule
  constructor
  · intro hadds
    have hsame : ∀ type, SameScope rule { rule with type := type } := fun _ => ⟨rfl, rfl, rfl⟩
    have hrequired :
        (evaluateRule t docs agents { rule with type := .required }).nonCompliantAgents =
          (breaking t docs agents rule .required).length :=
      (hsame .required).nonCompliantAgents_required h rfl
    have htotal := hadds { rule with type := .required } { rule with type := .forbidden } rfl rfl
      (hsame .required) (hsame .forbidden)
    refine ((hsame .forbidden).nonCompliantAgents_forbidden_iff h rfl).mp ?_
    omega
  · intro hids required forbidden hr hf hrequired hforbidden
    rw [hrequired.nonCompliantAgents_required h hr,
      (hforbidden.nonCompliantAgents_forbidden_iff h hf).mpr hids, hsum]

/-- A result has the numbers of the agents in scope, and required and forbidden add up to them,
just where the category has patterns and the ids of the agents that are counted by id are
distinct. -/
theorem enforcement_counts_agents_iff (t : CaseText) (docs : List EntryDoc)
    (agents : List Sync.AgentDoc) (rule : EnforcementRule) :
    CountsAgents t docs agents rule ∧ AddsUp t docs agents rule ↔
      DistinctIds t docs agents rule := by
  rw [countsAgents_iff]
  constructor
  · intro ⟨⟨hchecked, hids⟩, hadds⟩
    refine ⟨hchecked, hchecked.addsUp_iff.mp hadds, fun htype => ?_⟩
    rw [htype] at hids
    exact hids (by decide)
  · intro ⟨hchecked, hforbidden, hallowlist⟩
    refine ⟨⟨hchecked, fun hne => ?_⟩, hchecked.addsUp_iff.mpr hforbidden⟩
    cases htype : rule.type with
    | required => exact absurd htype hne
    | forbidden => exact hforbidden
    | allowlist => exact hallowlist htype

def chromeDoc : EntryDoc where
  id := "1"
  name := some "Chrome"
  patterns := some ["chrome*"]
  category := some "browsers"

def noBrowsers : EnforcementRule where
  id := "5"
  name := "No browsers"
  taxonomyCategoryId := "browsers"
  type := .forbidden
  severity := .high

def twoSources : List Sync.AgentDoc :=
  [{ id := "7", source := some "sentinelone", sourceId := "42", hostname := "laptop"
     installedAppNames := some ["chrome"] },
    { id := "8", source := some "crowdstrike", sourceId := "42", hostname := "desktop"
      installedAppNames := some ["chrome"] }]

/-- Both agents break the rule, and one is counted. -/
theorem agents_of_two_sources_count_once :
    (twoSources.map fun agent => (agent.source, agent.sourceId)).Nodup ∧
      ¬(CountsAgents asciiCase [chromeDoc] twoSources noBrowsers ∧
        AddsUp asciiCase [chromeDoc] twoSources noBrowsers) := by
  refine ⟨by decide +kernel, fun h => ?_⟩
  have hcounted : (evaluateRule asciiCase [chromeDoc] twoSources noBrowsers).nonCompliantAgents =
      1 := by decide +kernel
  have hbreaking : (breaking asciiCase [chromeDoc] twoSources noBrowsers .forbidden).length =
      2 := by decide +kernel
  have hcount := h.1.nonCompliant
  rw [hcounted] at hcount
  exact absurd (hcount.trans hbreaking) (by decide)

end Counts

end Sentora.Enforcement
