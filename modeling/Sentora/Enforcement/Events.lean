import Sentora.Enforcement.Views

/-!
# Events of violations

Whether the new and the resolved violations of the runs tell what happened to an
agent under a rule.

A run compares the latest results of all rules with its own.  A violation of a rule that
the run does not check is resolved for it, at every such run anew, and so is one behind
the violations that a result keeps.
-/

namespace Sentora.Enforcement

open Lib

def Complies (t : Taxonomy.CaseText) (ruleId : Option String) (w : World) (key : ViolationKey) :
    Prop :=
  ∃ rule ∈ rulesToCheck ruleId w, rule.id = key.1 ∧
    ∃ patterns, getTaxonomyPatterns rule.taxonomyCategoryId w.taxonomy.entries.docs =
      some patterns ∧
      (patterns = [] ∨ key.2 ∉ (allViolations t rule (compilePatterns patterns) w.agents).map
        EnforcementViolation.agentId)

/-- What there is about a key behind each run: it is new, or it is resolved. -/
def eventsOf (t : Taxonomy.CaseText) (key : ViolationKey) : World → List Request → List Bool
  | _, [] => []
  | w, .triggerCheck ruleId :: rest =>
    let (next, run) := triggerCheck t ruleId w
    (if key ∈ run.newViolations then [true] else []) ++
      (if key ∈ run.resolvedViolations then [false] else []) ++ eventsOf t key next rest
  | w, request :: rest => eventsOf t key (perform t w request) rest

def Alternates : Bool → List Bool → Prop
  | _, [] => True
  | first, event :: rest => event = first ∧ Alternates (!first) rest

structure Truthful (t : Taxonomy.CaseText) (w : World) (requests : List Request) : Prop where
  resolved : ∀ n ruleId, requests[n]? = some (.triggerCheck ruleId) →
    ∀ key ∈ (triggerCheck t ruleId (performs t w (requests.take n))).2.resolvedViolations,
      Complies t ruleId (performs t w (requests.take n)) key
  alternate : ∀ key, Alternates true (eventsOf t key w requests)

/-- What a rule finds of an agent is reported: the patterns of its category are readable, or
the violation is that of the check itself, and a violation of the agent is among those that
are kept. -/
def Reports (t : Taxonomy.CaseText) (w : World) (rule : EnforcementRule) (agentId : String) :
    Prop :=
  match getTaxonomyPatterns rule.taxonomyCategoryId w.taxonomy.entries.docs with
  | none => agentId = "system"
  | some patterns =>
    patterns = [] ∨
      (agentId ∈ (allViolations t rule (compilePatterns patterns) w.agents).map
          EnforcementViolation.agentId →
        agentId ∈
          ((allViolations t rule (compilePatterns patterns) w.agents).take maxViolations).map
            EnforcementViolation.agentId)

/-- A run checks and reports every key that has a stored violation. -/
def Covers (t : Taxonomy.CaseText) (ruleId : Option String) (w : World) : Prop :=
  ∀ key ∈ violationKeys (latestResults w.results),
    ∃ rule ∈ rulesToCheck ruleId w, rule.id = key.1 ∧ Reports t w rule key.2

def AllCover (t : Taxonomy.CaseText) (w : World) (requests : List Request) : Prop :=
  ∀ n ruleId, requests[n]? = some (.triggerCheck ruleId) →
    Covers t ruleId (performs t w (requests.take n))

section Runs

variable {t : Taxonomy.CaseText} {w : World} {ruleId : Option String} {rule : EnforcementRule}
  {key : ViolationKey} {results : List EnforcementResult}

theorem mem_violationKeys :
    key ∈ violationKeys results ↔
      ∃ r ∈ results, r.ruleId = key.1 ∧ key.2 ∈ r.violations.map EnforcementViolation.agentId := by
  unfold violationKeys
  rw [List.mem_toFinset, List.mem_flatMap]
  refine exists_congr fun r => and_congr_right fun _ => ?_
  simp only [List.mem_map, Prod.ext_iff]
  constructor
  · intro ⟨v, hv, hrule, hagent⟩
    exact ⟨hrule, v, hv, hagent⟩
  · intro ⟨hrule, v, hv, hagent⟩
    exact ⟨v, hv, hrule, hagent⟩

theorem mem_agents_evaluateRule {agentId : String} :
    agentId ∈ (evaluateRule t w.taxonomy.entries.docs w.agents rule).violations.map
        EnforcementViolation.agentId ↔
      match getTaxonomyPatterns rule.taxonomyCategoryId w.taxonomy.entries.docs with
      | none => agentId = "system"
      | some [] => agentId = "system"
      | some patterns =>
        agentId ∈
          ((allViolations t rule (compilePatterns patterns) w.agents).take maxViolations).map
            EnforcementViolation.agentId := by
  rcases evaluateRule_cases t w.taxonomy.entries.docs w.agents rule with
    ⟨hpatterns, heq⟩ | ⟨hpatterns, heq⟩ | ⟨patterns, hsome, hpatterns, heq⟩
  · rw [heq, hpatterns]
    exact List.mem_singleton
  · rw [heq, hpatterns]
    exact List.mem_singleton
  · rw [heq, hpatterns, violations_check]
    cases patterns with
    | nil => exact absurd rfl hsome
    | cons p rest => rfl

theorem mem_current_iff :
    key ∈ violationKeys (runEnforcementChecks t ruleId w) ↔
      ∃ rule ∈ rulesToCheck ruleId w, rule.id = key.1 ∧
        key.2 ∈ (evaluateRule t w.taxonomy.entries.docs w.agents rule).violations.map
          EnforcementViolation.agentId := by
  rw [mem_violationKeys]
  constructor
  · intro ⟨r, hr, hid, hagent⟩
    obtain ⟨rule, hrule, heq⟩ := List.mem_map.mp hr
    rw [← heq, ruleId_evaluateRule] at hid
    exact ⟨rule, hrule, hid, heq ▸ hagent⟩
  · intro ⟨rule, hrule, hid, hagent⟩
    exact ⟨_, List.mem_map_of_mem hrule, ruleId_evaluateRule.trans hid, hagent⟩

theorem mem_resolved_iff :
    key ∈ (triggerCheck t ruleId w).2.resolvedViolations ↔
      key ∈ violationKeys (latestResults w.results) ∧
        key ∉ violationKeys (runEnforcementChecks t ruleId w) :=
  Finset.mem_sdiff

theorem reports_of_mem_agents {agentId : String}
    (h : agentId ∈ (evaluateRule t w.taxonomy.entries.docs w.agents rule).violations.map
      EnforcementViolation.agentId) : Reports t w rule agentId := by
  rw [mem_agents_evaluateRule] at h
  unfold Reports
  cases hpatterns : getTaxonomyPatterns rule.taxonomyCategoryId w.taxonomy.entries.docs with
  | none =>
    rw [hpatterns] at h
    exact h
  | some patterns =>
    rw [hpatterns] at h
    cases patterns with
    | nil => exact Or.inl rfl
    | cons p rest => exact Or.inr fun _ => h

theorem complies_of_reports {agentId : String} (h : Reports t w rule agentId)
    (hnone : agentId ∉ (evaluateRule t w.taxonomy.entries.docs w.agents rule).violations.map
      EnforcementViolation.agentId) :
    ∃ patterns, getTaxonomyPatterns rule.taxonomyCategoryId w.taxonomy.entries.docs =
      some patterns ∧
      (patterns = [] ∨ agentId ∉ (allViolations t rule (compilePatterns patterns) w.agents).map
        EnforcementViolation.agentId) := by
  rw [mem_agents_evaluateRule] at hnone
  unfold Reports at h
  cases hpatterns : getTaxonomyPatterns rule.taxonomyCategoryId w.taxonomy.entries.docs with
  | none =>
    rw [hpatterns] at h hnone
    exact absurd h hnone
  | some patterns =>
    rw [hpatterns] at h hnone
    refine ⟨patterns, rfl, ?_⟩
    cases patterns with
    | nil => exact Or.inl rfl
    | cons p rest =>
      rcases h with hempty | hkept
      · exact absurd hempty (List.cons_ne_nil p rest)
      · exact Or.inr fun hmem => hnone (hkept hmem)

theorem complies_iff_covers :
    (∀ key ∈ (triggerCheck t ruleId w).2.resolvedViolations, Complies t ruleId w key) ↔
      Covers t ruleId w := by
  constructor
  · intro hall key hstored
    by_cases hcurrent : key ∈ violationKeys (runEnforcementChecks t ruleId w)
    · obtain ⟨rule, hrule, hid, hagent⟩ := mem_current_iff.mp hcurrent
      exact ⟨rule, hrule, hid, reports_of_mem_agents hagent⟩
    · obtain ⟨rule, hrule, hid, patterns, hpatterns, hcomplies⟩ :=
        hall key (mem_resolved_iff.mpr ⟨hstored, hcurrent⟩)
      refine ⟨rule, hrule, hid, ?_⟩
      unfold Reports
      rw [hpatterns]
      exact hcomplies.imp_right fun hnone hmem => absurd hmem hnone
  · intro hcovers key hresolved
    obtain ⟨hstored, hcurrent⟩ := mem_resolved_iff.mp hresolved
    obtain ⟨rule, hrule, hid, hreports⟩ := hcovers key hstored
    refine ⟨rule, hrule, hid, complies_of_reports hreports fun hagent => ?_⟩
    exact hcurrent (mem_current_iff.mpr ⟨rule, hrule, hid, hagent⟩)

theorem violationKeys_triggerCheck (h : Covers t ruleId w) :
    violationKeys (latestResults (triggerCheck t ruleId w).1.results) =
      violationKeys (runEnforcementChecks t ruleId w) := by
  apply Finset.ext
  intro key
  rw [latestResults_triggerCheck, mem_violationKeys, mem_violationKeys]
  constructor
  · intro ⟨r, hr, hid, hagent⟩
    rcases List.mem_append.mp hr with hold | hnew
    · obtain ⟨hlatest, hother⟩ := List.mem_filter.mp hold
      obtain ⟨rule, hrule, hsame, -⟩ := h key (mem_violationKeys.mpr ⟨r, hlatest, hid, hagent⟩)
      have hmem : r.ruleId ∈ (rulesToCheck ruleId w).map EnforcementRule.id :=
        List.mem_map.mpr ⟨rule, hrule, hsame.trans hid.symm⟩
      exact absurd hmem (of_decide_eq_true hother)
    · exact ⟨r, hnew, hid, hagent⟩
  · intro ⟨r, hr, hid, hagent⟩
    exact ⟨r, List.mem_append_right _ hr, hid, hagent⟩

end Runs

section Histories

variable {t : Taxonomy.CaseText} {w : World} {requests : List Request}
variable {request : Request}

theorem results_perform (h : ∀ ruleId, request ≠ .triggerCheck ruleId) :
    (perform t w request).results = w.results := by
  cases request with
  | createRule r =>
    show ((createRule r w).toOption.getD w).results = _
    cases hcreate : createRule r w with
    | error e => rfl
    | ok w' => exact (of_createRule hcreate).1
  | updateRule ruleId r =>
    show ((updateRuleFields ruleId r w).toOption.getD w).results = _
    cases hupdate : updateRuleFields ruleId r w with
    | error e => rfl
    | ok w' =>
      obtain ⟨f, hid, -, heq⟩ := of_updateRuleFields hupdate
      rw [← heq]
      rfl
  | toggleRule ruleId =>
    show (toggleRule ruleId w).results = _
    unfold toggleRule
    cases getRule ruleId w with
    | none => rfl
    | some rule => rfl
  | removeRule ruleId => rfl
  | triggerCheck ruleId => exact absurd rfl (h ruleId)
  | change taxonomy agents => rfl

theorem eventsOf_cons {key : ViolationKey}
    (h : ∀ ruleId, request ≠ .triggerCheck ruleId) :
    eventsOf t key w (request :: requests) = eventsOf t key (perform t w request) requests := by
  cases request with
  | triggerCheck ruleId => exact absurd rfl (h ruleId)
  | _ => rfl

theorem AllCover.tail (h : AllCover t w (request :: requests)) :
    AllCover t (perform t w request) requests := fun n => h (n + 1)

theorem alternates_of_allCover (h : AllCover t w requests) (key : ViolationKey) :
    Alternates (key ∉ violationKeys (latestResults w.results)) (eventsOf t key w requests) := by
  induction requests generalizing w with
  | nil => trivial
  | cons request rest ih =>
    have hrest := ih h.tail
    by_cases hrun : ∃ ruleId, request = .triggerCheck ruleId
    · obtain ⟨ruleId, rfl⟩ := hrun
      have hcovers : Covers t ruleId w := h 0 ruleId rfl
      have hkeys := violationKeys_triggerCheck hcovers
      have hnext : (perform t w (.triggerCheck ruleId)).results =
          (triggerCheck t ruleId w).1.results := rfl
      rw [hnext, hkeys] at hrest
      show Alternates _ (_ ++ _ ++ eventsOf t key (triggerCheck t ruleId w).1 rest)
      simp only [Finset.mem_sdiff]
      -- it stays, is resolved, is new, or stays away
      by_cases hstored : key ∈ violationKeys (latestResults w.results)
      · by_cases hcurrent : key ∈ violationKeys (runEnforcementChecks t ruleId w)
        · simp only [hstored, hcurrent, not_true, and_false, if_false, decide_false] at hrest ⊢
          exact hrest
        · simp only [hstored, hcurrent, not_true, not_false_eq_true, and_self, if_true, if_false,
            decide_true, decide_false] at hrest ⊢
          exact ⟨rfl, hrest⟩
      · by_cases hcurrent : key ∈ violationKeys (runEnforcementChecks t ruleId w)
        · simp only [hstored, hcurrent, not_true, not_false_eq_true, and_self, if_true, if_false,
            decide_true, decide_false] at hrest ⊢
          exact ⟨rfl, hrest⟩
        · simp only [hstored, hcurrent, not_false_eq_true, false_and, if_false,
            decide_true] at hrest ⊢
          exact hrest
    · have hother : ∀ ruleId, request ≠ .triggerCheck ruleId := fun ruleId heq =>
        hrun ⟨ruleId, heq⟩
      rw [eventsOf_cons hother]
      rw [results_perform hother] at hrest
      exact hrest

/-- From a world without results on, the events of the runs are truthful if and only if every
run checks and reports every key that has a stored violation. -/
theorem truthful_iff_covers (t : Taxonomy.CaseText) (taxonomy : Taxonomy.TaxonomyStore)
    (agents : List Sync.AgentDoc) (requests : List Request) :
    Truthful t (World.initial taxonomy agents) requests ↔
      AllCover t (World.initial taxonomy agents) requests := by
  constructor
  · intro h n ruleId hrun
    exact complies_iff_covers.mp (h.resolved n ruleId hrun)
  · intro h
    refine ⟨fun n ruleId hrun => complies_iff_covers.mpr (h n ruleId hrun), fun key => ?_⟩
    exact alternates_of_allCover h key

end Histories

/-- The violation is resolved although the rule was deleted. -/
theorem deleted_rule_is_resolved :
    ¬∀ (t : Taxonomy.CaseText) (taxonomy : Taxonomy.TaxonomyStore) (agents : List Sync.AgentDoc)
      (requests : List Request), Truthful t (World.initial taxonomy agents) requests := by
  intro hall
  have hcovers := (truthful_iff_covers asciiCase Taxonomy.smallTaxonomy
    (worldWith browserRule).agents
    [.createRule createBrowserRule, .triggerCheck none, .removeRule "5", .triggerCheck none]).mp
    (hall _ _ _ _)
  obtain ⟨rule, hrule, -⟩ := hcovers 3 none rfl ("5", "a1") (by decide +kernel)
  have hnone : rulesToCheck none (performs asciiCase
      (World.initial Taxonomy.smallTaxonomy (worldWith browserRule).agents)
      [.createRule createBrowserRule, .triggerCheck none, .removeRule "5"]) = [] := by
    decide +kernel
  rw [List.take_succ_cons, List.take_succ_cons, List.take_succ_cons, List.take_zero, hnone] at hrule
  cases hrule

end Sentora.Enforcement
