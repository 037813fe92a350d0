import Sentora.Enforcement.Renames

/-!
# Views of the enforcement

Whether `get_summary` and the list of current violations show the rules that exist and
are enabled, and no others.

The results are kept under the id of their rule when the rule is deleted or disabled,
and the views are made of the results alone.  A rule whose category has no patterns
passes with a violation, which the summary counts and the list leaves out.
-/

namespace Sentora.Enforcement

open Lib

def Live (w : World) (ruleId : String) : Prop :=
  ∃ rule ∈ w.rules, rule.id = ruleId ∧ rule.enabled = true

def isLive (w : World) (ruleId : String) : Bool := (getRule ruleId w).any EnforcementRule.enabled

theorem isLive_iff {w : World} {ruleId : String} : isLive w ruleId = true ↔ Live w ruleId := by
  unfold isLive getRule
  rw [Option.any_eq_true]
  simp only [Collection.get_eq_some_iff, and_assoc]
  rfl

def liveResults (w : World) : List EnforcementResult :=
  (latestResults w.results).filter fun r => isLive w r.ruleId

structure LiveViews (w : World) : Prop where
  passing : (getSummary w).passing = (liveResults w).countP fun r => r.status == .passed
  failing : (getSummary w).failing = (liveResults w).countP fun r => r.status == .failed
  totalViolations : (getSummary w).totalViolations = totalViolations (liveResults w)
  listed : currentViolations none w = (liveResults w).flatMap EnforcementResult.details
  bounded : (getSummary w).passing + (getSummary w).failing ≤ (getSummary w).enabledRules
  none_dead : ∀ d ∈ currentViolations none w, Live w d.ruleId
  counted : (getSummary w).totalViolations = (currentViolations none w).length

structure Clean (w : World) : Prop where
  live : ∀ r ∈ latestResults w.results, Live w r.ruleId
  clean : ∀ r ∈ latestResults w.results, r.status = .passed → r.violations = []

section Views

variable {w : World}

theorem countP_passed_add_failed (results : List EnforcementResult) :
    (results.countP fun r => r.status == .passed) + (results.countP fun r => r.status == .failed) =
      results.length := by
  induction results with
  | nil => rfl
  | cons r rest ih =>
    rw [List.countP_cons, List.countP_cons, List.length_cons]
    cases r.status with
    | passed => simp; omega
    | failed => simp; omega

theorem live_of_counts
    (hpassing : (getSummary w).passing = (liveResults w).countP fun r => r.status == .passed)
    (hfailing : (getSummary w).failing = (liveResults w).countP fun r => r.status == .failed) :
    ∀ r ∈ latestResults w.results, Live w r.ruleId := by
  have hlength : (liveResults w).length = (latestResults w.results).length := by
    rw [← countP_passed_add_failed, ← countP_passed_add_failed, ← hpassing, ← hfailing]
    rfl
  intro r hr
  exact isLive_iff.mp (List.length_filter_eq_length_iff.mp hlength r hr)

theorem liveResults_eq (h : ∀ r ∈ latestResults w.results, Live w r.ruleId) :
    liveResults w = latestResults w.results :=
  List.filter_eq_self.mpr fun r hr => isLive_iff.mpr (h r hr)

theorem length_latestResults_le (h : ∀ r ∈ latestResults w.results, Live w r.ruleId) :
    (latestResults w.results).length ≤ (getSummary w).enabledRules := by
  have hsubset : (latestResults w.results).map EnforcementResult.ruleId ⊆
      ((listRules false w).filter EnforcementRule.enabled).map EnforcementRule.id := by
    intro ruleId hmem
    obtain ⟨r, hr, hid⟩ := List.mem_map.mp hmem
    obtain ⟨rule, hrule, hsame, henabled⟩ := h r hr
    have hlisted : rule ∈ listRules false w := mem_listRules.mpr ⟨hrule, fun h => by cases h⟩
    exact List.mem_map.mpr ⟨rule, List.mem_filter.mpr ⟨hlisted, henabled⟩, hsame.trans hid⟩
  have hle := (List.subperm_of_subset nodup_keys_latest hsubset).length_le
  rw [List.length_map, List.length_map] at hle
  show _ ≤ (listRules false w).countP EnforcementRule.enabled
  rw [List.countP_eq_length_filter]
  exact hle

theorem length_currentViolations :
    (currentViolations none w).length =
      totalViolations ((latestResults w.results).filter fun r => r.status == .failed) := by
  unfold currentViolations totalViolations
  rw [List.length_flatMap]
  simp only [EnforcementResult.details, List.length_map, Option.all_none, Bool.and_true]

theorem totalViolations_cons (r : EnforcementResult) (rest : List EnforcementResult) :
    totalViolations (r :: rest) = r.violations.length + totalViolations rest :=
  List.sum_cons

theorem totalViolations_filter_le (p : EnforcementResult → Bool)
    (results : List EnforcementResult) :
    totalViolations (results.filter p) ≤ totalViolations results := by
  induction results with
  | nil => exact Nat.le_refl 0
  | cons r rest ih =>
    rw [List.filter_cons, totalViolations_cons]
    split
    · rw [totalViolations_cons]
      omega
    · omega

theorem totalViolations_eq_iff (results : List EnforcementResult) :
    totalViolations results = totalViolations (results.filter fun r => r.status == .failed) ↔
      ∀ r ∈ results, r.status = .passed → r.violations = [] := by
  induction results with
  | nil => simp
  | cons r rest ih =>
    rw [List.forall_mem_cons, ← ih, totalViolations_cons]
    have hle := totalViolations_filter_le (fun r => r.status == .failed) rest
    cases hstatus : r.status with
    | passed =>
      rw [List.filter_cons_of_neg (by simp [hstatus]), ← List.length_eq_zero_iff]
      constructor
      · intro h
        exact ⟨fun _ => by omega, by omega⟩
      · intro ⟨hnone, hrest⟩
        rw [hnone rfl, hrest, Nat.zero_add]
    | failed =>
      rw [List.filter_cons_of_pos (by simp [hstatus]), totalViolations_cons,
        Nat.add_left_cancel_iff]
      exact (and_iff_right fun h => by cases h).symm

theorem flatMap_filter_of_nil {α β : Type} {p : α → Bool} {f : α → List β} {l : List α}
    (h : ∀ a ∈ l, p a = false → f a = []) : (l.filter p).flatMap f = l.flatMap f := by
  induction l with
  | nil => rfl
  | cons a rest ih =>
    have hrest := ih fun b hb => h b (List.mem_cons_of_mem a hb)
    cases hp : p a with
    | true => rw [List.filter_cons_of_pos hp, List.flatMap_cons, List.flatMap_cons, hrest]
    | false =>
      rw [List.filter_cons_of_neg (by rw [hp]; exact Bool.false_ne_true), List.flatMap_cons,
        h a List.mem_cons_self hp, List.nil_append, hrest]

theorem liveViews_iff : LiveViews w ↔ Clean w := by
  constructor
  · intro h
    refine ⟨live_of_counts h.passing h.failing, (totalViolations_eq_iff _).mp ?_⟩
    rw [← length_currentViolations]
    exact h.counted
  · intro h
    have hlive := liveResults_eq h.live
    have hcounted : (getSummary w).totalViolations = (currentViolations none w).length := by
      rw [length_currentViolations]
      exact (totalViolations_eq_iff _).mpr h.clean
    have hlisted : currentViolations none w = (latestResults w.results).flatMap
        EnforcementResult.details := by
      unfold currentViolations
      refine flatMap_filter_of_nil fun r hr hpassed => ?_
      cases hstatus : r.status with
      | passed => rw [EnforcementResult.details, h.clean r hr hstatus, List.map_nil]
      | failed =>
        rw [hstatus] at hpassed
        cases hpassed
    refine ⟨?_, ?_, ?_, ?_, ?_, ?_, hcounted⟩
    · rw [hlive]
      rfl
    · rw [hlive]
      rfl
    · rw [hlive]
      rfl
    · rw [hlive]
      exact hlisted
    · exact (countP_passed_add_failed _).trans_le (length_latestResults_le h.live)
    · intro d hd
      rw [hlisted] at hd
      obtain ⟨r, hr, hdetail⟩ := List.mem_flatMap.mp hd
      obtain ⟨v, -, heq⟩ := List.mem_map.mp hdetail
      rw [← heq]
      exact h.live r hr

end Views

/-- A request that disables or removes no rule with results, checks no disabled rule and no
category without patterns. -/
def KeepsClean (w : World) : Request → Prop
  | .toggleRule ruleId => Live w ruleId → ruleId ∉ w.results.map EnforcementResult.ruleId
  | .removeRule ruleId => Live w ruleId → ruleId ∉ w.results.map EnforcementResult.ruleId
  | .triggerCheck ruleId => ∀ rule ∈ rulesToCheck ruleId w, rule.enabled = true ∧
      getTaxonomyPatterns rule.taxonomyCategoryId w.taxonomy.entries.docs ≠ some []
  | _ => True

def AllKeepClean (t : Taxonomy.CaseText) : World → List Request → Prop
  | _, [] => True
  | w, request :: rest => KeepsClean w request ∧ AllKeepClean t (perform t w request) rest

section Steps

variable {t : Taxonomy.CaseText} {w w' : World} {ruleId : String}

theorem Clean.of_live (h : Clean w) (hresults : w'.results = w.results)
    (hlive : ∀ id, Live w id → Live w' id) : Clean w' := by
  refine ⟨fun r hr => ?_, ?_⟩
  · rw [hresults] at hr
    exact hlive r.ruleId (h.live r hr)
  · rw [hresults]
    exact h.clean

theorem exists_latest_iff :
    (∃ r ∈ latestResults w.results, r.ruleId = ruleId) ↔
      ruleId ∈ w.results.map EnforcementResult.ruleId :=
  List.mem_map.symm.trans mem_keys_latest

theorem clean_iff_of_dead (h : Clean w) (hresults : w'.results = w.results)
    (hothers : ∀ id, id ≠ ruleId → Live w id → Live w' id) (hdead : ¬Live w' ruleId) :
    Clean w' ↔ (Live w ruleId → ruleId ∉ w.results.map EnforcementResult.ruleId) := by
  constructor
  · intro h' _ hmem
    obtain ⟨r, hr, hid⟩ := exists_latest_iff.mpr hmem
    rw [← hresults] at hr
    exact hdead (hid ▸ h'.live r hr)
  · intro hnone
    refine ⟨fun r hr => ?_, ?_⟩
    · rw [hresults] at hr
      refine hothers r.ruleId (fun hid => ?_) (h.live r hr)
      exact hnone (hid ▸ h.live r hr) (exists_latest_iff.mp ⟨r, hr, hid⟩)
    · rw [hresults]
      exact h.clean

theorem live_modifyRule {f : EnforcementRule → EnforcementRule}
    {hid : ∀ rule, (f rule).id = rule.id}
    (hf : ∀ rule, rule.enabled = true → (f rule).enabled = true) {id : String} (h : Live w id) :
    Live (w.modifyRule ruleId f hid) id := by
  obtain ⟨rule, hrule, hsame, henabled⟩ := h
  refine ⟨_, mem_modifyRule.mpr ⟨rule, hrule, rfl⟩, ?_, ?_⟩
  · split
    · exact (hid rule).trans hsame
    · exact hsame
  · split
    · exact hf rule henabled
    · exact henabled

theorem clean_createRule (h : Clean w) (r : CreateRuleRequest) :
    Clean (perform t w (.createRule r)) := by
  show Clean ((createRule r w).toOption.getD w)
  cases hcreate : createRule r w with
  | error e => exact h
  | ok w' =>
    obtain ⟨hresults, hrules⟩ := of_createRule hcreate
    exact h.of_live hresults fun id ⟨rule, hrule, hlive⟩ => ⟨rule, hrules rule hrule, hlive⟩

theorem clean_updateRule (h : Clean w) (r : UpdateRuleRequest) :
    Clean (perform t w (.updateRule ruleId r)) := by
  show Clean ((updateRuleFields ruleId r w).toOption.getD w)
  cases hupdate : updateRuleFields ruleId r w with
  | error e => exact h
  | ok w' =>
    obtain ⟨f, hid, henabled, heq⟩ := of_updateRuleFields hupdate
    rw [← heq]
    exact h.of_live rfl fun id => live_modifyRule fun rule hrule => (henabled rule).trans hrule

theorem clean_toggleRule_iff (h : Clean w) :
    Clean (perform t w (.toggleRule ruleId)) ↔ KeepsClean w (.toggleRule ruleId) := by
  show Clean (toggleRule ruleId w) ↔ _
  unfold toggleRule
  cases hget : getRule ruleId w with
  | none =>
    refine iff_of_true h fun ⟨rule, hrule, hid, _⟩ => ?_
    exact absurd hid (Collection.get_eq_none_iff.mp hget rule hrule)
  | some rule =>
    dsimp only
    obtain ⟨hrule, hid⟩ := Collection.get_eq_some_iff.mp hget
    cases henabled : rule.enabled with
    | false =>
      refine iff_of_true (h.of_live rfl fun id => live_modifyRule fun _ _ => rfl) ?_
      intro ⟨other, hother, hsame, hlive⟩
      rw [w.rules.eq_of_key hother hrule (hsame.trans hid.symm), henabled] at hlive
      cases hlive
    | true =>
      refine clean_iff_of_dead h rfl ?_ ?_
      · intro id hne ⟨other, hother, hsame, hlive⟩
        have hout : other.id ≠ ruleId := hsame ▸ hne
        exact ⟨other, mem_modifyRule.mpr ⟨other, hother, if_neg hout⟩, hsame, hlive⟩
      · intro ⟨other, hother, hsame, hlive⟩
        obtain ⟨old, _, heq⟩ := mem_modifyRule.mp hother
        by_cases hold : old.id = ruleId
        · rw [if_pos hold] at heq
          rw [← heq] at hlive
          cases hlive
        · rw [if_neg hold] at heq
          exact hold (heq ▸ hsame)

theorem clean_removeRule_iff (h : Clean w) :
    Clean (perform t w (.removeRule ruleId)) ↔ KeepsClean w (.removeRule ruleId) := by
  refine clean_iff_of_dead h rfl ?_ ?_
  · intro id hne ⟨rule, hrule, hsame, hlive⟩
    refine ⟨rule, Collection.mem_deleteMany.mpr ⟨hrule, ?_⟩, hsame, hlive⟩
    exact beq_eq_false_iff_ne.mpr (hsame ▸ hne)
  · intro ⟨rule, hrule, hsame, _⟩
    exact beq_eq_false_iff_ne.mp (Collection.mem_deleteMany.mp hrule).2 hsame

theorem clean_triggerCheck_iff (h : Clean w) (ruleId : Option String) :
    Clean (perform t w (.triggerCheck ruleId)) ↔ KeepsClean w (.triggerCheck ruleId) := by
  have hmem : ∀ r, r ∈ latestResults (triggerCheck t ruleId w).1.results ↔
      (r ∈ latestResults w.results ∧
          r.ruleId ∉ (rulesToCheck ruleId w).map EnforcementRule.id) ∨
        ∃ rule ∈ rulesToCheck ruleId w,
          evaluateRule t w.taxonomy.entries.docs w.agents rule = r := by
    intro r
    rw [latestResults_triggerCheck, List.mem_append, List.mem_filter, decide_eq_true_iff]
    exact or_congr_right List.mem_map
  constructor
  · intro h' rule hrule
    have hlatest := (hmem _).mpr (Or.inr ⟨rule, hrule, rfl⟩)
    obtain ⟨other, hother, hsame, hlive⟩ := h'.live _ hlatest
    rw [ruleId_evaluateRule] at hsame
    have heq : other = rule := w.rules.eq_of_key hother (mem_of_mem_rulesToCheck hrule) hsame
    exact ⟨heq ▸ hlive, passed_clean_iff.mp (h'.clean _ hlatest)⟩
  · intro hkeeps
    constructor
    · intro r hr
      rcases (hmem r).mp hr with ⟨hold, -⟩ | ⟨rule, hrule, heq⟩
      · exact h.live r hold
      · rw [← heq, ruleId_evaluateRule]
        exact ⟨rule, mem_of_mem_rulesToCheck hrule, rfl, (hkeeps rule hrule).1⟩
    · intro r hr
      rcases (hmem r).mp hr with ⟨hold, -⟩ | ⟨rule, hrule, heq⟩
      · exact h.clean r hold
      · rw [← heq]
        exact passed_clean_iff.mpr (hkeeps rule hrule).2

theorem clean_perform_iff (h : Clean w) (request : Request) :
    Clean (perform t w request) ↔ KeepsClean w request := by
  cases request with
  | createRule r => exact iff_of_true (clean_createRule h r) trivial
  | updateRule ruleId r => exact iff_of_true (clean_updateRule h r) trivial
  | toggleRule ruleId => exact clean_toggleRule_iff h
  | removeRule ruleId => exact clean_removeRule_iff h
  | triggerCheck ruleId => exact clean_triggerCheck_iff h ruleId
  | change taxonomy agents => exact iff_of_true (h.of_live rfl fun _ hlive => hlive) trivial

theorem clean_performs_iff {requests : List Request} (h : Clean w) :
    (∀ n, Clean (performs t w (requests.take n))) ↔ AllKeepClean t w requests := by
  induction requests generalizing w with
  | nil =>
    refine iff_of_true (fun n => ?_) trivial
    rw [List.take_nil]
    exact h
  | cons request rest ih =>
    constructor
    · intro hall
      have hfirst : Clean (perform t w request) := hall 1
      exact ⟨(clean_perform_iff h request).mp hfirst, (ih hfirst).mp fun n => hall (n + 1)⟩
    · intro ⟨hkeeps, hrest⟩ n
      cases n with
      | zero => exact h
      | succ n => exact (ih ((clean_perform_iff h request).mpr hkeeps)).mpr hrest n

end Steps

/-- From a world without rules and results on, the views show the live rules after each of
some requests if and only if every request keeps the results clean. -/
theorem live_views_iff (t : Taxonomy.CaseText) (taxonomy : Taxonomy.TaxonomyStore)
    (agents : List Sync.AgentDoc) (requests : List Request) :
    (∀ n, LiveViews (performs t (World.initial taxonomy agents) (requests.take n))) ↔
      AllKeepClean t (World.initial taxonomy agents) requests := by
  simp only [liveViews_iff]
  apply clean_performs_iff
  constructor
  · intro r hr
    cases hr
  · intro r hr
    cases hr

def createBrowserRule : CreateRuleRequest where
  id := "5"
  name := "Browser"
  taxonomyCategoryId := "browsers"
  type := "required"
  severity := "high"

/-- The violations of a rule stay when it is deleted. -/
theorem deleted_rule_is_shown :
    ¬∀ (t : Taxonomy.CaseText) (taxonomy : Taxonomy.TaxonomyStore) (agents : List Sync.AgentDoc)
      (requests : List Request) (n : Nat),
      LiveViews (performs t (World.initial taxonomy agents) (requests.take n)) := by
  intro hall
  have hviews := hall asciiCase Taxonomy.smallTaxonomy (worldWith browserRule).agents
    [.createRule createBrowserRule, .triggerCheck none, .removeRule "5"] 3
  exact absurd hviews.bounded (by decide +kernel)

end Sentora.Enforcement
