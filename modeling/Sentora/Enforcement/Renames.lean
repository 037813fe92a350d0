import Sentora.Enforcement.Meaning
import Sentora.Enforcement.Service
import Sentora.Taxonomy.Categories

/-!
# Renaming a category under its rules

Whether the checks find the same after `update_category` of the taxonomy service.

The update renames the entries and the document of the category.  The rules keep the old
key, under which there are no patterns any more, so that they pass without a check.
-/

namespace Sentora.Enforcement

open Lib Taxonomy

section Patterns

variable {docs : List EntryDoc} {key key' oldKey : String} {newKey newDisplay : Option String}
  {f : EntryDoc → EntryDoc}

theorem getTaxonomyPatterns_map
    (h : ∀ doc ∈ docs, (f doc).inCategory key = doc.inCategory key')
    (hpatterns : ∀ doc, (f doc).patterns = doc.patterns) :
    getTaxonomyPatterns key (docs.map f) = getTaxonomyPatterns key' docs := by
  unfold getTaxonomyPatterns
  have hfilter : docs.filter (EntryDoc.inCategory key ∘ f) =
    docs.filter (EntryDoc.inCategory key') :=
    List.filter_congr h
  have hsame : EntryDoc.patterns ∘ f = EntryDoc.patterns := funext hpatterns
  rw [List.filter_map, hfilter, List.mapM_map, hsame]

theorem getTaxonomyPatterns_of_unused (h : ∀ doc ∈ docs, doc.category ≠ some key) :
    getTaxonomyPatterns key docs = some [] := by
  have hnone : docs.filter (EntryDoc.inCategory key) = [] := by
    rw [List.filter_eq_nil_iff]
    exact fun doc hdoc hin => h doc hdoc (inCategory_iff.mp hin)
  unfold getTaxonomyPatterns
  rw [hnone]
  rfl

def renameDoc (oldKey : String) (newKey newDisplay : Option String) (doc : EntryDoc) : EntryDoc :=
  if doc.inCategory oldKey then doc.recategorize newKey newDisplay else doc

theorem category_renameDoc (doc : EntryDoc) :
    (renameDoc oldKey newKey newDisplay doc).category =
      if doc.category = some oldKey then some (newKey.getD oldKey) else doc.category := by
  unfold renameDoc
  by_cases hin : doc.category = some oldKey
  · rw [if_pos (inCategory_iff.mpr hin), if_pos hin]
    show newKey.or doc.category = _
    rw [hin]
    cases newKey with
    | none => rfl
    | some newKey => rfl
  · rw [if_neg fun h => hin (inCategory_iff.mp h), if_neg hin]

theorem patterns_renameDoc (doc : EntryDoc) :
    (renameDoc oldKey newKey newDisplay doc).patterns = doc.patterns := by
  unfold renameDoc
  split
  · rfl
  · rfl

theorem getTaxonomyPatterns_renameDoc
    (hunused : newKey.getD oldKey ≠ oldKey → ∀ doc ∈ docs,
      doc.category ≠ some (newKey.getD oldKey)) :
    getTaxonomyPatterns key (docs.map (renameDoc oldKey newKey newDisplay)) =
      if newKey.getD oldKey = oldKey then getTaxonomyPatterns key docs
      else if key = oldKey then some []
      else if key = newKey.getD oldKey then getTaxonomyPatterns oldKey docs
      else getTaxonomyPatterns key docs := by
  generalize hnew : newKey.getD oldKey = new at hunused ⊢
  have hcategory : ∀ doc, (renameDoc oldKey newKey newDisplay doc).category =
      if doc.category = some oldKey then some new else doc.category := by
    rw [← hnew]
    exact category_renameDoc
  have hmove : ∀ {key'}, (∀ doc ∈ docs,
      (if doc.category = some oldKey then some new else doc.category) = some key ↔
        doc.category = some key') →
      getTaxonomyPatterns key (docs.map (renameDoc oldKey newKey newDisplay)) =
        getTaxonomyPatterns key' docs := by
    intro key' h
    refine getTaxonomyPatterns_map (fun doc hdoc => ?_) patterns_renameDoc
    rw [Bool.eq_iff_iff, inCategory_iff, inCategory_iff, hcategory]
    exact h doc hdoc
  split_ifs with hsame hold hnewkey
  · refine hmove fun doc _ => ?_
    rw [hsame]
    split_ifs with hin
    · rw [hin]
    · rfl
  · refine getTaxonomyPatterns_of_unused fun d hd => ?_
    obtain ⟨doc, -, heq⟩ := List.mem_map.mp hd
    rw [← heq, hcategory, hold]
    split_ifs with hin
    · exact fun h => hsame (Option.some.inj h)
    · exact hin
  · refine hmove fun doc hdoc => ?_
    rw [hnewkey]
    split_ifs with hin
    · exact iff_of_true rfl hin
    · exact iff_of_false (hunused hsame doc hdoc) hin
  · refine hmove fun doc hdoc => ?_
    split_ifs with hin
    · rw [hin, Option.some_inj, Option.some_inj]
      exact iff_of_false (fun h => hnewkey h.symm) fun h => hold h.symm
    · rfl

end Patterns

section Checks

variable {t : CaseText} {docs docs' : List EntryDoc} {agents : List Sync.AgentDoc}
  {rule : EnforcementRule}

theorem evaluateRule_congr
    (h : getTaxonomyPatterns rule.taxonomyCategoryId docs =
      getTaxonomyPatterns rule.taxonomyCategoryId docs') :
    evaluateRule t docs agents rule = evaluateRule t docs' agents rule := by
  unfold evaluateRule
  rw [h]

theorem checkAgents_ne_unchecked {found : Sync.AgentDoc → List EnforcementViolation}
    {count : List EnforcementViolation → Nat} :
    checkAgents found count rule agents ≠ rule.unchecked := by
  unfold checkAgents
  dsimp only
  by_cases hnone : (agents.filter (inScope rule)).length = 0
  · rw [if_pos hnone]
    intro heq
    exact List.cons_ne_nil _ _ (congrArg EnforcementResult.violations heq).symm
  · rw [if_neg hnone]
    intro heq
    exact hnone (congrArg EnforcementResult.totalAgents heq)

theorem check_ne_unchecked {compiled : List (List Glob.Token)} :
    check t rule compiled agents ≠ rule.unchecked := by
  unfold check
  cases rule.type with
  | required => exact checkAgents_ne_unchecked
  | forbidden => exact checkAgents_ne_unchecked
  | allowlist => exact checkAgents_ne_unchecked

theorem evaluateRule_eq_unchecked_iff :
    evaluateRule t docs agents rule = rule.unchecked ↔
      getTaxonomyPatterns rule.taxonomyCategoryId docs = some [] := by
  unfold evaluateRule
  cases getTaxonomyPatterns rule.taxonomyCategoryId docs with
  | none =>
    refine iff_of_false (fun heq => ?_) (fun h => by cases h)
    have hstatus : CheckStatus.failed = .passed := congrArg EnforcementResult.status heq
    cases hstatus
  | some patterns =>
    cases patterns with
    | nil => exact iff_of_true rfl rfl
    | cons p rest => exact iff_of_false check_ne_unchecked (fun h => by cases h)

theorem evaluateRule_renameDoc_eq_iff {oldKey : String} {newKey newDisplay : Option String}
    (hne : newKey.getD oldKey ≠ oldKey)
    (hunused : ∀ doc ∈ docs, doc.category ≠ some (newKey.getD oldKey)) :
    evaluateRule t (docs.map (renameDoc oldKey newKey newDisplay)) agents rule =
        evaluateRule t docs agents rule ↔
      getTaxonomyPatterns oldKey docs = some [] ∨
        (rule.taxonomyCategoryId ≠ oldKey ∧ rule.taxonomyCategoryId ≠ newKey.getD oldKey) := by
  have hrule := @getTaxonomyPatterns_renameDoc docs rule.taxonomyCategoryId oldKey newKey
    newDisplay fun _ => hunused
  rw [if_neg hne] at hrule
  by_cases hold : rule.taxonomyCategoryId = oldKey
  · rw [if_pos hold] at hrule
    rw [evaluateRule_eq_unchecked_iff.mpr hrule, eq_comm, evaluateRule_eq_unchecked_iff, hold]
    exact (or_iff_left fun h => h.1 rfl).symm
  · rw [if_neg hold] at hrule
    by_cases hnew : rule.taxonomyCategoryId = newKey.getD oldKey
    · have hbefore : getTaxonomyPatterns rule.taxonomyCategoryId docs = some [] :=
        hnew ▸ getTaxonomyPatterns_of_unused hunused
      rw [if_pos hnew] at hrule
      rw [evaluateRule_eq_unchecked_iff.mpr hbefore, evaluateRule_eq_unchecked_iff, hrule]
      exact (or_iff_left fun h => h.2 hnew).symm
    · rw [if_neg hnew] at hrule
      exact iff_of_true (evaluateRule_congr hrule) (Or.inr ⟨hold, hnew⟩)

end Checks

section Update

variable {t : CaseText} {fails : Bool} {categoryKey : String} {r : CategoryUpdateRequest}
  {response : CategoryUpdateResponse} {w : World}

def renamed (fails : Bool) (categoryKey : String) (r : CategoryUpdateRequest) (w : World) : World :=
  { w with taxonomy := (run (updateCategory fails categoryKey r) w.taxonomy).1 }

theorem docs_of_updateCategory {s : TaxonomyStore}
    (hdone : (run (updateCategory fails categoryKey r) s).2 = .ok response) :
    (run (updateCategory fails categoryKey r) s).1.entries.docs =
      s.entries.docs.map (renameDoc categoryKey r.key r.display) := by
  obtain ⟨catDoc, hfound, hupdate⟩ := run_of_ok hdone
  have hfound' : getCategory categoryKey (recategorized categoryKey r.key r.display s) =
      some catDoc := hfound
  rw [(mem_updateCategoryDoc hupdate hfound').1]
  rfl

/-- No rule is affected where the key stays, where the category has no patterns, or where no
enabled rule refers to the old key or to the new one. -/
def Unaffected (categoryKey : String) (r : CategoryUpdateRequest) (w : World) : Prop :=
  r.key.getD categoryKey = categoryKey ∨
    getTaxonomyPatterns categoryKey w.taxonomy.entries.docs = some [] ∨
      ∀ rule ∈ listRules true w, rule.taxonomyCategoryId ≠ categoryKey ∧
        rule.taxonomyCategoryId ≠ r.key.getD categoryKey

/-- A successful update to an unused key leaves the result of every enabled rule as it was if
and only if no rule is affected. -/
theorem rename_keeps_results_iff (t : CaseText) (fails : Bool) (categoryKey : String)
    (r : CategoryUpdateRequest) (response : CategoryUpdateResponse) (w : World)
    (hdone : (run (updateCategory fails categoryKey r) w.taxonomy).2 = .ok response)
    (hunused : ∀ newKey, r.key = some newKey → newKey ≠ categoryKey →
      ∀ doc ∈ w.taxonomy.entries, doc.category ≠ some newKey) :
    runEnforcementChecks t none (renamed fails categoryKey r w) = runEnforcementChecks t none w ↔
      Unaffected categoryKey r w := by
  have hunused' : r.key.getD categoryKey ≠ categoryKey →
      ∀ doc ∈ w.taxonomy.entries.docs, doc.category ≠ some (r.key.getD categoryKey) := by
    intro hne
    cases hkey : r.key with
    | none =>
      rw [hkey] at hne
      exact absurd rfl hne
    | some newKey =>
      rw [hkey] at hne
      exact hunused newKey hkey hne
  have hdocs : (renamed fails categoryKey r w).taxonomy.entries.docs = _ :=
    docs_of_updateCategory hdone
  have hrules : runEnforcementChecks t none (renamed fails categoryKey r w) =
        runEnforcementChecks t none w ↔
      ∀ rule ∈ listRules true w,
        evaluateRule t (renamed fails categoryKey r w).taxonomy.entries.docs w.agents rule =
          evaluateRule t w.taxonomy.entries.docs w.agents rule := List.map_inj_left
  rw [hrules, hdocs]
  unfold Unaffected
  by_cases hsame : r.key.getD categoryKey = categoryKey
  · refine iff_of_true (fun rule _ => evaluateRule_congr ?_) (Or.inl hsame)
    rw [getTaxonomyPatterns_renameDoc hunused', if_pos hsame]
  · rw [or_iff_right hsame]
    simp only [evaluateRule_renameDoc_eq_iff hsame (hunused' hsame)]
    constructor
    · intro hall
      by_cases hempty : getTaxonomyPatterns categoryKey w.taxonomy.entries.docs = some []
      · exact Or.inl hempty
      · exact Or.inr fun rule hrule => (hall rule hrule).resolve_left hempty
    · rintro (hempty | hnone) rule hrule
      · exact Or.inl hempty
      · exact Or.inr (hnone rule hrule)

end Update

def browserRule : EnforcementRule where
  id := "5"
  name := "Browser"
  taxonomyCategoryId := "browsers"
  type := .required
  severity := .high

def utilityRule : EnforcementRule where
  id := "6"
  name := "Utilities"
  taxonomyCategoryId := "utilities"
  type := .forbidden
  severity := .low

def worldWith (rule : EnforcementRule) : World where
  taxonomy := smallTaxonomy
  agents := [{ id := "7", source := some "sentinelone", sourceId := "a1", hostname := "host" }]
  rules := ⟨[rule], List.nodup_singleton _⟩
  results := []

theorem web_unused : ∀ newKey, some "web" = some newKey → newKey ≠ "browsers" →
    ∀ doc ∈ smallTaxonomy.entries, doc.category ≠ some newKey := by
  intro newKey hkey _ doc hdoc
  rw [← Option.some.inj hkey]
  revert doc
  decide

/-- The rule is about another category. -/
theorem rename_of_browsers_keeps_utilities :
    runEnforcementChecks asciiCase none
        (renamed false "browsers" { key := some "web" } (worldWith utilityRule)) =
      runEnforcementChecks asciiCase none (worldWith utilityRule) :=
  (rename_keeps_results_iff asciiCase false "browsers" { key := some "web" }
    ⟨"browsers", "web", "Browsers", 1⟩ (worldWith utilityRule) rfl web_unused).mpr
    (Or.inr (Or.inr fun rule hrule => by
      rw [List.mem_singleton.mp hrule]
      decide))

/-- The rule requires a browser, which the only agent does not have. -/
theorem rename_silences_rule :
    ¬∀ (t : CaseText) (fails : Bool) (categoryKey : String) (r : CategoryUpdateRequest)
      (response : CategoryUpdateResponse) (w : World),
      (run (updateCategory fails categoryKey r) w.taxonomy).2 = .ok response →
        (∀ newKey, r.key = some newKey → newKey ≠ categoryKey →
          ∀ doc ∈ w.taxonomy.entries, doc.category ≠ some newKey) →
        runEnforcementChecks t none (renamed fails categoryKey r w) =
          runEnforcementChecks t none w := by
  intro hall
  have hsame := hall asciiCase false "browsers" { key := some "web" }
    ⟨"browsers", "web", "Browsers", 1⟩ (worldWith browserRule) rfl web_unused
  have hunaffected := (rename_keeps_results_iff asciiCase false "browsers" { key := some "web" }
    ⟨"browsers", "web", "Browsers", 1⟩ (worldWith browserRule) rfl web_unused).mp hsame
  rcases hunaffected with hkey | hempty | hnone
  · exact absurd hkey (by decide)
  · exact absurd hempty (by decide)
  · exact (hnone browserRule (List.mem_singleton.mpr rfl)).1 rfl

end Sentora.Enforcement
