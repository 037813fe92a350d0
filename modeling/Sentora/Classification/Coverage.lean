import Sentora.Classification.Sweeps

/-!
# What a run covers

Whether a completed run has stored one result for each agent, from the agent's own applications,
and counted the agents.

Results are stored by the id that an agent has in its source, so that agents of two sources may
have one result.  An agent without a list of names is given those of all applications with its
id.  Results of agents that are gone are kept, and the overview counts them.
-/

namespace Sentora.Classification

open Lib

section Definitions

variable {F : Type}

def ownAppNames (apps : List Sync.AppDoc) (agent : Sync.AgentDoc) : List String :=
  match agent.installedAppNames.getD [] with
  | [] => appNames (apps.filter fun d => isActiveOf agent.sourceId d && d.source == agent.source)
  | names => names

def ownResult (e : Engine F) (fails : Failures) (db : Database F) (runId : Nat)
    (agent : Sync.AgentDoc) : ClassificationResult F :=
  classifySingleAgent e.text e.floats (load fails db runId) (e.clock agent)
    (ownAppNames db.installedApps agent) agent

def inScope (db : Database F) (r : ClassificationResult F) : Bool :=
  (db.agents.docs.map Sync.AgentDoc.sourceId).contains r.agentId

/-- A run has stored one result for each agent, that of its own applications, has counted the
agents, and without errors the overview shows them. -/
structure Covers (e : Engine F) (fails : Failures) (db after : Database F)
    (run : ClassificationRun) : Prop where
  own : ∀ a ∈ db.agents, after.results.get a.sourceId = some (ownResult e fails db run.id a)
  each : after.results.docs.countP (inScope db) = db.agents.docs.length
  counted : run.agentsClassified + run.errors = db.agents.docs.length
  overview : run.errors = 0 → (getOverview after.results.docs).total = db.agents.docs.length ∧
    ∀ r ∈ after.results, ∃ a ∈ db.agents, a.sourceId = r.agentId

/-- The agents have distinct ids in their sources, all batches are fetched, all results are
written and are those of the agents' own applications, and if no write raises then no result of
another agent was there. -/
structure Favourable (e : Engine F) (fails : Failures) (db : Database F) : Prop where
  distinct : (db.agents.docs.map Sync.AgentDoc.sourceId).Nodup
  fetched : db.agents.docs ≠ [] → Fetched fails e.batchSize 0 db.agents.docs.length
  stored : ∀ a ∈ db.agents, isStored fails a = true
  own : ∀ a ∈ db.agents,
    resultOf e fails db (newRunId db) a = ownResult e fails db (newRunId db) a
  stale : (∀ k < pageCount e.batchSize db.agents.docs.length, fails.upsert k = false) →
    ∀ r ∈ db.results, ∃ a ∈ db.agents, a.sourceId = r.agentId

def runFrom [DecidableEq F] (e : Engine F) (trigger : String) (fails : Failures)
    (db : Database F) : Database F :=
  runClassification e fails (newRunId db) (saveRun trigger db)

end Definitions

theorem le_foldr_max {l : List Nat} {n : Nat} (h : n ∈ l) : n ≤ l.foldr max 0 := by
  induction l with
  | nil => cases h
  | cons m rest ih =>
    rw [List.foldr_cons]
    rcases List.mem_cons.mp h with rfl | hrest
    · exact Nat.le_max_left ..
    · exact Nat.le_trans (ih hrest) (Nat.le_max_right ..)

theorem runId_lt_newRunId {F : Type} {db : Database F} {r : ClassificationResult F}
    (h : r ∈ db.results) :
    r.runId < newRunId db :=
  Nat.lt_succ_of_le (le_foldr_max (List.mem_append_left _ (List.mem_map_of_mem h)))

theorem get_updateRun {ending : Ending} {runId classified errors : Nat} {status : RunStatus}
    {runs : Collection ClassificationRun.id} :
    (updateRun ending runId status classified errors runs).get runId =
      (runs.get runId).map fun run =>
        if ending.isApplied then finishRun status classified errors run else run := by
  unfold updateRun
  cases ending.isApplied with
  | false =>
    rw [if_neg Bool.false_ne_true]
    exact Option.map_id.symm ▸ rfl
  | true =>
    rw [if_pos rfl]
    refine (Collection.get_updateOne id_finishRun ?_).trans ?_
    · intro d hd d' hd' h h'
      exact runs.eq_of_key hd hd' ((beq_iff_eq.mp h).trans (beq_iff_eq.mp h').symm)
    · refine Option.map_congr fun run hget => ?_
      have hid := (Collection.get_eq_some_iff.mp hget).2
      rw [if_pos (beq_iff_eq.mpr hid), if_pos rfl]

theorem get_saveRun {F : Type} {trigger : String} {db : Database F} :
    (saveRun trigger db).runs.get (newRunId db) =
      some ⟨newRunId db, trigger, .running, 0, 0⟩ := by
  rw [saveRun, Collection.get_replaceOne, if_pos rfl]

section Ending

variable {F : Type} [DecidableEq F] {e : Engine F} {trigger : String} {fails : Failures}
  {db : Database F} {run : ClassificationRun}

theorem progress_of_completed
    (hrun : (runFrom e trigger fails db).runs.get (newRunId db) = some run)
    (hcompleted : run.status = .completed) :
    ∃ p, classifyAll e fails (newRunId db) (saveRun trigger db) = some p ∧
      (runFrom e trigger fails db).results = p.results ∧ run.id = newRunId db ∧
      run.agentsClassified = p.classified ∧ run.errors = p.errors := by
  have hid := (Collection.get_eq_some_iff.mp hrun).2
  unfold runFrom runClassification at hrun ⊢
  cases hall : classifyAll e fails (newRunId db) (saveRun trigger db) with
  | none =>
    simp only [hall, get_updateRun, get_saveRun, Option.map_some, Option.some.injEq] at hrun
    rw [← hrun] at hcompleted
    split at hcompleted
    · cases hcompleted
    · cases hcompleted
  | some p =>
    refine ⟨p, rfl, rfl, hid, ?_⟩
    -- the update to completed is applied, and that to failed is not
    have hcounts : ∀ run', (updateRun fails.update (newRunId db) .completed p.classified p.errors
        (saveRun trigger db).runs).get (newRunId db) = some run' → run'.status = .completed →
          run'.agentsClassified = p.classified ∧ run'.errors = p.errors := by
      intro run' hget hstatus
      rw [get_updateRun, get_saveRun, Option.map_some, Option.some.injEq] at hget
      rw [← hget] at hstatus ⊢
      split at hstatus
      · rename_i happlied
        rw [if_pos happlied]
        exact ⟨rfl, rfl⟩
      · cases hstatus
    simp only [hall] at hrun
    split at hrun
    · rw [get_updateRun] at hrun
      obtain ⟨run', hget, hfinish⟩ := Option.map_eq_some_iff.mp hrun
      split at hfinish
      · rw [← hfinish] at hcompleted
        cases hcompleted
      · rw [← hfinish] at hcompleted ⊢
        exact hcounts run' hget hcompleted
    · exact hcounts run hrun hcompleted

theorem sweeps_classifyAll {p : Progress F}
    (h : classifyAll e fails (newRunId db) (saveRun trigger db) = some p) :
    (db.agents.docs = [] ∧ p = { results := db.results }) ∨
      (db.agents.docs ≠ [] ∧
        Sweeps (resultOf e fails db (newRunId db)) e.batchSize fails 0
          (sortBy Sync.AgentDoc.id db.agents.docs) { results := db.results } p) := by
  unfold classifyAll at h
  split at h
  · cases h
  · split at h
    · rename_i hnone
      exact Or.inl ⟨List.eq_nil_of_length_eq_zero hnone, (Option.some.inj h).symm⟩
    · rename_i hsome
      refine Or.inr ⟨fun hnil => hsome (hnil ▸ rfl), ?_⟩
      rw [← Option.some.inj h]
      have hlength := (perm_sortBy Sync.AgentDoc.id db.agents.docs).length_eq
      have hall : afterId none db.agents.docs = db.agents.docs :=
        List.filter_eq_self.mpr fun _ _ => rfl
      refine sweeps_runBatches e.positive db.agents.distinct (congrArg _ hall) ?_
      rw [hlength]
      exact Nat.lt_succ_self _

def AllFetched (e : Engine F) (fails : Failures) (db : Database F) : Prop :=
  db.agents.docs ≠ [] → Fetched fails e.batchSize 0 db.agents.docs.length

theorem account_classifyAll {p : Progress F}
    (h : classifyAll e fails (newRunId db) (saveRun trigger db) = some p) :
    ∃ m ≤ db.agents.docs.length,
      p.results = db.results.bulkReplace (storedResults (resultOf e fails db (newRunId db)) fails
        ((sortBy Sync.AgentDoc.id db.agents.docs).take m)) ∧
      ((AllFetched e fails db ∧ m = db.agents.docs.length ∧ p.classified + p.errors = m) ∨
        (¬AllFetched e fails db ∧ p.classified + p.errors = m + 1)) := by
  have hlength := (perm_sortBy Sync.AgentDoc.id db.agents.docs).length_eq
  rcases sweeps_classifyAll h with ⟨hnil, rfl⟩ | ⟨hne, hsweeps⟩
  · exact ⟨0, Nat.zero_le _, rfl, Or.inl ⟨fun hne => absurd hnil hne, hnil ▸ rfl, rfl⟩⟩
  · obtain ⟨m, hm, hresults, hcases⟩ := hsweeps.account e.positive
    rw [hlength] at hm hcases
    refine ⟨m, hm, hresults, ?_⟩
    rcases hcases with ⟨hfetched, heq, hsum⟩ | ⟨hunfetched, hsum⟩
    · refine Or.inl ⟨fun _ => hfetched, heq, hsum.trans ?_⟩
      show 0 + 0 + m = m
      omega
    · refine Or.inr ⟨fun hall => hunfetched (hall hne), hsum.trans ?_⟩
      show 0 + 0 + m + 1 = m + 1
      omega

theorem errors_classifyAll {p : Progress F}
    (h : classifyAll e fails (newRunId db) (saveRun trigger db) = some p)
    (hfetched : AllFetched e fails db)
    (hstored : ∀ a ∈ db.agents, isStored fails a = true)
    (hdistinct : (db.agents.docs.map Sync.AgentDoc.sourceId).Nodup) :
    p.errors = 0 ↔
      ∀ k < pageCount e.batchSize db.agents.docs.length, fails.upsert k = false := by
  have hperm := perm_sortBy Sync.AgentDoc.id db.agents.docs
  rcases sweeps_classifyAll h with ⟨hnil, rfl⟩ | ⟨hne, hsweeps⟩
  · refine iff_of_true rfl fun k hk => ?_
    rw [hnil] at hk
    exact absurd (mul_lt_of_lt_pageCount hk) (Nat.not_lt_zero _)
  · have hall := hsweeps.errors_eq_iff e.positive (hperm.length_eq ▸ hfetched hne)
      (fun a ha => hstored a (hperm.mem_iff.mp ha)) ?_ ?_
    · rw [hperm.length_eq] at hall
      simpa only [Nat.zero_add] using hall
    · rw [List.map_map]
      exact (hperm.map _).nodup_iff.mpr hdistinct
    · intro a _ hmem
      exact absurd (runId_lt_newRunId hmem) (Nat.lt_irrefl _)

end Ending

theorem total_getOverview {F : Type} {results : List (ClassificationResult F)} :
    (getOverview results).total = results.length := by
  induction results with
  | nil => rfl
  | cons r rest ih =>
    unfold getOverview at ih ⊢
    dsimp only at ih ⊢
    simp only [List.countP_cons, List.length_cons]
    cases r.classification with
    | correct | misclassified | ambiguous | unclassifiable =>
      simp
      omega

section Scope

variable {F : Type} {e : Engine F} {fails : Failures} {db after : Database F}

theorem inScope_iff {r : ClassificationResult F} :
    inScope db r = true ↔ ∃ a ∈ db.agents, a.sourceId = r.agentId := by
  rw [inScope, List.contains_iff_mem, List.mem_map]
  rfl

def scopeIds (db after : Database F) : List String :=
  (after.results.docs.filter (inScope db)).map fun r => r.agentId

theorem nodup_scopeIds : (scopeIds db after).Nodup :=
  after.results.distinct.sublist (List.filter_sublist.map _)

theorem length_scopeIds : (scopeIds db after).length = after.results.docs.countP (inScope db) := by
  rw [scopeIds, List.length_map, List.countP_eq_length_filter]

theorem scopeIds_subset : scopeIds db after ⊆ db.agents.docs.map Sync.AgentDoc.sourceId := by
  intro id hid
  obtain ⟨r, hr, rfl⟩ := List.mem_map.mp hid
  obtain ⟨a, ha, hsame⟩ := inScope_iff.mp (List.mem_filter.mp hr).2
  exact List.mem_map.mpr ⟨a, ha, hsame⟩

theorem distinct_of_each (h : after.results.docs.countP (inScope db) = db.agents.docs.length) :
    (db.agents.docs.map Sync.AgentDoc.sourceId).Nodup := by
  have hsub := (@nodup_scopeIds F db after).subperm scopeIds_subset
  have hperm := hsub.perm_of_length_le (by rw [length_scopeIds, h, List.length_map])
  exact hperm.nodup_iff.mp nodup_scopeIds

theorem each_of_distinct (hdistinct : (db.agents.docs.map Sync.AgentDoc.sourceId).Nodup)
    (h : ∀ a ∈ db.agents, ∃ r ∈ after.results, r.agentId = a.sourceId) :
    after.results.docs.countP (inScope db) = db.agents.docs.length := by
  have hsub : db.agents.docs.map Sync.AgentDoc.sourceId ⊆ scopeIds db after := by
    intro id hid
    obtain ⟨a, ha, rfl⟩ := List.mem_map.mp hid
    obtain ⟨r, hr, hsame⟩ := h a ha
    exact List.mem_map.mpr
      ⟨r, List.mem_filter.mpr ⟨hr, inScope_iff.mpr ⟨a, ha, hsame.symm⟩⟩, hsame⟩
  have hle := (hdistinct.subperm hsub).length_le
  have hge := ((@nodup_scopeIds F db after).subperm scopeIds_subset).length_le
  rw [List.length_map] at hle hge
  rw [← length_scopeIds]
  omega

theorem mem_storedResults {result : Sync.AgentDoc → ClassificationResult F}
    {agents : List Sync.AgentDoc} {r : ClassificationResult F} :
    r ∈ storedResults result fails agents ↔
      ∃ a ∈ agents, isStored fails a = true ∧ result a = r := by
  rw [storedResults, List.mem_map]
  simp only [List.mem_filter, and_assoc]

theorem stored_of_own {agents : List Sync.AgentDoc} {results : Results F} {a : Sync.AgentDoc}
    (hdistinct : (db.agents.docs.map Sync.AgentDoc.sourceId).Nodup)
    (hagents : agents ⊆ db.agents.docs) (ha : a ∈ db.agents)
    (hresults : results = db.results.bulkReplace
      (storedResults (resultOf e fails db (newRunId db)) fails agents))
    (hown : results.get a.sourceId = some (ownResult e fails db (newRunId db) a)) :
    a ∈ agents ∧ isStored fails a = true ∧
      resultOf e fails db (newRunId db) a = ownResult e fails db (newRunId db) a := by
  have hmem := (Collection.get_eq_some_iff.mp hown).1
  rw [hresults] at hmem
  rcases Collection.mem_or_mem_of_bulkReplace hmem with hnew | hold
  · obtain ⟨b, hb, hstored, hsame⟩ := mem_storedResults.mp hnew
    have hba : b = a := List.inj_on_of_nodup_map hdistinct (hagents hb) ha
      (congrArg (fun r : ClassificationResult F => r.agentId) hsame)
    subst hba
    exact ⟨hb, hstored, hsame⟩
  · exact absurd (runId_lt_newRunId hold) (Nat.lt_irrefl _)

end Scope

section Coverage

variable {F : Type} [DecidableEq F] {e : Engine F} {trigger : String} {fails : Failures}
  {db after : Database F} {run : ClassificationRun} {p : Progress F}

theorem favourable_of_covers
    (hall : classifyAll e fails (newRunId db) (saveRun trigger db) = some p)
    (hresults : after.results = p.results) (hid : run.id = newRunId db)
    (hclassified : run.agentsClassified = p.classified) (herrors : run.errors = p.errors)
    (h : Covers e fails db after run) : Favourable e fails db := by
  obtain ⟨m, hm, hstoredAll, hcases⟩ := account_classifyAll hall
  have hperm := perm_sortBy Sync.AgentDoc.id db.agents.docs
  have hdistinct := distinct_of_each h.each
  have hsub : (sortBy Sync.AgentDoc.id db.agents.docs).take m ⊆ db.agents.docs :=
    fun a ha => hperm.mem_iff.mp (List.mem_of_mem_take ha)
  have hagents : ∀ a ∈ db.agents, a ∈ (sortBy Sync.AgentDoc.id db.agents.docs).take m ∧
      isStored fails a = true ∧
        resultOf e fails db (newRunId db) a = ownResult e fails db (newRunId db) a :=
    fun a ha => stored_of_own hdistinct hsub ha (hresults.trans hstoredAll) (hid ▸ h.own a ha)
  have hfetched : AllFetched e fails db := by
    rcases hcases with ⟨hfetched, -, -⟩ | ⟨-, hsum⟩
    · exact hfetched
    · -- all agents are stored, so that the failure is counted beyond them
      have hle := (db.agents.distinct.of_map.subperm fun a ha => (hagents a ha).1).length_le
      have htake : ((sortBy Sync.AgentDoc.id db.agents.docs).take m).length ≤ m :=
        List.length_take_le ..
      have hcounted := h.counted
      omega
  refine ⟨hdistinct, hfetched, fun a ha => (hagents a ha).2.1, fun a ha => (hagents a ha).2.2, ?_⟩
  intro hraises r hr
  have hnone := (errors_classifyAll hall hfetched (fun a ha => (hagents a ha).2.1) hdistinct).mpr
    hraises
  by_cases hkey : r.agentId ∈ (storedResults (resultOf e fails db (newRunId db)) fails
      ((sortBy Sync.AgentDoc.id db.agents.docs).take m)).map fun r => r.agentId
  · obtain ⟨d, hd, hsame⟩ := List.mem_map.mp hkey
    obtain ⟨a, ha, -, rfl⟩ := mem_storedResults.mp hd
    exact ⟨a, hsub ha, hsame⟩
  · have hkept := Collection.mem_bulkReplace_of_other hr hkey
    rw [← hstoredAll, ← hresults] at hkept
    exact (h.overview (herrors.trans hnone)).2 r hkept

theorem covers_of_favourable
    (hall : classifyAll e fails (newRunId db) (saveRun trigger db) = some p)
    (hresults : after.results = p.results) (hid : run.id = newRunId db)
    (hclassified : run.agentsClassified = p.classified) (herrors : run.errors = p.errors)
    (h : Favourable e fails db) : Covers e fails db after run := by
  obtain ⟨m, hm, hstoredAll, hcases⟩ := account_classifyAll hall
  have hperm := perm_sortBy Sync.AgentDoc.id db.agents.docs
  obtain ⟨hmall, hsum⟩ : m = db.agents.docs.length ∧ p.classified + p.errors = m := by
    rcases hcases with ⟨-, hcase⟩ | ⟨hunfetched, -⟩
    · exact hcase
    · exact absurd h.fetched hunfetched
  have htake : (sortBy Sync.AgentDoc.id db.agents.docs).take m =
      sortBy Sync.AgentDoc.id db.agents.docs :=
    List.take_of_length_le (hperm.length_eq.trans hmall.symm).le
  rw [htake, ← hresults] at hstoredAll
  have hkeys : ((storedResults (resultOf e fails db (newRunId db)) fails
      (sortBy Sync.AgentDoc.id db.agents.docs)).map fun r => r.agentId).Nodup := by
    rw [storedResults, List.map_map]
    exact ((hperm.map _).nodup_iff.mpr h.distinct).sublist (List.filter_sublist.map _)
  have hmem : ∀ r, r ∈ after.results ↔
      (∃ a ∈ db.agents, resultOf e fails db (newRunId db) a = r) ∨
        (r ∈ db.results ∧ r.agentId ∉ (storedResults (resultOf e fails db (newRunId db)) fails
          (sortBy Sync.AgentDoc.id db.agents.docs)).map fun r => r.agentId) := by
    intro r
    rw [hstoredAll, Collection.mem_bulkReplace hkeys, mem_storedResults]
    refine or_congr_left ⟨fun ⟨a, ha, _, hr⟩ => ⟨a, hperm.mem_iff.mp ha, hr⟩, fun ⟨a, ha, hr⟩ =>
      ⟨a, hperm.mem_iff.mpr ha, h.stored a ha, hr⟩⟩
  have heach : after.results.docs.countP (inScope db) = db.agents.docs.length :=
    each_of_distinct h.distinct fun a ha => ⟨_, (hmem _).mpr (Or.inl ⟨a, ha, rfl⟩), rfl⟩
  refine ⟨?_, heach, ?_, ?_⟩
  · intro a ha
    rw [hid, ← h.own a ha]
    exact Collection.get_eq_some_iff.mpr ⟨(hmem _).mpr (Or.inl ⟨a, ha, rfl⟩), rfl⟩
  · rw [hclassified, herrors, hsum, hmall]
  · intro hnone
    have hraises := (errors_classifyAll hall h.fetched h.stored h.distinct).mp
      (herrors.symm.trans hnone)
    have hscope : ∀ r ∈ after.results, ∃ a ∈ db.agents, a.sourceId = r.agentId := by
      intro r hr
      rcases (hmem r).mp hr with ⟨a, ha, rfl⟩ | ⟨hold, -⟩
      · exact ⟨a, ha, rfl⟩
      · exact h.stale hraises r hold
    refine ⟨?_, hscope⟩
    rw [total_getOverview, ← heach]
    exact (List.countP_eq_length.mpr fun r hr => inScope_iff.mpr (hscope r hr)).symm

/-- A completed run covers the agents if and only if their ids in their sources are distinct,
every batch is fetched, every result is written and that of the agent's own applications, and,
where no write raises, no result of another agent was stored. -/
theorem covers_iff (e : Engine F) (trigger : String) (fails : Failures) (db : Database F)
    (run : ClassificationRun)
    (hrun : (runFrom e trigger fails db).runs.get (newRunId db) = some run)
    (hcompleted : run.status = .completed) :
    Covers e fails db (runFrom e trigger fails db) run ↔ Favourable e fails db := by
  obtain ⟨p, hall, hresults, hid, hclassified, herrors⟩ := progress_of_completed hrun hcompleted
  exact ⟨favourable_of_covers hall hresults hid hclassified herrors,
    covers_of_favourable hall hresults hid hclassified herrors⟩

end Coverage

def plainText : Taxonomy.CaseText where
  lower s := s
  variants c := [c]
  lower_eq_self_iff _ := iff_of_true rfl fun _ _ => rfl
  wildcard_of_lower _ _ _ h := h

def wholeFloats : Floats Int where
  zero := 0
  add a b := a + b
  sub a b := a - b
  div a b := 100 * a / b
  lt a b := a < b
  le a b := a ≤ b
  eq a b := a == b
  round a := a
  format a := toString a
  scoreClear := 70
  scorePartial := 40
  gapClear := 15

def plainEngine : Engine Int where
  text := plainText
  floats := wholeFloats
  batchSize := 500
  positive := Nat.succ_pos 499
  clock _ := 0

def agentOf (source : String) (id sourceId : String) : Sync.AgentDoc where
  id := id
  source := some source
  sourceId := sourceId
  hostname := "pc-" ++ sourceId
  installedAppNames := some ["zoom"]

def emptyResults : Database Int where
  agents := .empty
  unique := by decide
  installedApps := []
  fingerprints := []
  config := ⟨70, 40, 15⟩
  results := .empty
  runs := .empty

def oneAgent : Database Int :=
  { emptyResults with
    agents := ⟨[agentOf "sentinelone" "a" "7"], by decide⟩
    unique := by decide }

def twoSources : Database Int :=
  { emptyResults with
    agents := ⟨[agentOf "sentinelone" "a" "7", agentOf "crowdstrike" "b" "7"], by decide⟩
    unique := by decide }

theorem completed_of_no_failures {F : Type} [DecidableEq F] (e : Engine F) (trigger : String)
    (db : Database F) :
    ∃ run, (runFrom e trigger {} db).runs.get (newRunId db) = some run ∧
      run.status = .completed := by
  obtain ⟨p, hall⟩ : ∃ p, classifyAll e {} (newRunId db) (saveRun trigger db) = some p := by
    unfold classifyAll
    rw [if_neg Bool.false_ne_true]
    split
    · exact ⟨_, rfl⟩
    · exact ⟨_, rfl⟩
  unfold runFrom runClassification
  rw [hall]
  refine ⟨finishRun .completed p.classified p.errors ⟨newRunId db, trigger, .running, 0, 0⟩, ?_,
    rfl⟩
  exact (@get_updateRun .done (newRunId db) p.classified p.errors .completed
    (saveRun trigger db).runs).trans (congrArg _ get_saveRun)

theorem one_agent_covered :
    ∃ run, Covers plainEngine {} oneAgent (runFrom plainEngine "manual" {} oneAgent) run := by
  obtain ⟨run, hrun, hcompleted⟩ := completed_of_no_failures plainEngine "manual" oneAgent
  refine ⟨run, (covers_iff plainEngine "manual" {} oneAgent run hrun hcompleted).mpr ?_⟩
  have hnames : ∀ a ∈ oneAgent.agents, a = agentOf "sentinelone" "a" "7" :=
    fun a ha => List.mem_singleton.mp ha
  refine ⟨by decide, fun _ _ _ => rfl, fun _ _ => rfl, fun a ha => ?_, fun _ r hr => ?_⟩
  · rw [hnames a ha]
    rfl
  · exact absurd hr Collection.not_mem_empty

/-- Of two agents with one id only one has a result. -/
theorem second_source_is_lost :
    ¬∀ (F : Type) (_ : DecidableEq F) (e : Engine F) (trigger : String) (fails : Failures)
      (db : Database F) (run : ClassificationRun),
      (runFrom e trigger fails db).runs.get (newRunId db) = some run → run.status = .completed →
        Covers e fails db (runFrom e trigger fails db) run := by
  intro hall
  obtain ⟨run, hrun, hcompleted⟩ := completed_of_no_failures plainEngine "manual" twoSources
  have hcovers := hall Int inferInstance plainEngine "manual" {} twoSources run hrun hcompleted
  exact absurd (distinct_of_each hcovers.each) (by decide)

end Sentora.Classification
