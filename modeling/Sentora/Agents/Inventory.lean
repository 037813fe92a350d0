import Mathlib.Data.Finset.Card
import Sentora.Agents.Summaries

/-!
# What the summaries show

Whether the summaries have the active apps, and count the agents that have them.

An agent is known by its source and its id there.  A rebuild takes agents with one id for one,
looks their group and site up by the id alone, and leaves the old summaries where no app is
active.
-/

namespace Sentora.Agents

open Lib

abbrev AgentKey := Option String × String

def agentsWith (apps : List Sync.AppDoc) (name : String) : Finset AgentKey :=
  (((activeApps apps).filter fun app => app.normalizedName = name).map
    fun app => (app.source, app.agentId)).toFinset

def agentDoc (agents : List Sync.AgentDoc) (agent : AgentKey) : Option Sync.AgentDoc :=
  agents.find? fun doc => doc.source == agent.1 && doc.sourceId == agent.2

def placed (id : Sync.AgentDoc → String) (doc : AgentKey → Option Sync.AgentDoc) (place : String)
    (agents : Finset AgentKey) : Nat :=
  (agents.filter fun agent => (doc agent).any (fun d => id d == place) = true).card

def countOf (table : List (String × NameCount)) (place : String) : Nat :=
  ((table.lookup place).map NameCount.count).getD 0

def total (l : List NameCount) : Nat := (l.map NameCount.count).sum

def rowAgents (apps : List Sync.AppDoc) (name : String) : List String :=
  ((firstInstalls apps).filter fun app => app.normalizedName = name).map Sync.AppDoc.agentId

/-- The summaries show the active apps, and count each of their agents once.  The breakdowns
are those of the groups and the sites before their ids are dropped. -/
structure Mirrors (apps : List Sync.AppDoc) (agents : List Sync.AgentDoc)
    (summaries : List AppSummary) : Prop where
  nodup : (summaries.map AppSummary.normalizedName).Nodup
  names : ∀ name, name ∈ summaries.map AppSummary.normalizedName ↔
    ∃ app ∈ apps, app.isActive = true ∧ app.normalizedName = name
  agentCount : ∀ d ∈ summaries, d.agentCount = (agentsWith apps d.normalizedName).card
  risks : ∀ d ∈ summaries, total d.riskDistribution = d.agentCount
  versions : ∀ d ∈ summaries,
    ((((activeApps apps).filter fun app => app.normalizedName = d.normalizedName).map
      fun app => orUnknown app.version).dedup.length ≤ 50) → total d.versions = d.agentCount
  groups : ∀ d ∈ summaries, ∀ place, place ≠ "" →
    countOf (groupCounts agents (rowAgents apps d.normalizedName)) place =
      placed Sync.AgentDoc.groupId (agentDoc agents) place (agentsWith apps d.normalizedName)
  sites : ∀ d ∈ summaries, ∀ place, place ≠ "" →
    countOf (siteCounts agents (rowAgents apps d.normalizedName)) place =
      placed Sync.AgentDoc.siteId (agentDoc agents) place (agentsWith apps d.normalizedName)

section Rows

variable {apps : List Sync.AppDoc} {agents : List Sync.AgentDoc} {app : Sync.AppDoc} {r : Row}
  {name agentId : String} {agent : AgentKey}

theorem mem_agentsWith :
    agent ∈ agentsWith apps name ↔
      ∃ app ∈ activeApps apps, app.normalizedName = name ∧ (app.source, app.agentId) = agent := by
  unfold agentsWith
  rw [List.mem_toFinset, List.mem_map]
  simp only [List.mem_filter, decide_eq_true_eq, and_assoc]

theorem exists_firstInstall (h : app ∈ activeApps apps) :
    ∃ first ∈ firstInstalls apps, first.normalizedName = app.normalizedName ∧
      first.agentId = app.agentId := by
  have hkey : (app.normalizedName, app.agentId) ∈ (firstInstalls apps).map
      fun app => (app.normalizedName, app.agentId) := by
    rw [firstInstalls, keys_firstOfEach, mem_firstKeys]
    exact List.mem_map_of_mem h
  obtain ⟨first, hfirst, heq⟩ := List.mem_map.mp hkey
  exact ⟨first, hfirst, congrArg Prod.fst heq, congrArg Prod.snd heq⟩

theorem mem_rowAgents :
    agentId ∈ rowAgents apps name ↔ agentId ∈ (agentsWith apps name).image Prod.snd := by
  rw [rowAgents, List.mem_map, Finset.mem_image]
  constructor
  · intro ⟨first, hfirst, hid⟩
    obtain ⟨hmem, hname⟩ := List.mem_filter.mp hfirst
    refine ⟨(first.source, first.agentId), mem_agentsWith.mpr ⟨first, ?_, ?_, rfl⟩, hid⟩
    · exact mem_of_mem_firstOfEach hmem
    · exact of_decide_eq_true hname
  · intro ⟨agent, hagent, hid⟩
    obtain ⟨app, happ, hname, hkey⟩ := mem_agentsWith.mp hagent
    obtain ⟨first, hfirst, hsame, hsameId⟩ := exists_firstInstall happ
    refine ⟨first, List.mem_filter.mpr ⟨hfirst, decide_eq_true (hsame.trans hname)⟩, ?_⟩
    rw [hsameId, ← hid, ← hkey]

theorem nodup_rowAgents : (rowAgents apps name).Nodup := by
  have hkeys : ((firstInstalls apps).map fun app => (app.normalizedName, app.agentId)).Nodup := by
    rw [firstInstalls, keys_firstOfEach]
    exact nodup_firstKeys
  rw [rowAgents]
  refine List.Nodup.map_on ?_ (hkeys.of_map.filter _)
  intro x hx y hy hid
  obtain ⟨hx, hnameX⟩ := List.mem_filter.mp hx
  obtain ⟨hy, hnameY⟩ := List.mem_filter.mp hy
  refine List.inj_on_of_nodup_map hkeys hx hy (Prod.ext ?_ hid)
  exact (of_decide_eq_true hnameX).trans (of_decide_eq_true hnameY).symm

theorem toFinset_rowAgents :
    (rowAgents apps name).toFinset = (agentsWith apps name).image Prod.snd := by
  ext agentId
  rw [List.mem_toFinset, mem_rowAgents]

def rowOf (apps : List Sync.AppDoc) (name : String) : Row :=
  row (name, (firstInstalls apps).filter fun app => app.normalizedName = name)

theorem mem_rows :
    r ∈ rows apps ↔
      ∃ name, (∃ app ∈ activeApps apps, app.normalizedName = name) ∧ rowOf apps name = r := by
  have hnames : ∀ name, name ∈ (firstInstalls apps).map Sync.AppDoc.normalizedName ↔
      ∃ app ∈ activeApps apps, app.normalizedName = name := by
    intro name
    rw [List.mem_map]
    constructor
    · intro ⟨first, hfirst, hname⟩
      exact ⟨first, mem_of_mem_firstOfEach hfirst, hname⟩
    · intro ⟨app, happ, hname⟩
      obtain ⟨first, hfirst, hsame, -⟩ := exists_firstInstall happ
      exact ⟨first, hfirst, hsame.trans hname⟩
  rw [rows, List.mem_map]
  simp only [← hnames]
  constructor
  · intro ⟨g, hg, heq⟩
    obtain ⟨hname, hitems⟩ := mem_groupsBy.mp hg
    refine ⟨g.1, hname, ?_⟩
    rw [← heq]
    exact congrArg row (Prod.ext rfl hitems.symm)
  · intro ⟨name, hname, heq⟩
    exact ⟨_, mem_groupsBy.mpr ⟨hname, rfl⟩, heq⟩

theorem rowOf_mem_rows (h : app ∈ activeApps apps) : rowOf apps app.normalizedName ∈ rows apps :=
  mem_rows.mpr ⟨app.normalizedName, ⟨app, h, rfl⟩, rfl⟩

theorem nodup_names_rows : ((rows apps).map Row.normalizedName).Nodup := by
  have hnames : (rows apps).map Row.normalizedName =
      firstKeys ((firstInstalls apps).map Sync.AppDoc.normalizedName) := by
    rw [rows, List.map_map, ← keys_groupsBy]
    rfl
  rw [hnames]
  exact nodup_firstKeys

end Rows

section Counts

variable {apps : List Sync.AppDoc} {agents : List Sync.AgentDoc} {name place : String}
  {id label : Sync.AgentDoc → String} {ids : List String}

theorem length_rowAgents :
    (rowAgents apps name).length = ((agentsWith apps name).image Prod.snd).card := by
  rw [← toFinset_rowAgents, List.toFinset_card_of_nodup nodup_rowAgents]

end Counts

section Rebuild

variable {t : Taxonomy.CaseText} {entries : List Taxonomy.EntryDoc} {apps : List Sync.AppDoc}
  {agents : List Sync.AgentDoc} {summaries summaries' : List AppSummary} {d : AppSummary}

theorem rebuildAppSummaries_of_none (h : activeApps apps = []) :
    rebuildAppSummaries t entries apps agents summaries = some summaries := by
  have hrows : rows apps = [] := by
    rw [List.eq_nil_iff_forall_not_mem]
    intro r hr
    obtain ⟨name, ⟨app, happ, -⟩, -⟩ := mem_rows.mp hr
    rw [h] at happ
    cases happ
  unfold rebuildAppSummaries
  rw [hrows]
  rfl

theorem rebuildAppSummaries_of_some (h : activeApps apps ≠ []) :
    rebuildAppSummaries t entries apps agents summaries =
      (entryMatcher t (entries.filter fun doc => doc.patterns != some [])).map fun matcher =>
        (rows apps).map (summary matcher agents) := by
  obtain ⟨app, happ⟩ := List.exists_mem_of_ne_nil _ h
  unfold rebuildAppSummaries
  refine if_neg fun hempty => ?_
  have hrow := rowOf_mem_rows happ
  rw [List.isEmpty_iff.mp hempty] at hrow
  cases hrow

theorem agentCount_rowOf (name : String) :
    (rowOf apps name).agentCount = ((agentsWith apps name).image Prod.snd).card := by
  rw [← length_rowAgents, rowAgents, List.length_map]
  rfl

theorem names_summaries (matcher : Taxonomy.Matcher (Option String × Option String)) :
    ((rows apps).map (summary matcher agents)).map AppSummary.normalizedName =
      (rows apps).map Row.normalizedName := by
  rw [List.map_map]
  rfl

end Rebuild

def caselessText : Taxonomy.CaseText where
  lower := id
  variants c := [c]
  lower_eq_self_iff _ := iff_of_true rfl fun _ _ => rfl
  wildcard_of_lower _ _ _ h := h

def zoomApp : Sync.AppDoc where
  id := "1"
  source := some "sentinelone"
  sourceId := "10"
  agentId := "7"
  name := "Zoom"
  normalizedName := "zoom"
  version := some "5.1"

def laptop : Sync.AgentDoc where
  id := "2"
  source := some "sentinelone"
  sourceId := "7"
  hostname := "laptop"
  groupId := "3"
  groupName := "Office"

def zoomSummary : AppSummary where
  normalizedName := "zoom"
  displayName := "Zoom"
  publisher := none
  agentCount := 1
  category := none
  categoryDisplay := none
  riskLevel := some "unknown"
  versions := [⟨"5.1", 1⟩]
  riskDistribution := [⟨"unknown", 1⟩]
  groupBreakdown := [⟨"Office", 1⟩]
  siteBreakdown := []
  groupCount := 1
  siteCount := 0

end Sentora.Agents
