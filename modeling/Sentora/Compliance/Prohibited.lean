import Sentora.Compliance.Balance

/-!
# Prohibited apps

Which agents `prohibited_app` flags, against those that run a prohibited app.

The check reads the names of the first 10000 prohibited records, also of deactivated ones, and
compares names in lower case.
-/

namespace Sentora.Compliance

open Lib

def activeNames (db : Database) (agentId : String) : List String :=
  (db.installedApps.filter fun r => r.isActive && r.agentId == agentId).map AppDoc.normalizedName

/-- The agents list the names of their active apps. -/
def ListsActive (db : Database) : Prop :=
  ∀ agent ∈ db.agents, ∀ name, name ∈ installed agent ↔ name ∈ activeNames db agent.sourceId

def AppDoc.isProhibited (r : AppDoc) : Bool := r.riskLevel == some "prohibited"

def RunsProhibited (db : Database) (agent : AgentDoc) : Prop :=
  ∃ r ∈ db.installedApps, r.isActive = true ∧ r.isProhibited = true ∧
    r.normalizedName ∈ activeNames db agent.sourceId

/-- It has an active app with the name, in lower case, of one of the records that are read. -/
def RunsRead (py : Python) (db : Database) (agent : AgentDoc) : Prop :=
  ∃ name ∈ activeNames db agent.sourceId, ∃ read ∈ prohibitedNames db, py.lower name = py.lower read

section Found

variable (py : Python) (now : Int) (db : Database) (parameters : JsonDict) (scope : ScopeFilter)

/-- `prohibited_app` returns, and finds the agents in scope that run a prohibited app. -/
def FlagsProhibited : Prop :=
  ∃ o, prohibitedApp py now db parameters scope = .ok o ∧ Cut (prohibitedViolations py db scope) o ∧
    ∀ id, id ∈ (prohibitedViolations py db scope).map ComplianceViolation.agentId ↔
      ∃ agent ∈ agentsIn db scope, agent.sourceId = id ∧ RunsProhibited db agent

end Found

section Prohibited

variable {py : Python} {now : Int} {db : Database} {parameters : JsonDict} {scope : ScopeFilter}
  {agent : AgentDoc}

theorem prohibitedApp_cut :
    ∃ o, prohibitedApp py now db parameters scope = .ok o ∧
      Cut (prohibitedViolations py db scope) o := by
  refine @exists_result .prohibitedApp py now db parameters scope _ trivial
    (fun hnone o h => ?_) fun hsome => ?_
  · rw [prohibitedViolations, hnone]
    exact h.cut
  · obtain ⟨o, ho, hcut, -⟩ := @prohibitedApp_counts py now db parameters scope hsome
    exact ⟨o, ho, hcut⟩

theorem hasProhibited_iff (hlists : ListsActive db) (hagent : agent ∈ agentsIn db scope) :
    hasProhibited py db agent = true ↔ RunsRead py db agent := by
  have hnames := hlists agent (List.mem_filter.mp hagent).1
  unfold hasProhibited RunsRead
  rw [List.any_eq_true]
  constructor
  · rintro ⟨name, hname, hread⟩
    obtain ⟨read, hmem, heq⟩ := List.mem_map.mp (List.contains_iff_mem.mp hread)
    exact ⟨name, (hnames name).mp hname, read, hmem, heq.symm⟩
  · rintro ⟨name, hname, read, hmem, heq⟩
    exact ⟨name, (hnames name).mpr hname,
      List.contains_iff_mem.mpr (List.mem_map.mpr ⟨read, hmem, heq.symm⟩)⟩

theorem mem_prohibitedIds (hlists : ListsActive db) {id : String} :
    id ∈ (prohibitedViolations py db scope).map ComplianceViolation.agentId ↔
      ∃ agent ∈ agentsIn db scope, agent.sourceId = id ∧ RunsRead py db agent := by
  rw [prohibitedViolations,
    mem_flatMap_agents prohibitedOn_ne_nil_iff agentId_of_mem_prohibitedOn, List.mem_map]
  constructor
  · rintro ⟨a, ha, hid⟩
    obtain ⟨hin, hhas⟩ := List.mem_filter.mp ha
    exact ⟨a, hin, hid, (hasProhibited_iff hlists hin).mp hhas⟩
  · rintro ⟨a, ha, hid, hruns⟩
    exact ⟨a, List.mem_filter.mpr ⟨ha, (hasProhibited_iff hlists ha).mpr hruns⟩, hid⟩

theorem RunsProhibited.same {a b : AgentDoc} (hid : a.sourceId = b.sourceId)
    (h : RunsProhibited db a) : RunsProhibited db b := by
  unfold RunsProhibited at h ⊢
  rw [← hid]
  exact h

theorem RunsRead.same {a b : AgentDoc} (hid : a.sourceId = b.sourceId) (h : RunsRead py db a) :
    RunsRead py db b := by
  unfold RunsRead at h ⊢
  rw [← hid]
  exact h

theorem FlagsProhibited.exact (hlists : ListsActive db)
    (h : FlagsProhibited py now db parameters scope) :
    ∀ agent ∈ agentsIn db scope, RunsProhibited db agent ↔ RunsRead py db agent := by
  obtain ⟨o, -, -, hids⟩ := h
  intro agent hagent
  have hid := (hids agent.sourceId).symm.trans (mem_prohibitedIds hlists)
  constructor
  · intro hruns
    obtain ⟨b, -, hb, hread⟩ := hid.mp ⟨agent, hagent, rfl, hruns⟩
    exact hread.same hb
  · intro hread
    obtain ⟨b, -, hb, hruns⟩ := hid.mpr ⟨agent, hagent, rfl, hread⟩
    exact hruns.same hb

end Prohibited

/-- The agent runs a prohibited app, and none of its apps has a name that is read. -/
def Missed (py : Python) (db : Database) (agent : AgentDoc) : Prop :=
  RunsProhibited db agent ∧ ¬RunsRead py db agent

/-- One of its apps has a name that is read, and it runs no prohibited app. -/
def Mistaken (py : Python) (db : Database) (agent : AgentDoc) : Prop :=
  RunsRead py db agent ∧ ¬RunsProhibited db agent

section Kinds

variable {py : Python} {db : Database} {agent : AgentDoc}

theorem Missed.many (h : Missed py db agent) :
    10000 < (db.installedApps.filter AppDoc.isProhibited).length := by
  obtain ⟨⟨r, hr, -, hprohibited, hname⟩, hnone⟩ := h
  by_contra hfew
  have hall : (db.installedApps.filter AppDoc.isProhibited).take 10000 =
      db.installedApps.filter AppDoc.isProhibited := List.take_of_length_le (by omega)
  refine hnone ⟨r.normalizedName, hname, r.normalizedName, ?_, rfl⟩
  refine List.mem_map_of_mem ?_
  show r ∈ (db.installedApps.filter AppDoc.isProhibited).take 10000
  rw [hall]
  exact List.mem_filter.mpr ⟨hr, hprohibited⟩

theorem Mistaken.deactivated
    (hlower : ∀ r ∈ db.installedApps, py.lower r.normalizedName = r.normalizedName)
    (h : Mistaken py db agent) :
    ∃ r ∈ db.installedApps, r.isProhibited = true ∧ r.isActive = false := by
  obtain ⟨⟨name, hname, read, hread, heq⟩, hnone⟩ := h
  obtain ⟨r, hr, rfl⟩ := List.mem_map.mp hread
  obtain ⟨hmem, hprohibited⟩ := List.mem_filter.mp (List.mem_of_mem_take hr)
  refine ⟨r, hmem, hprohibited, Bool.eq_false_iff.mpr fun hactive => ?_⟩
  refine hnone ⟨r, hmem, hactive, hprohibited, ?_⟩
  have hlowered : py.lower name = name := by
    obtain ⟨s, hs, rfl⟩ := List.mem_map.mp hname
    exact hlower s (List.mem_filter.mp hs).1
  rwa [← hlower r hmem, ← heq, hlowered]

end Kinds

/-- The agents that run a prohibited app are flagged just where none is missed and none is flagged
by mistake. -/
theorem flagsProhibited_iff (py : Python) (now : Int) (db : Database) (parameters : JsonDict)
    (scope : ScopeFilter) (hlists : ListsActive db) :
    FlagsProhibited py now db parameters scope ↔
      ∀ agent ∈ agentsIn db scope, ¬Missed py db agent ∧ ¬Mistaken py db agent := by
  constructor
  · intro h agent hagent
    have hexact := h.exact hlists agent hagent
    exact ⟨fun hmissed => hmissed.2 (hexact.mp hmissed.1), fun hmistaken =>
      hmistaken.2 (hexact.mpr hmistaken.1)⟩
  · intro h
    obtain ⟨o, ho, hcut⟩ := @prohibitedApp_cut py now db parameters scope
    refine ⟨o, ho, hcut, fun id => (mem_prohibitedIds hlists).trans ?_⟩
    constructor
    · rintro ⟨agent, hagent, hid, hread⟩
      exact ⟨agent, hagent, hid, by_contra fun hnone => (h agent hagent).2 ⟨hread, hnone⟩⟩
    · rintro ⟨agent, hagent, hid, hruns⟩
      exact ⟨agent, hagent, hid, by_contra fun hnone => (h agent hagent).1 ⟨hruns, hnone⟩⟩

def prohibitedDatabase (records : List AppDoc) : Database where
  agents := [{ sourceId := "laptop", installedAppNames := some ["miner"] }]
  installedApps := records ++
    [{ agentId := "laptop", normalizedName := "miner", riskLevel := some "prohibited" }]

theorem listsActive_prohibitedDatabase {records : List AppDoc}
    (h : ∀ r ∈ records, r.agentId ≠ "laptop") : ListsActive (prohibitedDatabase records) := by
  intro agent hagent name
  obtain rfl := List.mem_singleton.mp hagent
  have hnone : (records.filter fun r => r.isActive && r.agentId == "laptop") = [] :=
    List.filter_eq_nil_iff.mpr fun r hr hboth =>
      h r hr (beq_iff_eq.mp (Bool.and_eq_true_iff.mp hboth).2)
  unfold activeNames prohibitedDatabase
  rw [List.filter_append, hnone]
  rfl

theorem flagsProhibited_miner :
    FlagsProhibited plainPython 0 (prohibitedDatabase []) .empty .all ↔
      ∀ agent ∈ agentsIn (prohibitedDatabase []) .all,
        ¬Missed plainPython (prohibitedDatabase []) agent ∧
          ¬Mistaken plainPython (prohibitedDatabase []) agent :=
  flagsProhibited_iff plainPython 0 (prohibitedDatabase []) .empty .all
    (listsActive_prohibitedDatabase nofun)

theorem prohibitedNames_full {records : List AppDoc}
    (hall : ∀ r ∈ records, r.isProhibited = true) (hlength : records.length = 10000) :
    prohibitedNames (prohibitedDatabase records) = records.map AppDoc.normalizedName := by
  have hfilter : records.filter AppDoc.isProhibited = records := List.filter_eq_self.mpr hall
  show ((List.filter AppDoc.isProhibited (records ++ _)).take 10000).map _ = _
  rw [List.filter_append, hfilter, List.take_left' hlength]

def torrents (n : Nat) : List AppDoc :=
  (List.range n).map fun k =>
    { agentId := "d" ++ toString k, normalizedName := "torrent", riskLevel := some "prohibited" }

theorem of_mem_torrents {n : Nat} {r : AppDoc} (h : r ∈ torrents n) :
    r.agentId ≠ "laptop" ∧ r.isProhibited = true ∧ r.normalizedName = "torrent" := by
  obtain ⟨k, -, rfl⟩ := List.mem_map.mp h
  refine ⟨fun hid => ?_, rfl, rfl⟩
  have hfirst := congrArg (fun id => id.toList.head?) hid
  rw [String.toList_append] at hfirst
  have hletters : some 'd' = some 'l' := hfirst
  exact absurd hletters (by decide)

/-- The next prohibited app is missed. -/
theorem prohibited_app_missed :
    ¬∀ (py : Python) (now : Int) (db : Database) (parameters : JsonDict) (scope : ScopeFilter),
      ListsActive db → FlagsProhibited py now db parameters scope := by
  intro h
  have hlists : ListsActive (prohibitedDatabase (torrents 10000)) :=
    listsActive_prohibitedDatabase fun r hr => (of_mem_torrents hr).1
  have hexact := (h plainPython 0 (prohibitedDatabase (torrents 10000)) .empty .all hlists).exact
    hlists { sourceId := "laptop", installedAppNames := some ["miner"] } List.mem_cons_self
  have hminer : "miner" ∈ activeNames (prohibitedDatabase (torrents 10000)) "laptop" :=
    (hlists _ List.mem_cons_self "miner").mp List.mem_cons_self
  have hruns : RunsProhibited (prohibitedDatabase (torrents 10000))
      { sourceId := "laptop", installedAppNames := some ["miner"] } :=
    ⟨_, List.mem_append_right _ List.mem_cons_self, rfl, rfl, hminer⟩
  obtain ⟨name, hname, read, hread, heq⟩ := hexact.mp hruns
  rw [prohibitedNames_full (fun r hr => (of_mem_torrents hr).2.1)
    (by rw [torrents, List.length_map, List.length_range])] at hread
  obtain ⟨r, hr, rfl⟩ := List.mem_map.mp hread
  have hlisted := (hlists _ List.mem_cons_self name).mpr hname
  rw [(of_mem_torrents hr).2.2, List.mem_singleton.mp hlisted] at heq
  exact absurd heq (by decide)

end Sentora.Compliance
