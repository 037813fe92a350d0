import Sentora.Eol.Cycles
import Sentora.Lib.Groups
import Sentora.Lib.RangeSort
import Sentora.Sync.Documents
import Sentora.Taxonomy.Matchers

/-!
# App summaries

`rebuild_app_summaries` of `domains/agents/app_cache.py`.  The groups of an aggregation stand
in the order of their first documents.
-/

namespace Sentora.Agents

open Lib Taxonomy

/-- A name and how often it occurs, of `versions`, `risk_distribution` and the breakdowns. -/
structure NameCount where
  name : String
  count : Nat
deriving DecidableEq

/-- A document of `app_summaries`.  The last field is written by the services of EOL data. -/
structure AppSummary where
  normalizedName : String
  displayName : String
  publisher : Option String
  agentCount : Nat
  category : Option String
  categoryDisplay : Option String
  riskLevel : Option String
  versions : List NameCount
  riskDistribution : List NameCount
  groupBreakdown : List NameCount
  siteBreakdown : List NameCount
  groupCount : Nat
  siteCount : Nat
  eolMatch : Option Eol.EolMatchDoc := none
deriving DecidableEq

def activeApps (apps : List Sync.AppDoc) : List Sync.AppDoc := apps.filter Sync.AppDoc.isActive

def firstInstalls (apps : List Sync.AppDoc) : List Sync.AppDoc :=
  firstOfEach (fun app => (app.normalizedName, app.agentId)) (activeApps apps)

structure Row where
  normalizedName : String
  displayName : Option String
  publisher : Option String
  agentCount : Nat
  agentIds : List String
  agentVersions : List (Option String)
  agentRisks : List (Option String)

def row (g : String × List Sync.AppDoc) : Row where
  normalizedName := g.1
  displayName := g.2.head?.map Sync.AppDoc.name
  publisher := g.2.head?.bind Sync.AppDoc.publisher
  agentCount := g.2.length
  agentIds := g.2.map Sync.AppDoc.agentId
  agentVersions := g.2.map Sync.AppDoc.version
  agentRisks := g.2.map Sync.AppDoc.riskLevel

def rows (apps : List Sync.AppDoc) : List Row :=
  (groupsBy Sync.AppDoc.normalizedName (firstInstalls apps)).map row

def orUnknown (value : Option String) : String := (value.filter (· ≠ "")).getD "unknown"

def counts (values : List (Option String)) : List NameCount :=
  (groupsBy id (values.map orUnknown)).map fun g => ⟨g.1, g.2.length⟩

/-- `sorted(…, key=count, reverse=True)`. -/
def byCount (l : List NameCount) : List NameCount := sortBy (fun c => OrderDual.toDual c.count) l

/-- `max(risk_counts, key=risk_counts.get)`, the first of several. -/
def topName (l : List NameCount) : Option String := (byCount l).head?.map NameCount.name

/-- `agent_lookup`: of several agents with one id the last. -/
def agentLookup (agents : List Sync.AgentDoc) (agentId : String) : Option Sync.AgentDoc :=
  agents.reverse.find? fun agent => agent.sourceId == agentId

def breakdown (id name : Sync.AgentDoc → String) (agents : List Sync.AgentDoc)
    (agentIds : List String) : List (String × NameCount) :=
  let found := (agentIds.filterMap (agentLookup agents)).filter fun agent => id agent ≠ ""
  (groupsBy id found).map fun g =>
    (g.1, ⟨((g.2.head?.map name).filter (· ≠ "")).getD g.1, g.2.length⟩)

def groupCounts : List Sync.AgentDoc → List String → List (String × NameCount) :=
  breakdown Sync.AgentDoc.groupId Sync.AgentDoc.groupName

def siteCounts : List Sync.AgentDoc → List String → List (String × NameCount) :=
  breakdown Sync.AgentDoc.siteId Sync.AgentDoc.siteName

/-- `TaxonomyMatcher` of the stored entries, unless patterns are null. -/
def entryMatcher (t : CaseText) (entries : List EntryDoc) :
    Option (Matcher (Option String × Option String)) := do
  let patterns ← entries.mapM fun entry =>
    entry.patterns.map fun ps => ps.map fun p => (p, (entry.category, entry.categoryDisplay))
  pure (.build t patterns.flatten)

def summary (matcher : Matcher (Option String × Option String)) (agents : List Sync.AgentDoc)
    (r : Row) : AppSummary :=
  let found := (matcher.matchName r.normalizedName).getD (none, none)
  let risks := counts r.agentRisks
  let groups := byCount ((groupCounts agents r.agentIds).map Prod.snd)
  let sites := byCount ((siteCounts agents r.agentIds).map Prod.snd)
  { normalizedName := r.normalizedName
    displayName := (r.displayName.filter (· ≠ "")).getD r.normalizedName
    publisher := r.publisher
    agentCount := r.agentCount
    category := found.1
    categoryDisplay := found.2
    riskLevel := topName risks
    versions := (byCount (counts r.agentVersions)).take 50
    riskDistribution := risks
    groupBreakdown := groups
    siteBreakdown := sites
    groupCount := groups.length
    siteCount := sites.length }

/-- `rebuild_app_summaries`, unless the matcher raises.  Without active apps the summaries
stay. -/
def rebuildAppSummaries (t : CaseText) (entries : List EntryDoc) (apps : List Sync.AppDoc)
    (agents : List Sync.AgentDoc) (summaries : List AppSummary) : Option (List AppSummary) :=
  let found := rows apps
  if found.isEmpty then some summaries
  else
    (entryMatcher t (entries.filter fun doc => doc.patterns != some [])).map fun matcher =>
      found.map (summary matcher agents)

end Sentora.Agents
