import Sentora.Compliance.Balance
import Sentora.Lib.Components
import Sentora.Sync.Watermark

/-!
# Agents of a sync

What `agent_online` and `agent_version` find among the agents that the agents phase of
SentinelOne has stored.

The phase stores the last activity as a text, which MongoDB does not compare with a date, and no
version, so that neither check ever flags an agent.
-/

namespace Sentora.Compliance

open Lib
open Auth (present)

structure StoredAgent (spy : Sync.Python) where
  raw : Sync.S1Agent
  doc : Sync.AgentDoc
  reflects : Sync.Reflects spy raw doc

def StoredAgent.read {spy : Sync.Python} (a : StoredAgent spy) : AgentDoc where
  sourceId := a.doc.sourceId
  hostname := some a.doc.hostname
  tags := a.doc.tags
  groupName := some a.doc.groupName
  agentVersion := a.doc.agentVersion
  lastActive := some (.text a.doc.lastActive)
  installedAppNames := a.doc.installedAppNames

section Stored

variable {spy : Sync.Python} {db : Database} {fleet : List (StoredAgent spy)}
  {parameters : JsonDict} {scope : ScopeFilter} {py : Python} {now cutoff : Int}

def stored (db : Database) (fleet : List (StoredAgent spy)) : Database :=
  { db with agents := fleet.map StoredAgent.read }

def fleetIn (fleet : List (StoredAgent spy)) (scope : ScopeFilter) : List (StoredAgent spy) :=
  fleet.filter fun a => scope.selects a.read

theorem agentsIn_stored :
    agentsIn (stored db fleet) scope = (fleetIn fleet scope).map StoredAgent.read := List.filter_map

theorem exists_fleet_agentsDone {mode : Sync.Mode} {w : Sync.World}
    (h : ∀ d ∈ w.agents, ∃ raw, Sync.Reflects spy raw d) :
    ∃ fleet : List (StoredAgent spy),
      fleet.map StoredAgent.doc = (Sync.agentsDone spy mode w).agents.docs := by
  have hall : ∀ d ∈ (Sync.agentsDone spy mode w).agents, ∃ raw, Sync.Reflects spy raw d := by
    intro d hd
    rcases Collection.mem_or_mem_of_bulkReplace (Collection.mem_deleteMany.mp hd).1 with hnew | hold
    · obtain ⟨raw, -, rfl⟩ := List.mem_map.mp hnew
      exact ⟨raw, _, _, _, rfl⟩
    · exact h d hold
  have hdocs : ∀ docs : List Sync.AgentDoc, (∀ d ∈ docs, ∃ raw, Sync.Reflects spy raw d) →
      ∃ fleet : List (StoredAgent spy), fleet.map StoredAgent.doc = docs := by
    intro docs hdocs
    induction docs with
    | nil => exact ⟨[], rfl⟩
    | cons d rest ih =>
      obtain ⟨raw, hraw⟩ := hdocs d List.mem_cons_self
      obtain ⟨fleet, hfleet⟩ := ih fun e he => hdocs e (List.mem_cons_of_mem _ he)
      exact ⟨⟨raw, d, hraw⟩ :: fleet, by rw [List.map_cons, hfleet]⟩
  exact hdocs _ hall

def NonCompliantAre (o : Outcome) (agents : List (StoredAgent spy)) : Prop :=
  Reports agents.length (agents.map fun a => a.doc.sourceId) o

theorem NonCompliantAre.eq_nil {o : Outcome} {agents : List (StoredAgent spy)}
    (h : NonCompliantAre o agents) (hnone : o.nonCompliantEndpoints = 0) : agents = [] := by
  have hlength := h.nonCompliant
  rw [hnone] at hlength
  exact List.length_eq_zero_iff.mp (by omega)

def inactive (instant : String → Option Int) (cutoff : Int) (a : StoredAgent spy) : Bool :=
  (instant a.doc.lastActive).any fun t => decide (t < cutoff)

/-- `agent_online` returns, and its non-compliant agents are the inactive ones. -/
def FlagsInactive (py : Python) (instant : String → Option Int) (now : Int) (db : Database)
    (fleet : List (StoredAgent spy)) (parameters : JsonDict) (scope : ScopeFilter) : Prop :=
  ∃ cutoff o, offlineCutoff py now parameters = .ok cutoff ∧
    agentOnline py now (stored db fleet) parameters scope = .ok o ∧
    NonCompliantAre o ((fleetIn fleet scope).filter (inactive instant cutoff))

/-- No text is before a date. -/
theorem agentOnline_stored (hcutoff : offlineCutoff py now parameters = .ok cutoff) :
    ∃ o, agentOnline py now (stored db fleet) parameters scope = .ok o ∧ Reports 0 [] o := by
  refine @exists_result .agentOnline py now (stored db fleet) parameters scope _
    ⟨cutoff, hcutoff⟩ (fun _ o h => h.reports) fun hsome => ?_
  obtain ⟨o, ho, hcounts⟩ :=
    @agentOnline_counts py now cutoff (stored db fleet) parameters scope hcutoff hsome
  have hfresh : (agentsIn (stored db fleet) scope).filter (staleSince cutoff) = [] := by
    rw [agentsIn_stored, List.filter_map]
    exact List.map_eq_nil_iff.mpr (List.filter_eq_nil_iff.mpr fun a _ => Bool.false_ne_true)
  rw [hfresh] at hcounts
  exact ⟨o, ho, hcounts.toReports⟩

theorem FlagsInactive.active {instant : String → Option Int}
    (h : FlagsInactive py instant now db fleet parameters scope) :
    ∃ cutoff, offlineCutoff py now parameters = .ok cutoff ∧
      ∀ a ∈ fleetIn fleet scope, inactive instant cutoff a = false := by
  obtain ⟨cutoff, o, hcutoff, ho, hflags⟩ := h
  obtain ⟨o', ho', hnone⟩ := @agentOnline_stored spy db fleet parameters scope py now cutoff hcutoff
  rw [ho] at ho'
  have hempty := hflags.eq_nil (by rw [Except.ok.inj ho', hnone.nonCompliant]; rfl)
  exact ⟨cutoff, hcutoff, fun a ha =>
    Bool.eq_false_iff.mpr (List.filter_eq_nil_iff.mp hempty a ha)⟩

end Stored

/-- The inactive agents are flagged only where there are none. -/
theorem flagsInactive_iff {spy : Sync.Python} (py : Python) (instant : String → Option Int)
    (now : Int) (db : Database) (fleet : List (StoredAgent spy)) (parameters : JsonDict)
    (scope : ScopeFilter) :
    FlagsInactive py instant now db fleet parameters scope ↔
      ∃ cutoff, offlineCutoff py now parameters = .ok cutoff ∧
        ∀ a ∈ fleetIn fleet scope, inactive instant cutoff a = false := by
  refine ⟨FlagsInactive.active, ?_⟩
  rintro ⟨cutoff, hcutoff, hactive⟩
  obtain ⟨o, ho, hnone⟩ := @agentOnline_stored spy db fleet parameters scope py now cutoff hcutoff
  have hempty : (fleetIn fleet scope).filter (inactive instant cutoff) = [] :=
    List.filter_eq_nil_iff.mpr fun a ha => Bool.eq_false_iff.mp (hactive a ha)
  refine ⟨cutoff, o, hcutoff, ho, ?_⟩
  rw [hempty]
  exact hnone

def storedRaw (raw : Sync.S1Agent) : StoredAgent Sync.plainPython :=
  ⟨raw, Sync.normalizeAgent Sync.plainPython raw fun _ => none, fun _ => none, none, none, rfl⟩

def epoch (text : String) : Option Int := if text = "1970-01-01T00:00:00Z" then some 0 else none

/-- An agent that was active 30 days ago, with a week allowed. -/
theorem dormant_agent_not_flagged :
    ¬∀ (spy : Sync.Python) (py : Python) (instant : String → Option Int) (now : Int)
      (db : Database) (fleet : List (StoredAgent spy)) (parameters : JsonDict)
      (scope : ScopeFilter), FlagsInactive py instant now db fleet parameters scope := by
  intro h
  obtain ⟨cutoff, hcutoff, hactive⟩ := (h Sync.plainPython clockPython epoch 2592000000 {}
    [storedRaw { id := 7, lastActiveDate := some "1970-01-01T00:00:00Z" }] .empty .all).active
  have hcutoff : cutoff = 1987200000 := (Except.ok.inj hcutoff).symm
  rw [hcutoff] at hactive
  exact absurd (hactive _ List.mem_cons_self) (by decide)

def StoredAgent.version {spy : Sync.Python} (a : StoredAgent spy) : Option String :=
  present a.raw.agentVersion

def hasLower {spy : Sync.Python} (minVersion : String) (a : StoredAgent spy) : Bool :=
  a.version.any fun version => decide (Lower (components version) (components minVersion))

section Stored

variable {spy : Sync.Python} {db : Database} {fleet : List (StoredAgent spy)}
  {parameters : JsonDict} {scope : ScopeFilter} {py : Python} {now : Int} {minVersion : String}

/-- `agent_version` returns, its non-compliant agents are those with a lower version, and no
more agents are compliant than have a version that is not lower. -/
def FlagsLower (py : Python) (now : Int) (db : Database) (fleet : List (StoredAgent spy))
    (parameters : JsonDict) (scope : ScopeFilter) (minVersion : String) : Prop :=
  ∃ o, agentVersion py now (stored db fleet) parameters scope = .ok o ∧
    NonCompliantAre o ((fleetIn fleet scope).filter (hasLower minVersion)) ∧
    o.compliantEndpoints ≤
      ((fleetIn fleet scope).filter fun a => a.version.isSome && !hasLower minVersion a).length

theorem StoredAgent.agentVersion_doc (a : StoredAgent spy) : a.doc.agentVersion = none := by
  obtain ⟨groupNameMap, names, stamp, h⟩ := a.reflects
  rw [h]
  rfl

theorem agentVersion_eq_none {agent : AgentDoc} (h : agent ∈ agentsIn (stored db fleet) scope) :
    agent.agentVersion = none := by
  rw [agentsIn_stored] at h
  obtain ⟨a, -, rfl⟩ := List.mem_map.mp h
  exact a.agentVersion_doc

theorem commonVersion_stored : commonVersion (stored db fleet) scope = none := by
  unfold commonVersion
  cases hhead : (sortBy (fun g => OrderDual.toDual g.2.length)
      (groupsBy AgentDoc.agentVersion (agentsIn (stored db fleet) scope))).head? with
  | none => rfl
  | some g =>
    have hg := (mem_sortBy _).mp (List.mem_of_mem_head? hhead)
    obtain ⟨agent, hagent, hversion⟩ := List.mem_map.mp (mem_groupsBy.mp hg).1
    rw [Option.bind_some, ← hversion, agentVersion_eq_none hagent]

theorem filter_behind_stored :
    (agentsIn (stored db fleet) scope).filter (behind py minVersion) = [] := by
  refine List.filter_eq_nil_iff.mpr fun agent hagent => ?_
  unfold behind
  rw [agentVersion_eq_none hagent]
  exact Bool.false_ne_true

theorem agentVersion_stored (hmin : parameters.getD "min_version" .null = .str minVersion) :
    ∃ o, agentVersion py now (stored db fleet) parameters scope = .ok o ∧ Reports 0 [] o ∧
      o.compliantEndpoints =
        if minVersion = "" then 0 else ((fleetIn fleet scope).length : Int) := by
  have hfit : Fits .agentVersion py now parameters := fun _ => ⟨minVersion, by rw [hmin]; rfl⟩
  refine @exists_result .agentVersion py now (stored db fleet) parameters scope _ hfit
    (fun hnone o h => ?_) fun hsome => ?_
  · refine ⟨h.reports, ?_⟩
    rw [agentsIn_stored, List.map_eq_nil_iff] at hnone
    rw [h.compliant, hnone]
    simp
  · by_cases hempty : minVersion = ""
    · have hbase : baseline (stored db fleet) parameters scope = .ok none := by
        unfold baseline
        rw [hmin, hempty, commonVersion_stored]
        rfl
      obtain ⟨o, ho, -, -, hcompliant, hcount, hviolations⟩ :=
        @agentVersion_undetermined py now (stored db fleet) parameters scope hbase hsome
      refine ⟨o, ho, ⟨hcount, fun v hv => ?_, fun _ id hid => absurd hid List.not_mem_nil⟩, ?_⟩
      · exact absurd (hviolations ▸ hv) List.not_mem_nil
      · rw [if_pos hempty, hcompliant]
    · have hbase : baseline (stored db fleet) parameters scope = .ok (some minVersion) := by
        have htruthy : truthy (.str minVersion) = true := decide_eq_true hempty
        unfold baseline
        rw [hmin, if_pos htruthy]
        rfl
      obtain ⟨o, ho, hcounts⟩ :=
        @agentVersion_counts py now (stored db fleet) parameters scope minVersion hbase hsome
      rw [filter_behind_stored] at hcounts
      refine ⟨o, ho, hcounts.toReports, ?_⟩
      rw [if_neg hempty, hcounts.compliant, agentsIn_stored, List.length_map]
      simp

theorem hasLower_empty (a : StoredAgent spy) : hasLower "" a = false := by
  have hzeros : ∀ version, ¬Lower (components version) (components "") := fun version =>
    not_lower_zeros fun n => by
      cases n with
      | zero => rfl
      | succ n => rfl
  unfold hasLower
  cases a.version with
  | none => rfl
  | some version => exact decide_eq_false (hzeros version)

theorem FlagsLower.known (hmin : parameters.getD "min_version" .null = .str minVersion)
    (h : FlagsLower py now db fleet parameters scope minVersion) (hgiven : minVersion ≠ "") :
    ∀ a ∈ fleetIn fleet scope, (a.version.isSome && !hasLower minVersion a) = true := by
  obtain ⟨o, ho, -, hcompliant⟩ := h
  obtain ⟨o', ho', -, hall⟩ :=
    @agentVersion_stored spy db fleet parameters scope py now minVersion hmin
  rw [ho] at ho'
  rw [Except.ok.inj ho', hall, if_neg hgiven] at hcompliant
  refine List.length_filter_eq_length_iff.mp (le_antisymm (List.length_filter_le ..) ?_)
  exact_mod_cast hcompliant

end Stored

/-- The versions of the listing count only where all are known and high enough. -/
theorem flagsLower_iff {spy : Sync.Python} (py : Python) (now : Int) (db : Database)
    (fleet : List (StoredAgent spy)) (parameters : JsonDict) (scope : ScopeFilter)
    (minVersion : String) (hmin : parameters.getD "min_version" .null = .str minVersion) :
    FlagsLower py now db fleet parameters scope minVersion ↔
      minVersion = "" ∨
        ∀ a ∈ fleetIn fleet scope, (a.version.isSome && !hasLower minVersion a) = true := by
  constructor
  · intro h
    by_cases hgiven : minVersion = ""
    · exact .inl hgiven
    · exact .inr (h.known hmin hgiven)
  · intro h
    obtain ⟨o, ho, hreports, hall⟩ :=
      @agentVersion_stored spy db fleet parameters scope py now minVersion hmin
    have hlower : (fleetIn fleet scope).filter (hasLower minVersion) = [] := by
      refine List.filter_eq_nil_iff.mpr fun a ha => ?_
      rcases h with rfl | hknown
      · exact Bool.eq_false_iff.mp (hasLower_empty a)
      · have hka := hknown a ha
        rw [Bool.and_eq_true, Bool.not_eq_true'] at hka
        exact Bool.eq_false_iff.mp hka.2
    refine ⟨o, ho, ?_, ?_⟩
    · rw [hlower]
      exact hreports
    · rw [hall]
      by_cases hgiven : minVersion = ""
      · rw [if_pos hgiven]
        exact Int.natCast_nonneg _
      · rw [if_neg hgiven, List.length_filter_eq_length_iff.mpr (h.resolve_left hgiven)]

def atLeast (minVersion : String) : JsonDict :=
  ⟨[("min_version", .str minVersion)], List.nodup_singleton _⟩

theorem flagsLower_of_same :
    FlagsLower plainPython 0 {} [storedRaw { id := 7, agentVersion := some "23.1" }]
        (atLeast "23.1.0") .all "23.1.0" ↔
      "23.1.0" = "" ∨ ∀ a ∈ fleetIn [storedRaw { id := 7, agentVersion := some "23.1" }] .all,
        (a.version.isSome && !hasLower "23.1.0" a) = true :=
  flagsLower_iff plainPython 0 {} _ (atLeast "23.1.0") .all "23.1.0" rfl

/-- An agent with a lower version. -/
theorem lower_version_not_flagged :
    ¬∀ (spy : Sync.Python) (py : Python) (now : Int) (db : Database)
      (fleet : List (StoredAgent spy)) (parameters : JsonDict) (scope : ScopeFilter)
      (minVersion : String), parameters.getD "min_version" .null = .str minVersion →
        FlagsLower py now db fleet parameters scope minVersion := by
  intro h
  have hknown := (h Sync.plainPython plainPython 0 {}
    [storedRaw { id := 7, agentVersion := some "22.3" }] (atLeast "23.1") .all "23.1" rfl).known
      rfl (by decide)
  exact absurd (hknown _ List.mem_cons_self) (by decide)

end Sentora.Compliance
