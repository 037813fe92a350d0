import Sentora.Compliance.Checks
import Sentora.Lib.Fallible

namespace Sentora.Compliance

open Lib

def offlineCutoff (py : Python) (now : Int) (parameters : JsonDict) : Except Raised Int := do
  py.daysBefore now (← number (parameters.getD "max_offline_days" (.int 7)))

def lookbackCutoff (py : Python) (now : Int) (parameters : JsonDict) : Except Raised Int := do
  py.hoursBefore now (← number (parameters.getD "lookback_hours" (.int 24)))

/-- The least version that `agent_version` asks for, if it finds one. -/
def baseline (db : Database) (parameters : JsonDict) (scope : ScopeFilter) :
    Except Raised (Option String) :=
  let given := parameters.getD "min_version" .null
  if truthy given then some <$> versionText given
  else pure ((commonVersion db scope).filter (· ≠ ""))

def excludedProducts (parameters : JsonDict) : Except Raised (List String) :=
  let given := parameters.getD "exclude_products" (.arr [])
  if truthy given then ninTexts given else pure []

theorem isFloatText_default : isFloatText "0.8".toList = true := by decide

def defaultConfidence : Json := .float ⟨"0.8", isFloatText_default⟩

/-- The product of an app that `eol_software` evaluates. -/
def eolProductOf (py : Python) (now : Int) (db : Database) (parameters : JsonDict)
    (excluded : List String) (app : String) : Option (String × String × List Eol.EOLCycle) :=
  mappedProduct py
    (mongoNumber (parameters.getD "min_match_confidence" defaultConfidence))
    excluded (Eol.getAllProductsWithCycles db.eolProducts (py.today now)) db.appSummaries app

def staleSince (cutoff : Int) (agent : AgentDoc) : Bool :=
  match agent.lastActive with
  | some (.date t) => decide (t < cutoff)
  | _ => false

def behind (py : Python) (minVersion : String) (agent : AgentDoc) : Bool :=
  (agent.agentVersion.filter (· ≠ "")).any fun version =>
    decide (versionTuple py version < versionTuple py minVersion)

def installsIn (db : Database) (scope : ScopeFilter) : List AppDoc :=
  db.installedApps.filter fun app => (agentIdsIn db scope).contains app.agentId

def topVersion (db : Database) (scope : ScopeFilter) (app : String) : Option String :=
  ((versionGroups db scope).find? fun g => g.1.1 == app).bind fun g => g.1.2

def outdatedInstalls (db : Database) (scope : ScopeFilter) : List AppDoc :=
  (installsIn db scope).filter fun app => app.version ≠ topVersion db scope app.normalizedName

def prohibitedNames (db : Database) : List String :=
  ((db.installedApps.filter fun app => app.riskLevel == some "prohibited").take 10000).map
    AppDoc.normalizedName

def hasProhibited (py : Python) (db : Database) (agent : AgentDoc) : Bool :=
  (installed agent).any fun name => ((prohibitedNames db).map py.lower).contains (py.lower name)

def breaksPresence (py : Python) (pattern : String) (mustExist : Bool) (agent : AgentDoc) : Bool :=
  mustExist != (installed agent).any (search py (starred pattern))

def newInstalls (cutoff : Int) (db : Database) (scope : ScopeFilter) : List AppDoc :=
  db.installedApps.filter fun app =>
    (match app.lastSyncedAt with
      | some (.date t) => decide (cutoff ≤ t)
      | _ => false) &&
    (scope == .all || (agentIdsIn db scope).contains app.agentId)

def prohibitedOn (py : Python) (db : Database) (agent : AgentDoc) : List ComplianceViolation :=
  ((installed agent).filter fun name =>
    ((prohibitedNames db).map py.lower).contains (py.lower name)).map fun name =>
      { agentId := agent.sourceId
        agentHostname := hostname agent
        violationDetail := "Prohibited application '" ++ name ++ "' installed"
        appName := name
        remediation := "Uninstall '" ++ name ++ "' from endpoint " ++ hostname agent }

def prohibitedViolations (py : Python) (db : Database) (scope : ScopeFilter) :
    List ComplianceViolation :=
  (agentsIn db scope).flatMap (prohibitedOn py db)

def presenceOn (py : Python) (pattern : String) (mustExist : Bool) (agent : AgentDoc) :
    List ComplianceViolation :=
  let found := (installed agent).filter (search py (starred pattern))
  if mustExist then
    if found.isEmpty then
      [{ agentId := agent.sourceId
         agentHostname := hostname agent
         violationDetail := "Required application matching '" ++ pattern ++ "' not found"
         appName := pattern
         remediation := "Install an application matching '" ++ pattern ++ "' on " ++
           hostname agent }]
    else []
  else
    found.map fun name =>
      { agentId := agent.sourceId
        agentHostname := hostname agent
        violationDetail := "Disallowed application '" ++ name ++ "' found (matches pattern '" ++
          pattern ++ "')"
        appName := name
        remediation := "Remove '" ++ name ++ "' from " ++ hostname agent }

def presenceViolations (py : Python) (pattern : String) (mustExist : Bool) (db : Database)
    (scope : ScopeFilter) : List ComplianceViolation :=
  (agentsIn db scope).flatMap (presenceOn py pattern mustExist)

def firstInstalls (py : Python) (now : Int) (db : Database) (parameters : JsonDict)
    (scope : ScopeFilter) (excluded : List String) : List AppDoc :=
  firstOfEach (fun app => (app.agentId, app.normalizedName))
    ((installsIn db scope).filter fun app =>
      (eolProductOf py now db parameters excluded app.normalizedName).isSome)

def evaluated (py : Python) (now : Int) (db : Database) (parameters : JsonDict)
    (excluded : List String) (install : AppDoc) : Option (String × Bool × ComplianceViolation) :=
  evaluateInstall py db (truthy (parameters.getD "flag_security_only" (.bool true)))
    (eolProductOf py now db parameters excluded) install

def endedInstalls (py : Python) (now : Int) (db : Database) (parameters : JsonDict)
    (scope : ScopeFilter) (excluded : List String) : List AppDoc :=
  (firstInstalls py now db parameters scope excluded).filter fun install =>
    (evaluated py now db parameters excluded install).isSome

def eolViolations (py : Python) (now : Int) (db : Database) (parameters : JsonDict)
    (scope : ScopeFilter) (excluded : List String) : List ComplianceViolation :=
  ((firstInstalls py now db parameters scope excluded).filterMap
    (evaluated py now db parameters excluded)).map fun e => e.2.2

/-- A result in which so many agents are not compliant, with violations of these ids, and of all
of them unless some are cut. -/
structure Reports (n : Nat) (ids : List String) (o : Outcome) : Prop where
  nonCompliant : o.nonCompliantEndpoints = n
  named : ∀ v ∈ o.violations, v.agentId ∈ ids
  complete : o.violations.length < maxViolations → ∀ id ∈ ids, ∃ v ∈ o.violations, v.agentId = id

/-- A result of violations, of which no more are kept than are stored. -/
structure Cut (found : List ComplianceViolation) (o : Outcome) : Prop where
  violations : o.violations = found.take maxViolations
  nonCompliant : o.nonCompliantEndpoints = agentCount found

structure Counts (db : Database) (scope : ScopeFilter) (n : Nat) (ids : List String)
    (o : Outcome) : Prop extends Reports n ids o where
  total : o.totalEndpoints = (agentsIn db scope).length
  compliant : o.compliantEndpoints = ((agentsIn db scope).length : Int) - n
  status : o.status = .passed ↔ n = 0

structure Names (v : ComplianceViolation) (install : AppDoc) : Prop where
  agentId : v.agentId = install.agentId
  appName : v.appName = some install.normalizedName
  appVersion : v.appVersion = install.version

section Results

variable {db : Database} {scope : ScopeFilter} {status : CheckStatus} {n total : Nat}
  {found : List ComplianceViolation} {ids : List String} {summary : String}

theorem passedIfNone_eq_passed_iff : passedIfNone n = .passed ↔ n = 0 := by
  unfold passedIfNone
  by_cases hn : n = 0
  · rw [if_pos hn]
    exact iff_of_true rfl hn
  · rw [if_neg hn]
    exact iff_of_false nofun hn

theorem counts_outcome (hstatus : status = .passed ↔ n = 0)
    (hids : ∀ id, id ∈ found.map ComplianceViolation.agentId ↔ id ∈ ids) :
    Counts db scope n ids (outcome status (agentsIn db scope).length n found summary) where
  nonCompliant := rfl
  named v hv := (hids _).mp (List.mem_map_of_mem (List.mem_of_mem_take hv))
  complete hlength id hid := by
    have hlength : (found.take maxViolations).length < maxViolations := hlength
    obtain ⟨v, hv, heq⟩ := List.mem_map.mp ((hids id).mpr hid)
    refine ⟨v, ?_, heq⟩
    rw [List.length_take, min_lt_iff] at hlength
    show v ∈ found.take maxViolations
    rw [List.take_of_length_le (hlength.resolve_left (lt_irrefl _)).le]
    exact hv
  total := rfl
  compliant := rfl
  status := hstatus

theorem cut_outcome : Cut found (outcome status total (agentCount found) found summary) :=
  ⟨rfl, rfl⟩

theorem counts_none (hstatus : status = .passed) :
    Counts db scope 0 [] (outcome status (agentsIn db scope).length 0 [] summary) :=
  counts_outcome (iff_of_true hstatus rfl) fun _ => Iff.rfl

theorem agentCount_eq (h : ∀ id, id ∈ found.map ComplianceViolation.agentId ↔ id ∈ ids) :
    agentCount found = ids.dedup.length := by
  refine ((List.perm_ext_iff_of_nodup (List.nodup_dedup _) (List.nodup_dedup _)).mpr
    fun id => ?_).length_eq
  rw [List.mem_dedup, List.mem_dedup]
  exact h id

theorem counts_agentCount (hids : ∀ id, id ∈ found.map ComplianceViolation.agentId ↔ id ∈ ids)
    (hstatus : status = .passed ↔ agentCount found = 0) :
    Counts db scope ids.dedup.length ids
      (outcome status (agentsIn db scope).length (agentCount found) found summary) := by
  rw [agentCount_eq hids] at hstatus ⊢
  exact counts_outcome hstatus hids

theorem map_filterMap_agents {f : AgentDoc → Option ComplianceViolation} {flags : AgentDoc → Bool}
    {agents : List AgentDoc} (hflags : ∀ a, (f a).isSome = flags a)
    (hid : ∀ a v, f a = some v → v.agentId = a.sourceId) :
    (agents.filterMap f).map ComplianceViolation.agentId =
      (agents.filter flags).map AgentDoc.sourceId := by
  induction agents with
  | nil => rfl
  | cons a rest ih =>
    rw [List.filterMap_cons, List.filter_cons, ← hflags a]
    cases hf : f a with
    | none => exact ih
    | some v =>
      rw [Option.isSome_some, if_pos rfl, List.map_cons, List.map_cons, hid a v hf, ih]

theorem mem_flatMap_agents {f : AgentDoc → List ComplianceViolation} {flags : AgentDoc → Bool}
    {agents : List AgentDoc} (hflags : ∀ a, f a ≠ [] ↔ flags a = true)
    (hid : ∀ a, ∀ v ∈ f a, v.agentId = a.sourceId) {id : String} :
    id ∈ (agents.flatMap f).map ComplianceViolation.agentId ↔
      id ∈ (agents.filter flags).map AgentDoc.sourceId := by
  rw [List.mem_map, List.mem_map]
  constructor
  · rintro ⟨v, hv, rfl⟩
    obtain ⟨a, ha, hmem⟩ := List.mem_flatMap.mp hv
    exact ⟨a, List.mem_filter.mpr ⟨ha, (hflags a).mp (List.ne_nil_of_mem hmem)⟩,
      (hid a v hmem).symm⟩
  · rintro ⟨a, ha, rfl⟩
    obtain ⟨hmem, hflag⟩ := List.mem_filter.mp ha
    obtain ⟨v, hv⟩ := List.exists_mem_of_ne_nil _ ((hflags a).mpr hflag)
    exact ⟨v, List.mem_flatMap.mpr ⟨a, hmem, hv⟩, hid a v hv⟩

theorem counts_filterMap {f : AgentDoc → Option ComplianceViolation} {flags : AgentDoc → Bool}
    (hflags : ∀ a, (f a).isSome = flags a) (hid : ∀ a v, f a = some v → v.agentId = a.sourceId) :
    Counts db scope ((agentsIn db scope).filter flags).length
      (((agentsIn db scope).filter flags).map AgentDoc.sourceId)
      (outcome (passedIfNone ((agentsIn db scope).filterMap f).length) (agentsIn db scope).length
        ((agentsIn db scope).filterMap f).length ((agentsIn db scope).filterMap f) summary) := by
  have hids := @map_filterMap_agents f flags (agentsIn db scope) hflags hid
  have hlength : ((agentsIn db scope).filterMap f).length =
      ((agentsIn db scope).filter flags).length := by
    simpa using congrArg List.length hids
  rw [hlength]
  exact counts_outcome passedIfNone_eq_passed_iff fun id => by rw [hids]

theorem counts_flatMap {f : AgentDoc → List ComplianceViolation} {flags : AgentDoc → Bool}
    (hflags : ∀ a, f a ≠ [] ↔ flags a = true) (hid : ∀ a, ∀ v ∈ f a, v.agentId = a.sourceId) :
    Counts db scope (((agentsIn db scope).filter flags).map AgentDoc.sourceId).dedup.length
      (((agentsIn db scope).filter flags).map AgentDoc.sourceId)
      (outcome (passedIfNone (agentCount ((agentsIn db scope).flatMap f)))
        (agentsIn db scope).length (agentCount ((agentsIn db scope).flatMap f))
        ((agentsIn db scope).flatMap f) summary) :=
  counts_agentCount (fun _ => mem_flatMap_agents hflags hid) passedIfNone_eq_passed_iff

end Results

section Executors

variable {py : Python} {now cutoff : Int} {db : Database} {parameters : JsonDict}
  {scope : ScopeFilter}

theorem agentOnline_counts (hcutoff : offlineCutoff py now parameters = .ok cutoff)
    (hsome : (agentsIn db scope).length ≠ 0) :
    ∃ o, agentOnline py now db parameters scope = .ok o ∧
      Counts db scope ((agentsIn db scope).filter (staleSince cutoff)).length
        (((agentsIn db scope).filter (staleSince cutoff)).map AgentDoc.sourceId) o := by
  obtain ⟨days, hdays, hdate⟩ := bind_eq_ok.mp hcutoff
  unfold agentOnline
  simp only [hdays, hdate, ok_bind, if_neg hsome]
  refine ⟨_, rfl, ?_⟩
  refine counts_filterMap (fun agent => ?_) fun agent v hv => ?_
  · unfold staleSince
    cases agent.lastActive with
    | none => rfl
    | some activity =>
      cases activity with
      | text s => rfl
      | date t =>
        dsimp only
        by_cases hbefore : t < cutoff
        · rw [if_pos hbefore, decide_eq_true hbefore, Option.isSome_some]
        · rw [if_neg hbefore, decide_eq_false hbefore, Option.isSome_none]
  · split at hv
    · split at hv
      · rw [← Option.some.inj hv]
      · cases hv
    · cases hv

theorem counts_behind {minVersion : String} {summary : String}
    {violation : AgentDoc → String → ComplianceViolation}
    (hid : ∀ agent version, (violation agent version).agentId = agent.sourceId) :
    let violations := (agentsIn db scope).filterMap fun agent =>
      (agent.agentVersion.filter (· ≠ "")).bind fun version =>
        if versionTuple py version < versionTuple py minVersion then some (violation agent version)
        else none
    Counts db scope ((agentsIn db scope).filter (behind py minVersion)).length
      (((agentsIn db scope).filter (behind py minVersion)).map AgentDoc.sourceId)
      (outcome (passedIfNone violations.length) (agentsIn db scope).length violations.length
        violations summary) := by
  refine counts_filterMap (fun agent => ?_) fun agent v hv => ?_
  · unfold behind
    cases agent.agentVersion.filter (· ≠ "") with
    | none => rfl
    | some version =>
      rw [Option.bind_some, Option.any_some]
      by_cases hbelow : versionTuple py version < versionTuple py minVersion
      · rw [if_pos hbelow, decide_eq_true hbelow, Option.isSome_some]
      · rw [if_neg hbelow, decide_eq_false hbelow, Option.isSome_none]
  · obtain ⟨version, -, hversion⟩ := Option.bind_eq_some_iff.mp hv
    split at hversion
    · rw [← Option.some.inj hversion]
      exact hid agent version
    · cases hversion

theorem agentVersion_counts {minVersion : String}
    (hbaseline : baseline db parameters scope = .ok (some minVersion))
    (hsome : (agentsIn db scope).length ≠ 0) :
    ∃ o, agentVersion py now db parameters scope = .ok o ∧
      Counts db scope ((agentsIn db scope).filter (behind py minVersion)).length
        (((agentsIn db scope).filter (behind py minVersion)).map AgentDoc.sourceId) o := by
  unfold baseline at hbaseline
  unfold agentVersion
  simp only [if_neg hsome]
  by_cases hgiven : truthy (parameters.getD "min_version" .null) = true
  · rw [if_pos hgiven] at hbaseline
    rw [if_pos hgiven, hbaseline]
    exact ⟨_, rfl, counts_behind fun _ _ => rfl⟩
  · rw [if_neg hgiven] at hbaseline
    rw [if_neg hgiven, Except.ok.inj hbaseline]
    exact ⟨_, rfl, counts_behind fun _ _ => rfl⟩

theorem agentVersion_undetermined (hbaseline : baseline db parameters scope = .ok none)
    (hsome : (agentsIn db scope).length ≠ 0) :
    ∃ o, agentVersion py now db parameters scope = .ok o ∧ o.status = .warning ∧
      o.totalEndpoints = (agentsIn db scope).length ∧ o.compliantEndpoints = 0 ∧
      o.nonCompliantEndpoints = 0 ∧ o.violations = [] := by
  unfold baseline at hbaseline
  unfold agentVersion
  simp only [if_neg hsome]
  by_cases hgiven : truthy (parameters.getD "min_version" .null) = true
  · rw [if_pos hgiven] at hbaseline
    rw [if_pos hgiven, hbaseline]
    exact ⟨_, rfl, rfl, rfl, rfl, rfl, rfl⟩
  · rw [if_neg hgiven] at hbaseline
    rw [if_neg hgiven, Except.ok.inj hbaseline]
    exact ⟨_, rfl, rfl, rfl, rfl, rfl, rfl⟩

theorem prohibitedOn_ne_nil_iff (agent : AgentDoc) :
    prohibitedOn py db agent ≠ [] ↔ hasProhibited py db agent = true := by
  unfold prohibitedOn hasProhibited
  rw [Ne, List.map_eq_nil_iff, List.filter_eq_nil_iff]
  simp

theorem agentId_of_mem_prohibitedOn (agent : AgentDoc) :
    ∀ v ∈ prohibitedOn py db agent, v.agentId = agent.sourceId := by
  intro v hv
  obtain ⟨name, -, rfl⟩ := List.mem_map.mp hv
  rfl

theorem prohibitedApp_counts (hsome : (agentsIn db scope).length ≠ 0) :
    ∃ o, prohibitedApp py now db parameters scope = .ok o ∧
      Cut (prohibitedViolations py db scope) o ∧
      Counts db scope
        (((agentsIn db scope).filter (hasProhibited py db)).map AgentDoc.sourceId).dedup.length
        (((agentsIn db scope).filter (hasProhibited py db)).map AgentDoc.sourceId) o := by
  unfold prohibitedApp
  simp only [if_neg hsome]
  show ∃ o, (if (prohibitedNames db).isEmpty then _ else _) = _ ∧ _
  by_cases hnone : (prohibitedNames db).isEmpty = true
  · have hclean : ∀ agent, hasProhibited py db agent = false := fun agent => by
      unfold hasProhibited
      rw [List.isEmpty_iff.mp hnone]
      simp
    have hnothing : prohibitedViolations py db scope = [] :=
      List.flatMap_eq_nil_iff.mpr fun agent _ => by
        rw [← Decidable.not_not (p := _ = []), ← Ne, prohibitedOn_ne_nil_iff, hclean]
        exact Bool.false_ne_true
    rw [if_pos hnone, hnothing, List.filter_eq_nil_iff.mpr fun agent _ =>
      Bool.eq_false_iff.mp (hclean agent)]
    exact ⟨_, rfl, cut_outcome, counts_none rfl⟩
  · rw [if_neg hnone]
    exact ⟨_, rfl, cut_outcome,
      counts_flatMap prohibitedOn_ne_nil_iff agentId_of_mem_prohibitedOn⟩

theorem presenceOn_ne_nil_iff {pattern : String} {mustExist : Bool} (agent : AgentDoc) :
    presenceOn py pattern mustExist agent ≠ [] ↔
      breaksPresence py pattern mustExist agent = true := by
  unfold presenceOn breaksPresence
  cases mustExist with
  | true => simp
  | false => simp

theorem agentId_of_mem_presenceOn {pattern : String} {mustExist : Bool} (agent : AgentDoc) :
    ∀ v ∈ presenceOn py pattern mustExist agent, v.agentId = agent.sourceId := by
  intro v hv
  unfold presenceOn at hv
  split at hv
  · dsimp only at hv
    split at hv
    · rw [List.mem_singleton.mp hv]
    · cases hv
  · obtain ⟨name, -, rfl⟩ := List.mem_map.mp hv
    rfl

theorem customAppPresence_counts {pattern : String}
    (hgiven : truthy (parameters.getD "app_pattern" (.str "")) = true)
    (hpattern : patternText (parameters.getD "app_pattern" (.str "")) = .ok pattern)
    (hsome : (agentsIn db scope).length ≠ 0) :
    let mustExist := truthy (parameters.getD "must_exist" (.bool true))
    let ids := ((agentsIn db scope).filter (breaksPresence py pattern mustExist)).map
      AgentDoc.sourceId
    ∃ o, customAppPresence py now db parameters scope = .ok o ∧
      Cut (presenceViolations py pattern mustExist db scope) o ∧
      Counts db scope ids.dedup.length ids o := by
  unfold customAppPresence
  simp only [hgiven, hpattern, ok_bind, if_neg hsome, Bool.not_true, Bool.false_eq_true, if_false]
  exact ⟨_, rfl, cut_outcome, counts_flatMap presenceOn_ne_nil_iff agentId_of_mem_presenceOn⟩

end Executors

section Versions

variable {py : Python} {now : Int} {db : Database} {parameters : JsonDict} {scope : ScopeFilter}
  {app : String} {v : ComplianceViolation} {g : (String × Option String) × List AppDoc}
  {versions : List ((String × Option String) × List AppDoc)}

end Versions

section Records

variable {py : Python} {now cutoff : Int} {db : Database} {parameters : JsonDict}
  {scope : ScopeFilter} {excluded : List String}

theorem agentId_of_evaluateInstall {flagSecurityOnly : Bool}
    {mapped : String → Option (String × String × List Eol.EOLCycle)} {install : AppDoc}
    {e : String × Bool × ComplianceViolation}
    (h : evaluateInstall py db flagSecurityOnly mapped install = some e) :
    e.2.2.agentId = install.agentId := by
  unfold evaluateInstall at h
  obtain ⟨⟨product, displayName, cycles⟩, -, h⟩ := Option.bind_eq_some_iff.mp h
  obtain ⟨cycle, -, h⟩ := Option.bind_eq_some_iff.mp h
  dsimp only at h
  split at h
  · rw [← Option.some.inj h]
    rfl
  · split at h
    · rw [← Option.some.inj h]
      rfl
    · cases h

theorem map_filterMap_installs {f : AppDoc → Option (String × Bool × ComplianceViolation)}
    {installs : List AppDoc} (hid : ∀ r e, f r = some e → e.2.2.agentId = r.agentId) :
    ((installs.filterMap f).map fun e => e.2.2).map ComplianceViolation.agentId =
      (installs.filter fun r => (f r).isSome).map AppDoc.agentId := by
  induction installs with
  | nil => rfl
  | cons r rest ih =>
    rw [List.filterMap_cons, List.filter_cons]
    cases hf : f r with
    | none => exact ih
    | some e => rw [Option.isSome_some, if_pos rfl, List.map_cons, List.map_cons, List.map_cons,
        hid r e hf, ih]

theorem eolProductOf_eq_none (h : (db.appSummaries.all fun d =>
      (eolProductOf py now db parameters excluded d.normalizedName).isNone) = true) (app : String) :
    eolProductOf py now db parameters excluded app = none := by
  cases hmapped : eolProductOf py now db parameters excluded app with
  | none => rfl
  | some product =>
    obtain ⟨d, hd, -⟩ := List.exists_of_findSome?_eq_some hmapped
    obtain ⟨hmem, hname⟩ := List.mem_filter.mp hd
    have hnone := List.all_eq_true.mp h d (List.mem_reverse.mp hmem)
    rw [beq_iff_eq.mp hname, hmapped] at hnone
    cases hnone

theorem eolIds :
    (eolViolations py now db parameters scope excluded).map ComplianceViolation.agentId =
      (endedInstalls py now db parameters scope excluded).map AppDoc.agentId :=
  map_filterMap_installs fun _ _ h => agentId_of_evaluateInstall h

theorem eolSoftware_result {none some : String} :
    let mapped := eolProductOf py now db parameters excluded
    let violations := ((firstOfEach (fun app => (app.agentId, app.normalizedName))
      (db.installedApps.filter fun app => (agentIdsIn db scope).contains app.agentId &&
        (mapped app.normalizedName).isSome)).filterMap
      (evaluateInstall py db (truthy (parameters.getD "flag_security_only" (.bool true)))
        mapped)).map fun e => e.2.2
    ∃ o, (if (db.appSummaries.all fun d => (mapped d.normalizedName).isNone) = true then
        pure (outcome .passed (agentsIn db scope).length 0 [] none)
      else
        pure (outcome (passedIfNone (agentCount violations)) (agentsIn db scope).length
          (agentCount violations) violations some) : Except Raised Outcome) = .ok o ∧
      Cut (eolViolations py now db parameters scope excluded) o ∧
      Counts db scope
        ((endedInstalls py now db parameters scope excluded).map AppDoc.agentId).dedup.length
        ((endedInstalls py now db parameters scope excluded).map AppDoc.agentId) o := by
  intro mapped violations
  have hinstalls : (db.installedApps.filter fun app =>
      (agentIdsIn db scope).contains app.agentId && (mapped app.normalizedName).isSome) =
      (installsIn db scope).filter fun app => (mapped app.normalizedName).isSome := by
    rw [installsIn, List.filter_filter]
    exact List.filter_congr fun app _ => Bool.and_comm ..
  have hviolations : violations = eolViolations py now db parameters scope excluded := by
    show List.map _ (List.filterMap _ (firstOfEach _ (List.filter _ _))) = _
    rw [hinstalls]
    rfl
  by_cases hnone : (db.appSummaries.all fun d => (mapped d.normalizedName).isNone) = true
  · have hfirst : firstInstalls py now db parameters scope excluded = [] := by
      unfold firstInstalls
      simp only [eolProductOf_eq_none hnone]
      simp [firstOfEach, groupsBy, firstKeys]
    rw [if_pos hnone, eolViolations, endedInstalls, hfirst]
    exact ⟨_, rfl, cut_outcome, counts_none rfl⟩
  · rw [if_neg hnone, hviolations]
    exact ⟨_, rfl, cut_outcome,
      counts_agentCount (fun id => by rw [eolIds]) passedIfNone_eq_passed_iff⟩

theorem eolSoftware_counts (hexcluded : excludedProducts parameters = .ok excluded)
    (hsome : (agentsIn db scope).length ≠ 0) :
    ∃ o, eolSoftware py now db parameters scope = .ok o ∧
      Cut (eolViolations py now db parameters scope excluded) o ∧
      Counts db scope
        ((endedInstalls py now db parameters scope excluded).map AppDoc.agentId).dedup.length
        ((endedInstalls py now db parameters scope excluded).map AppDoc.agentId) o := by
  unfold excludedProducts at hexcluded
  unfold eolSoftware
  simp only [if_neg hsome]
  by_cases hgiven : truthy (parameters.getD "exclude_products" (.arr [])) = true
  · rw [if_pos hgiven] at hexcluded
    rw [if_pos hgiven, hexcluded]
    exact eolSoftware_result
  · rw [if_neg hgiven] at hexcluded
    rw [if_neg hgiven, Except.ok.inj hexcluded]
    exact eolSoftware_result

end Records

end Sentora.Compliance
