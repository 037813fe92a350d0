import Sentora.Compliance.Executors

/-!
# Balanced results

Whether the numbers of a result are those of the agents in scope, for each check that looks at
the endpoints.

Where no agent is in scope, or no pattern is configured, a check is not applicable, and without
a baseline the versions are not compared.  Five checks count the ids of the agents that they
flag, which agents of two sources may share.  `delta_detection` counts no more than a hundred of
them, and without a scope also those that have no agent.
-/

namespace Sentora.Compliance

open Lib

inductive EndpointCheck where
  | agentOnline
  | agentVersion
  | appVersion
  | prohibitedApp
  | customAppPresence
  | eolSoftware
  | deltaDetection
deriving DecidableEq

namespace EndpointCheck

def executor : EndpointCheck → Executor
  | agentOnline => Compliance.agentOnline
  | agentVersion => Compliance.agentVersion
  | appVersion => Compliance.appVersion
  | prohibitedApp => Compliance.prohibitedApp
  | customAppPresence => Compliance.customAppPresence
  | eolSoftware => Compliance.eolSoftware
  | deltaDetection => Compliance.deltaDetection

def countsIds : EndpointCheck → Bool
  | agentOnline => false
  | agentVersion => false
  | _ => true

end EndpointCheck

section Specification

variable (check : EndpointCheck) (py : Python) (now : Int) (db : Database)
  (parameters : JsonDict) (scope : ScopeFilter)

/-- The parameters are of the types that the executor takes. -/
def Fits : Prop :=
  match check with
  | .agentOnline => ∃ cutoff, offlineCutoff py now parameters = .ok cutoff
  | .agentVersion => truthy (parameters.getD "min_version" .null) = true →
    ∃ text, versionText (parameters.getD "min_version" .null) = .ok text
  | .appVersion => ∃ n, number (parameters.getD "max_outdated_percent" (.int 20)) = .ok n
  | .prohibitedApp => True
  | .customAppPresence => truthy (parameters.getD "app_pattern" (.str "")) = true →
    ∃ pattern, patternText (parameters.getD "app_pattern" (.str "")) = .ok pattern
  | .eolSoftware => ∃ excluded, excludedProducts parameters = .ok excluded
  | .deltaDetection => ∃ cutoff, lookbackCutoff py now parameters = .ok cutoff

def flags (agent : AgentDoc) : Bool :=
  match check with
  | .agentOnline => (offlineCutoff py now parameters).toOption.any fun cutoff =>
    staleSince cutoff agent
  | .agentVersion => (baseline db parameters scope).toOption.join.any fun minVersion =>
    behind py minVersion agent
  | .appVersion => ((outdatedInstalls db scope).map AppDoc.agentId).contains agent.sourceId
  | .prohibitedApp => hasProhibited py db agent
  | .customAppPresence =>
    (patternText (parameters.getD "app_pattern" (.str ""))).toOption.any fun pattern =>
      breaksPresence py pattern (truthy (parameters.getD "must_exist" (.bool true))) agent
  | .eolSoftware => (excludedProducts parameters).toOption.any fun excluded =>
    ((endedInstalls py now db parameters scope excluded).map AppDoc.agentId).contains agent.sourceId
  | .deltaDetection => (lookbackCutoff py now parameters).toOption.any fun cutoff =>
    ((newInstalls cutoff db scope).map AppDoc.agentId).contains agent.sourceId

def flagged : List AgentDoc :=
  (agentsIn db scope).filter (flags check py now db parameters scope)

/-- The numbers of a result are those of the agents in scope. -/
structure Balanced (o : Outcome) : Prop where
  total : o.totalEndpoints = (agentsIn db scope).length
  adds : o.compliantEndpoints + o.nonCompliantEndpoints = o.totalEndpoints
  nonneg : 0 ≤ o.compliantEndpoints ∧ 0 ≤ o.nonCompliantEndpoints
  counted : o.nonCompliantEndpoints = (flagged check py now db parameters scope).length
  status : o.status = .passed ↔ o.nonCompliantEndpoints = 0
  inScope : ∀ v ∈ o.violations, v.agentId ∈ agentIdsIn db scope

/-- Every new record is of an agent in scope. -/
def Owned : Prop :=
  ∀ cutoff, lookbackCutoff py now parameters = .ok cutoff →
    ∀ r ∈ newInstalls cutoff db scope, r.agentId ∈ agentIdsIn db scope

def Few : Prop :=
  ∀ cutoff, lookbackCutoff py now parameters = .ok cutoff →
    ((newInstalls cutoff db scope).map AppDoc.agentId).dedup.length ≤ 100

/-- The same, as far as the agents have different ids, and the new records are of them and of
few. -/
structure Balances (o : Outcome) : Prop where
  total : o.totalEndpoints = (agentsIn db scope).length
  adds : o.compliantEndpoints + o.nonCompliantEndpoints = o.totalEndpoints
  nonneg : (check = .deltaDetection → Owned py now db parameters scope) →
    0 ≤ o.compliantEndpoints ∧ 0 ≤ o.nonCompliantEndpoints
  counted : (check.countsIds = true → (agentIdsIn db scope).Nodup) →
    (check = .deltaDetection → Owned py now db parameters scope ∧ Few py now db parameters scope) →
      o.nonCompliantEndpoints = (flagged check py now db parameters scope).length
  status : o.status = .passed ↔ o.nonCompliantEndpoints = 0
  inScope : (check = .deltaDetection → Owned py now db parameters scope) →
    ∀ v ∈ o.violations, v.agentId ∈ agentIdsIn db scope

def Inapplicable : Prop :=
  agentsIn db scope = [] ∨
    check = .customAppPresence ∧ truthy (parameters.getD "app_pattern" (.str "")) = false

def Undetermined : Prop := check = .agentVersion ∧ baseline db parameters scope = .ok none

structure NotApplicable (o : Outcome) : Prop where
  status : o.status = .notApplicable
  total : o.totalEndpoints = 0
  compliant : o.compliantEndpoints = 0
  nonCompliant : o.nonCompliantEndpoints = 0
  violations : o.violations = []

/-- A warning in which no endpoint is counted as compliant or not. -/
structure Warned (o : Outcome) : Prop where
  status : o.status = .warning
  total : o.totalEndpoints = (agentsIn db scope).length
  compliant : o.compliantEndpoints = 0
  nonCompliant : o.nonCompliantEndpoints = 0
  violations : o.violations = []

/-- What a result is, in each of the three cases. -/
structure Settled (o : Outcome) : Prop where
  notApplicable : Inapplicable check db parameters scope → NotApplicable o
  warned : ¬Inapplicable check db parameters scope → Undetermined check db parameters scope →
    Warned db scope o
  balances : ¬Inapplicable check db parameters scope → ¬Undetermined check db parameters scope →
    Balances check py now db parameters scope o

end Specification

section Balance

variable {check : EndpointCheck} {py : Python} {now cutoff : Int} {db : Database}
  {parameters : JsonDict} {scope : ScopeFilter} {n : Nat} {ids : List String} {o : Outcome}

theorem Counts.balances (h : Counts db scope n ids o)
    (hids : (check = .deltaDetection → Owned py now db parameters scope) →
      ∀ id ∈ ids, id ∈ agentIdsIn db scope)
    (hle : (check = .deltaDetection → Owned py now db parameters scope) →
      n ≤ (agentsIn db scope).length)
    (hcount : (check.countsIds = true → (agentIdsIn db scope).Nodup) →
      (check = .deltaDetection →
        Owned py now db parameters scope ∧ Few py now db parameters scope) →
      n = (flagged check py now db parameters scope).length) :
    Balances check py now db parameters scope o where
  total := h.total
  adds := by
    rw [h.total, h.compliant, h.nonCompliant]
    omega
  nonneg howned := by
    have hn := hle howned
    rw [h.compliant, h.nonCompliant]
    omega
  counted hnodup hfew := by rw [h.nonCompliant, hcount hnodup hfew]
  status := by
    rw [h.status, h.nonCompliant]
    omega
  inScope howned v hv := hids howned _ (h.named v hv)

theorem notApplicable_fields {text : String} : NotApplicable (notApplicable text) :=
  ⟨rfl, rfl, rfl, rfl, rfl⟩

theorem NotApplicable.reports (h : NotApplicable o) : Reports 0 [] o where
  nonCompliant := h.nonCompliant
  named _ hv := absurd (h.violations ▸ hv) List.not_mem_nil
  complete _ _ hid := absurd hid List.not_mem_nil

theorem NotApplicable.cut (h : NotApplicable o) : Cut [] o := ⟨h.violations, h.nonCompliant⟩

theorem notApplicable_of_inapplicable (hfit : Fits check py now parameters)
    (h : Inapplicable check db parameters scope) :
    ∃ o, check.executor py now db parameters scope = .ok o ∧ NotApplicable o := by
  rcases h with hnone | ⟨rfl, hpattern⟩
  · have hzero : (agentsIn db scope).length = 0 := by rw [hnone, List.length_nil]
    cases check with
    | agentOnline =>
      obtain ⟨cutoff, hcutoff⟩ := hfit
      obtain ⟨days, hdays, hdate⟩ := bind_eq_ok.mp hcutoff
      unfold EndpointCheck.executor agentOnline
      simp only [hdays, hdate, ok_bind, if_pos hzero]
      exact ⟨_, rfl, notApplicable_fields⟩
    | agentVersion =>
      unfold EndpointCheck.executor agentVersion
      simp only [if_pos hzero]
      exact ⟨_, rfl, notApplicable_fields⟩
    | appVersion =>
      unfold EndpointCheck.executor appVersion
      simp only [if_pos hzero]
      exact ⟨_, rfl, notApplicable_fields⟩
    | prohibitedApp =>
      unfold EndpointCheck.executor prohibitedApp
      simp only [if_pos hzero]
      exact ⟨_, rfl, notApplicable_fields⟩
    | customAppPresence =>
      unfold EndpointCheck.executor customAppPresence
      simp only [if_pos hzero]
      split
      · exact ⟨_, rfl, notApplicable_fields⟩
      · exact ⟨_, rfl, notApplicable_fields⟩
    | eolSoftware =>
      unfold EndpointCheck.executor eolSoftware
      simp only [if_pos hzero]
      exact ⟨_, rfl, notApplicable_fields⟩
    | deltaDetection =>
      obtain ⟨cutoff, hcutoff⟩ := hfit
      obtain ⟨hours, hhours, hdate⟩ := bind_eq_ok.mp hcutoff
      unfold EndpointCheck.executor deltaDetection
      simp only [hhours, hdate, ok_bind, if_pos hzero]
      exact ⟨_, rfl, notApplicable_fields⟩
  · unfold EndpointCheck.executor customAppPresence
    simp only [hpattern, Bool.not_false, if_true]
    exact ⟨_, rfl, notApplicable_fields⟩

theorem exists_result {P : Outcome → Prop} (hfit : Fits check py now parameters)
    (hnone : agentsIn db scope = [] → ∀ o, NotApplicable o → P o)
    (hsome : (agentsIn db scope).length ≠ 0 →
      ∃ o, check.executor py now db parameters scope = .ok o ∧ P o) :
    ∃ o, check.executor py now db parameters scope = .ok o ∧ P o := by
  by_cases hagents : agentsIn db scope = []
  · obtain ⟨o, ho, h⟩ := notApplicable_of_inapplicable hfit (.inl hagents)
    exact ⟨o, ho, hnone hagents o h⟩
  · exact hsome fun hzero => hagents (List.length_eq_zero_iff.mp hzero)

end Balance

end Sentora.Compliance
