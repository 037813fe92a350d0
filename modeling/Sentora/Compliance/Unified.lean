import Mathlib.Data.Prod.Lex
import Sentora.Compliance.Service
import Sentora.Enforcement.Service
import Sentora.Lib.MergedPages

/-!
# Unified violations

`list_unified_violations` of `domains/compliance/router.py`, and the violations that it fetches
of either source.

Each source is fetched by severity as a text, up to the end of the page and to a bound, and the
page is cut out of both, sorted by the priority of the severity and the date, the oldest first.
-/

namespace Sentora.Compliance

open Lib

inductive Source where
  | compliance
  | enforcement
deriving DecidableEq

structure UnifiedViolation where
  source : Source
  controlId : String
  controlName : String
  frameworkId : String
  severity : String
  agentId : String
  agentHostname : String
  violationDetail : String
  appName : Option String
  appVersion : Option String
  remediation : String
  /-- A text in ISO format, which is sorted as its date. -/
  checkedAt : Int
  /-- Its place in the result, which no response has. -/
  place : Nat
deriving DecidableEq

structure DatedResult extends Enforcement.EnforcementResult where
  checkedAt : Int

def CheckResult.unified (r : CheckResult) : List UnifiedViolation :=
  r.violations.zipIdx.map fun (v, place) =>
    { source := .compliance
      controlId := r.controlId
      controlName := r.controlName
      frameworkId := r.frameworkId
      severity := r.severity.value
      agentId := v.agentId
      agentHostname := v.agentHostname
      violationDetail := v.violationDetail
      appName := v.appName
      appVersion := v.appVersion
      remediation := v.remediation
      checkedAt := r.checkedAt
      place }

def DatedResult.unified (r : DatedResult) : List UnifiedViolation :=
  r.violations.zipIdx.map fun (v, place) =>
    { source := .enforcement
      controlId := r.ruleId
      controlName := r.ruleName
      frameworkId := r.ruleType.value
      severity := r.severity.value
      agentId := v.agentId
      agentHostname := v.agentHostname
      violationDetail := v.violationDetail
      appName := v.appName
      -- no check of a rule finds a version
      appVersion := none
      remediation := ""
      checkedAt := r.checkedAt
      place }

/-- `{"$match": {"severity": severity}}`, unless the severity is empty. -/
def hasSeverity (severity : Option String) (value : String) : Bool :=
  (severity.filter (· ≠ "")).all (value == ·)

/-- The violations of `get_all_current_violations` of `domains/compliance/repository.py`. -/
def complianceViolations (severity : Option String) (results : List CheckResult) :
    List UnifiedViolation :=
  (((latestResults none results).filter fun r =>
      r.status == .failed || r.status == .warning).filter fun r =>
    hasSeverity severity r.severity.value).flatMap CheckResult.unified

/-- The violations of `get_all_current_violations` of `domains/enforcement/repository.py`. -/
def enforcementViolations (severity : Option String) (results : List DatedResult) :
    List UnifiedViolation :=
  (((latest (fun r : DatedResult => r.ruleId) results).filter fun r =>
      r.status == .failed).filter fun r =>
    hasSeverity severity r.severity.value).flatMap DatedResult.unified

/-- The order of `{"$sort": {"severity": 1, "checked_at": -1}}`. -/
def Fetched (a b : UnifiedViolation) : Prop :=
  a.severity < b.severity ∨ (a.severity = b.severity ∧ b.checkedAt ≤ a.checkedAt)

/-- How the store sorts violations.  Those with one severity and date are in an order of its
own. -/
structure StoreOrder where
  sort : List UnifiedViolation → List UnifiedViolation
  perm : ∀ rows, (sort rows).Perm rows
  sorted : ∀ rows, (sort rows).Pairwise Fetched

/-- `page_size`. -/
structure PageSize where
  size : Nat
  positive : 0 < size
  atMost : size ≤ 200

def maxUnifiedFetch : Nat := 1000

/-- `severity_order.get(severity, 9)`. -/
def priority (severity : String) : Nat :=
  ([("critical", 0), ("high", 1), ("medium", 2), ("low", 3)].lookup severity).getD 9

def UnifiedViolation.priority (v : UnifiedViolation) : Nat := Compliance.priority v.severity

def sortKey (v : UnifiedViolation) : Nat ×ₗ Int := toLex (v.priority, v.checkedAt)

structure UnifiedPage where
  violations : List UnifiedViolation
  total : Nat

def fromCompliance (source severity : Option String) (results : List CheckResult) :
    List UnifiedViolation :=
  if source ∈ [none, some "compliance"] then complianceViolations severity results else []

def fromEnforcement (source severity : Option String) (results : List DatedResult) :
    List UnifiedViolation :=
  if source ∈ [none, some "enforcement"] then enforcementViolations severity results else []

def listUnifiedViolations (store : StoreOrder) (compliance : List CheckResult)
    (enforcement : List DatedResult) (source severity : Option String) (page : Nat)
    (pageSize : PageSize) : UnifiedPage :=
  let fetchLimit := min (page * pageSize.size) maxUnifiedFetch
  let complianceRows := fromCompliance source severity compliance
  let enforcementRows := fromEnforcement source severity enforcement
  let allViolations := sortBy sortKey
    ((store.sort complianceRows).take fetchLimit ++ (store.sort enforcementRows).take fetchLimit)
  { violations := (allViolations.drop ((page - 1) * pageSize.size)).take pageSize.size
    total := complianceRows.length + enforcementRows.length }

def allPages (store : StoreOrder) (compliance : List CheckResult)
    (enforcement : List DatedResult) (source severity : Option String) (pageSize : PageSize) :
    List UnifiedViolation :=
  (List.range (pageCount pageSize.size
      (listUnifiedViolations store compliance enforcement source severity 1
        pageSize).total)).flatMap
    fun k => (listUnifiedViolations store compliance enforcement source severity (k + 1)
      pageSize).violations

/-- The violations of the sources that a filter names.  `all` names both, as none does. -/
def matching (source severity : Option String) (compliance : List CheckResult)
    (enforcement : List DatedResult) : List UnifiedViolation :=
  (if source ∈ [none, some "all", some "compliance"] then complianceViolations severity compliance
    else []) ++
  if source ∈ [none, some "all", some "enforcement"] then
    enforcementViolations severity enforcement else []

/-- By the priority of the severity, then the last date first. -/
def Precedes (a b : UnifiedViolation) : Prop :=
  a.priority < b.priority ∨ (a.priority = b.priority ∧ b.checkedAt ≤ a.checkedAt)

/-- The pages show each violation that matches once, in order, and count them. -/
structure Paginates (store : StoreOrder) (compliance : List CheckResult)
    (enforcement : List DatedResult) (source severity : Option String) (pageSize : PageSize) :
    Prop where
  perm : (allPages store compliance enforcement source severity pageSize).Perm
    (matching source severity compliance enforcement)
  ordered : (allPages store compliance enforcement source severity pageSize).Pairwise Precedes
  total : ∀ page,
    (listUnifiedViolations store compliance enforcement source severity page pageSize).total =
      (allPages store compliance enforcement source severity pageSize).length

/-- Every violation that is fetched comes, in the order of its own source, before the bound and
the end of the page on which it stands by priority. -/
def Reached (store : StoreOrder) (pageSize : PageSize) (complianceRows enforcementRows :
    List UnifiedViolation) : Prop :=
  let xs := store.sort complianceRows
  let ys := store.sort enforcementRows
  Taken UnifiedViolation.priority pageSize.size maxUnifiedFetch 0 (xs ++ ys) xs ∧
    Taken UnifiedViolation.priority pageSize.size maxUnifiedFetch xs.length (xs ++ ys) ys

/-- Violations with one severity have one date, the sources are read as far as the pages need
them, and a filter `all` has nothing to show. -/
structure Favourable (store : StoreOrder) (compliance : List CheckResult)
    (enforcement : List DatedResult) (source severity : Option String) (pageSize : PageSize) :
    Prop where
  all : source = some "all" → matching source severity compliance enforcement = []
  dates : ∀ a ∈ matching source severity compliance enforcement,
    ∀ b ∈ matching source severity compliance enforcement, a.severity = b.severity →
      a.checkedAt = b.checkedAt
  reached : Reached store pageSize (fromCompliance source severity compliance)
    (fromEnforcement source severity enforcement)

section Rows

variable {severity source : Option String} {compliance : List CheckResult}
  {enforcement : List DatedResult} {v : UnifiedViolation}

theorem nodup_flatMap_rows {ρ : Type} {key : ρ → String} {rows : ρ → List UnifiedViolation}
    {results : List ρ} (hkeys : (results.map key).Nodup)
    (hrow : ∀ r, ∀ v ∈ rows r, v.controlId = key r) (hrows : ∀ r, (rows r).Nodup) :
    (results.flatMap rows).Nodup := by
  refine List.nodup_flatMap.mpr ⟨fun r _ => hrows r, (List.pairwise_map.mp hkeys).imp ?_⟩
  intro r r' hne v hv hv'
  exact hne ((hrow r v hv).symm.trans (hrow r' v hv'))

theorem nodup_of_places {rows : List UnifiedViolation} {n : Nat}
    (h : rows.map UnifiedViolation.place = List.range' 0 n) : rows.Nodup :=
  List.Nodup.of_map _ (h ▸ List.nodup_range')

theorem nodup_complianceViolations : (complianceViolations severity compliance).Nodup := by
  have hkeys : ((latestResults none compliance).map CheckResult.controlId).Nodup := by
    rw [latestResults]
    exact nodup_keys_latest
  refine nodup_flatMap_rows
    (hkeys.sublist ((List.filter_sublist.trans List.filter_sublist).map _)) ?_ fun r => ?_
  · intro r v hv
    obtain ⟨p, -, rfl⟩ := List.mem_map.mp hv
    rfl
  · have hplaces : r.unified.map UnifiedViolation.place = List.range' 0 r.violations.length := by
      rw [CheckResult.unified, List.map_map, ← List.zipIdx_map_snd]
      rfl
    exact nodup_of_places hplaces

theorem nodup_enforcementViolations : (enforcementViolations severity enforcement).Nodup := by
  have hkeys : ((latest (fun r : DatedResult => r.ruleId) enforcement).map
      fun r => r.ruleId).Nodup := nodup_keys_latest
  refine nodup_flatMap_rows
    (hkeys.sublist ((List.filter_sublist.trans List.filter_sublist).map _)) ?_ fun r => ?_
  · intro r v hv
    obtain ⟨p, -, rfl⟩ := List.mem_map.mp hv
    rfl
  · have hplaces : r.unified.map UnifiedViolation.place = List.range' 0 r.violations.length := by
      rw [DatedResult.unified, List.map_map, ← List.zipIdx_map_snd]
      rfl
    exact nodup_of_places hplaces

theorem of_mem_complianceViolations (h : v ∈ complianceViolations severity compliance) :
    v.source = .compliance ∧ ∃ s : ControlSeverity, v.severity = s.value := by
  obtain ⟨r, -, hv⟩ := List.mem_flatMap.mp h
  obtain ⟨p, -, rfl⟩ := List.mem_map.mp hv
  exact ⟨rfl, r.severity, rfl⟩

theorem of_mem_enforcementViolations (h : v ∈ enforcementViolations severity enforcement) :
    v.source = .enforcement ∧ ∃ s : ControlSeverity, v.severity = s.value := by
  obtain ⟨r, -, hv⟩ := List.mem_flatMap.mp h
  obtain ⟨p, -, rfl⟩ := List.mem_map.mp hv
  refine ⟨rfl, ?_⟩
  cases r.severity with
  | critical => exact ⟨.critical, rfl⟩
  | high => exact ⟨.high, rfl⟩
  | medium => exact ⟨.medium, rfl⟩
  | low => exact ⟨.low, rfl⟩

theorem of_mem_fromCompliance (h : v ∈ fromCompliance source severity compliance) :
    v.source = .compliance ∧ ∃ s : ControlSeverity, v.severity = s.value := by
  unfold fromCompliance at h
  split at h
  · exact of_mem_complianceViolations h
  · cases h

theorem of_mem_fromEnforcement (h : v ∈ fromEnforcement source severity enforcement) :
    v.source = .enforcement ∧ ∃ s : ControlSeverity, v.severity = s.value := by
  unfold fromEnforcement at h
  split at h
  · exact of_mem_enforcementViolations h
  · cases h

theorem nodup_fetched (store : StoreOrder) :
    (store.sort (fromCompliance source severity compliance) ++
      store.sort (fromEnforcement source severity enforcement)).Nodup := by
  have hcompliance : (fromCompliance source severity compliance).Nodup := by
    unfold fromCompliance
    split
    · exact nodup_complianceViolations
    · exact List.nodup_nil
  have henforcement : (fromEnforcement source severity enforcement).Nodup := by
    unfold fromEnforcement
    split
    · exact nodup_enforcementViolations
    · exact List.nodup_nil
  refine ((store.perm _).nodup_iff.mpr hcompliance).append
    ((store.perm _).nodup_iff.mpr henforcement) ?_
  intro v hv hv'
  have hsource := (of_mem_fromCompliance ((store.perm _).mem_iff.mp hv)).1
  rw [(of_mem_fromEnforcement ((store.perm _).mem_iff.mp hv')).1] at hsource
  cases hsource

theorem severity_of_priority {s s' : ControlSeverity} (h : priority s.value = priority s'.value) :
    s = s' := by
  revert h
  cases s <;> cases s' <;> decide

end Rows

section Pages

variable {store : StoreOrder} {compliance : List CheckResult} {enforcement : List DatedResult}
  {source severity : Option String} {pageSize : PageSize} {a b v : UnifiedViolation}

def fetchedRows (store : StoreOrder) (compliance : List CheckResult)
    (enforcement : List DatedResult) (source severity : Option String) : List UnifiedViolation :=
  store.sort (fromCompliance source severity compliance) ++
    store.sort (fromEnforcement source severity enforcement)

theorem perm_fetchedRows :
    (fetchedRows store compliance enforcement source severity).Perm
      (fromCompliance source severity compliance ++ fromEnforcement source severity enforcement) :=
  (store.perm _).append (store.perm _)

theorem allPages_eq :
    allPages store compliance enforcement source severity pageSize =
      mergedPages sortKey pageSize.size maxUnifiedFetch
        (store.sort (fromCompliance source severity compliance))
        (store.sort (fromEnforcement source severity enforcement)) := by
  unfold allPages mergedPages
  rw [(store.perm _).length_eq, (store.perm _).length_eq]
  rfl

theorem matching_eq (h : source = some "all" →
      matching source severity compliance enforcement = []) :
    matching source severity compliance enforcement =
      fromCompliance source severity compliance ++
        fromEnforcement source severity enforcement := by
  by_cases hall : source = some "all"
  · rw [h hall, hall]
    rfl
  · unfold matching fromCompliance fromEnforcement
    simp only [List.mem_cons, hall, false_or]

theorem severity_of_mem_fetchedRows
    (h : v ∈ fetchedRows store compliance enforcement source severity) :
    ∃ s : ControlSeverity, v.severity = s.value := by
  rcases List.mem_append.mp (perm_fetchedRows.mem_iff.mp h) with hc | he
  · exact (of_mem_fromCompliance hc).2
  · exact (of_mem_fromEnforcement he).2

theorem severity_eq_of_priority (ha : a ∈ fetchedRows store compliance enforcement source severity)
    (hb : b ∈ fetchedRows store compliance enforcement source severity)
    (h : a.priority = b.priority) : a.severity = b.severity := by
  obtain ⟨s, hs⟩ := severity_of_mem_fetchedRows ha
  obtain ⟨s', hs'⟩ := severity_of_mem_fetchedRows hb
  unfold UnifiedViolation.priority at h
  rw [hs, hs'] at h ⊢
  rw [severity_of_priority h]

section OneDate

variable (hdates : ∀ a ∈ fetchedRows store compliance enforcement source severity,
  ∀ b ∈ fetchedRows store compliance enforcement source severity, a.severity = b.severity →
    a.checkedAt = b.checkedAt)

include hdates

theorem sortKey_eq_iff (ha : a ∈ fetchedRows store compliance enforcement source severity)
    (hb : b ∈ fetchedRows store compliance enforcement source severity) :
    sortKey a = sortKey b ↔ a.priority = b.priority := by
  constructor
  · intro h
    exact congrArg (fun k => (ofLex k).1) h
  · intro h
    unfold sortKey
    rw [h, hdates a ha b hb (severity_eq_of_priority ha hb h)]

theorem sortKey_lt_iff (ha : a ∈ fetchedRows store compliance enforcement source severity)
    (hb : b ∈ fetchedRows store compliance enforcement source severity) :
    sortKey a < sortKey b ↔ a.priority < b.priority := by
  unfold sortKey
  rw [Prod.Lex.toLex_lt_toLex]
  constructor
  · intro h
    rcases h with hlt | ⟨heq, hlt⟩
    · exact hlt
    · have hsame := hdates a ha b hb (severity_eq_of_priority ha hb heq)
      change a.checkedAt < b.checkedAt at hlt
      omega
  · exact Or.inl

theorem rankOf_sortKey {i : Nat}
    (hv : v ∈ fetchedRows store compliance enforcement source severity) :
    rankOf sortKey (fetchedRows store compliance enforcement source severity) i v =
      rankOf UnifiedViolation.priority
        (fetchedRows store compliance enforcement source severity) i v := by
  unfold rankOf
  congr 1
  · refine List.countP_congr fun a ha => ?_
    rw [decide_eq_true_iff, decide_eq_true_iff]
    exact sortKey_lt_iff hdates ha hv
  · refine List.countP_congr fun a ha => ?_
    rw [decide_eq_true_iff, decide_eq_true_iff]
    exact sortKey_eq_iff hdates (List.mem_of_mem_take ha) hv

theorem taken_sortKey_iff {start : Nat} {l : List UnifiedViolation}
    (hl : l ⊆ fetchedRows store compliance enforcement source severity) :
    Taken sortKey pageSize.size maxUnifiedFetch start
        (fetchedRows store compliance enforcement source severity) l ↔
      Taken UnifiedViolation.priority pageSize.size maxUnifiedFetch start
        (fetchedRows store compliance enforcement source severity) l := by
  refine forall₃_congr fun i v hget => ?_
  rw [rankOf_sortKey hdates (hl (List.mem_of_getElem? hget))]

theorem reached_iff :
    (allPages store compliance enforcement source severity pageSize).Perm
        (fetchedRows store compliance enforcement source severity) ↔
      Reached store pageSize (fromCompliance source severity compliance)
        (fromEnforcement source severity enforcement) := by
  rw [allPages_eq]
  refine (mergedPages_perm_iff pageSize.positive (nodup_fetched store)).trans (and_congr ?_ ?_)
  · exact taken_sortKey_iff hdates (List.subset_append_left ..)
  · exact taken_sortKey_iff hdates (List.subset_append_right ..)

end OneDate

theorem allPages_all (h : source = some "all") :
    allPages store compliance enforcement source severity pageSize = [] := by
  have hcompliance : fromCompliance source severity compliance = [] := by
    rw [h]
    exact if_neg (by decide)
  have henforcement : fromEnforcement source severity enforcement = [] := by
    rw [h]
    exact if_neg (by decide)
  have hcount : pageCount pageSize.size 0 = 0 := by
    have hpositive := pageSize.positive
    exact Nat.div_eq_of_lt (by omega)
  unfold allPages listUnifiedViolations
  rw [hcompliance, henforcement]
  simp only [List.length_nil, Nat.add_zero, hcount]
  rfl

theorem pairwise_allPages
    (h : (allPages store compliance enforcement source severity pageSize).Perm
      (fetchedRows store compliance enforcement source severity)) :
    (allPages store compliance enforcement source severity pageSize).Pairwise
      fun a b => sortKey a ≤ sortKey b := by
  rw [allPages_eq] at h ⊢
  rw [mergedPages_eq pageSize.positive (nodup_fetched store) h]
  exact pairwise_sortBy

/-- Violations that are sorted by their dates both ways have one date. -/
theorem checkedAt_eq_of_pairwise {l : List UnifiedViolation}
    (hkeys : l.Pairwise fun a b => sortKey a ≤ sortKey b) (hordered : l.Pairwise Precedes)
    (ha : a ∈ l) (hb : b ∈ l) (h : a.priority = b.priority) : a.checkedAt = b.checkedAt := by
  have : Std.Symm fun a b : UnifiedViolation =>
      a.priority = b.priority → a.checkedAt = b.checkedAt := ⟨fun _ _ h heq => (h heq.symm).symm⟩
  have hsame : l.Pairwise fun a b => a.priority = b.priority → a.checkedAt = b.checkedAt := by
    refine (hkeys.and hordered).imp fun {a b} ⟨hkey, hprecedes⟩ heq => ?_
    rw [sortKey, sortKey, Prod.Lex.toLex_le_toLex] at hkey
    unfold Precedes at hprecedes
    rcases hkey with hlt | ⟨-, hle⟩
    · exact absurd heq hlt.ne
    · rcases hprecedes with hlt | ⟨-, hge⟩
      · exact absurd heq hlt.ne
      · exact le_antisymm hle hge
  exact hsame.forall_of_forall (fun _ _ _ => rfl) ha hb h

end Pages

theorem dates_of_paginates {store : StoreOrder} {compliance : List CheckResult}
    {enforcement : List DatedResult} {source severity : Option String} {pageSize : PageSize}
    (h : Paginates store compliance enforcement source severity pageSize) :
    ∀ a ∈ matching source severity compliance enforcement,
      ∀ b ∈ matching source severity compliance enforcement, a.severity = b.severity →
        a.checkedAt = b.checkedAt := by
  have hall : source = some "all" → matching source severity compliance enforcement = [] := by
    intro hsource
    have hperm := h.perm
    rw [allPages_all hsource] at hperm
    exact List.nil_perm.mp hperm
  have hshown : (allPages store compliance enforcement source severity pageSize).Perm
      (fetchedRows store compliance enforcement source severity) :=
    h.perm.trans (matching_eq hall ▸ perm_fetchedRows.symm)
  intro a ha b hb heq
  exact checkedAt_eq_of_pairwise (pairwise_allPages hshown) h.ordered (h.perm.mem_iff.mpr ha)
    (h.perm.mem_iff.mpr hb) (congrArg priority heq)

/-- For all stored results, filters and page sizes, the pages show each violation that matches
once, by severity and the last date first, if and only if the violations of one severity have
one date, each is fetched for the page on which it stands, and the filter is not `all` or none
matches. -/
theorem paginates_iff (store : StoreOrder) (compliance : List CheckResult)
    (enforcement : List DatedResult) (source severity : Option String) (pageSize : PageSize) :
    Paginates store compliance enforcement source severity pageSize ↔
      Favourable store compliance enforcement source severity pageSize := by
  let rows := fetchedRows store compliance enforcement source severity
  let shown := allPages store compliance enforcement source severity pageSize
  constructor
  · intro h
    have hall : source = some "all" → matching source severity compliance enforcement = [] := by
      intro hsource
      have hempty : shown = [] := allPages_all hsource
      exact List.nil_perm.mp (hempty ▸ h.perm)
    have hmatching := matching_eq hall
    have hrows : rows.Perm (matching source severity compliance enforcement) :=
      hmatching ▸ perm_fetchedRows
    have hshown : shown.Perm rows := h.perm.trans hrows.symm
    have hdates : ∀ a ∈ rows, ∀ b ∈ rows, a.severity = b.severity → a.checkedAt = b.checkedAt :=
      fun a ha b hb => dates_of_paginates h a (hrows.mem_iff.mp ha) b (hrows.mem_iff.mp hb)
    exact ⟨hall, dates_of_paginates h, (reached_iff hdates).mp hshown⟩
  · intro h
    have hmatching := matching_eq h.all
    have hrows : rows.Perm (matching source severity compliance enforcement) :=
      hmatching ▸ perm_fetchedRows
    have hdates : ∀ a ∈ rows, ∀ b ∈ rows, a.severity = b.severity → a.checkedAt = b.checkedAt :=
      fun a ha b hb => h.dates a (hrows.mem_iff.mp ha) b (hrows.mem_iff.mp hb)
    have hshown : shown.Perm rows := (reached_iff hdates).mpr h.reached
    refine ⟨hshown.trans hrows, ?_, fun page => ?_⟩
    · refine (pairwise_allPages hshown).imp_of_mem fun {a b} ha hb hkey => ?_
      rw [sortKey, sortKey, Prod.Lex.toLex_le_toLex] at hkey
      rcases hkey with hlt | ⟨heq, -⟩
      · exact Or.inl hlt
      · have hsame := hdates a (hshown.mem_iff.mp ha) b (hshown.mem_iff.mp hb)
          (severity_eq_of_priority (hshown.mem_iff.mp ha) (hshown.mem_iff.mp hb) heq)
        exact Or.inr ⟨heq, hsame.ge⟩
    · rw [hshown.length_eq, perm_fetchedRows.length_eq, List.length_append]
      rfl

def plainStore : StoreOrder where
  sort := sortBy fun v => (toLex (v.severity, -v.checkedAt) : String ×ₗ Int)
  perm rows := perm_sortBy _ rows
  sorted rows := by
    refine pairwise_sortBy.imp fun {a b} h => ?_
    rw [Prod.Lex.toLex_le_toLex] at h
    exact h.imp id fun ⟨heq, hle⟩ => ⟨heq, neg_le_neg_iff.mp hle⟩

def failedAt (controlId : String) (checkedAt : Int) : CheckResult where
  status := .failed
  totalEndpoints := 1
  compliantEndpoints := 0
  nonCompliantEndpoints := 1
  violations := [{ agentId := "7", agentHostname := "pc-7", violationDetail := "Missing: Zoom" }]
  evidenceSummary := "1 of 1 endpoints"
  controlId := controlId
  frameworkId := "soc2"
  severity := .high
  category := "Access"
  controlName := "Required client"
  checkedAt := checkedAt

/-- Of two violations the older one is shown first. -/
theorem older_violation_is_first :
    ¬∀ (store : StoreOrder) (compliance : List CheckResult) (enforcement : List DatedResult)
      (source severity : Option String) (pageSize : PageSize),
      Paginates store compliance enforcement source severity pageSize := by
  intro hall
  have hdates := dates_of_paginates (hall plainStore
    [failedAt "SOC2-CC6.1" 1, failedAt "SOC2-CC6.8" 2] [] none none ⟨50, by decide, by decide⟩)
  have holder : (failedAt "SOC2-CC6.1" 1).unified ⊆ matching none none
      [failedAt "SOC2-CC6.1" 1, failedAt "SOC2-CC6.8" 2] [] := by decide +kernel
  have hlater : (failedAt "SOC2-CC6.8" 2).unified ⊆ matching none none
      [failedAt "SOC2-CC6.1" 1, failedAt "SOC2-CC6.8" 2] [] := by decide +kernel
  have hsame := hdates _ (holder List.mem_cons_self) _ (hlater List.mem_cons_self) rfl
  exact absurd hsame (by decide)

end Sentora.Compliance
