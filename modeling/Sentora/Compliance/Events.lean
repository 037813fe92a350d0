import Sentora.Compliance.Service

/-!
# Events of compliance violations

Whether a violation that is resolved for a run was evaluated by it and is gone.

A run compares the failing ones of the latest results with its own failing results.  A violation
of a control that is disabled, that has no result, whose check fails, or that only warns now is
not among the latter, and is resolved.
-/

namespace Sentora.Compliance

open Lib

def Resolves (results : List CheckResult) (key : ViolationKey) : Prop :=
  ∃ r ∈ results, r.controlId = key.1 ∧ r.status ≠ .error ∧ key.2 ∉ agentIds r

variable {f : Frameworks}

/-- What the runs resolve is resolved. -/
def Truthful (digest : String → String) (py : Python) (w : World f) (requests : List Request) :
    Prop :=
  ∀ n frameworkId now fails, requests[n]? = some (.run frameworkId now fails) →
    let before := performs digest py w (requests.take n)
    let run := (triggerComplianceRun digest py frameworkId now fails before).2
    ∀ key ∈ run.resolvedViolations, Resolves run.results key

/-- A finding shows what became of a violation: the check has no error, and where it has the
violation still it fails. -/
def Shows (agentId : String) (o : Finding) : Prop :=
  o.status ≠ .error ∧
    (agentId ∈ o.violations.map ComplianceViolation.agentId → o.status = .failed)

/-- Each control with a stored violation in the scope of a run is active there, and its check
(that of the first control with its key) shows what became of the violation. -/
def Covers (digest : String → String) (py : Python) (frameworkId : Option String) (now : Int)
    (fails : ResolvedControl → Bool) (w : World f) : Prop :=
  ∀ key ∈ violationKeys (latestResults frameworkId w.results),
    ∃ c ∈ executable (activeControls frameworkId w), c.controlId = key.1 ∧
      ∃ o, executeOrFail py now w.database fails
        (primaryOf digest (activeControls frameworkId w) c) = some o ∧ Shows key.2 o.toFinding

def AllCover (digest : String → String) (py : Python) (w : World f) (requests : List Request) :
    Prop :=
  ∀ n frameworkId now fails, requests[n]? = some (.run frameworkId now fails) →
    Covers digest py frameworkId now fails (performs digest py w (requests.take n))

section Runs

variable {digest : String → String} {py : Python} {frameworkId : Option String} {now : Int}
  {fails : ResolvedControl → Bool} {w : World f} {key : ViolationKey}

theorem executes_executeOrFail (db : Database) : Executes (executeOrFail py now db fails) := by
  have hcheck := executes_executeCheck py now db
  constructor
  · intro c h
    unfold executeOrFail
    split
    · rw [Option.isSome_map]
      exact h
    · exact hcheck.total c h
  · intro c r h
    unfold executeOrFail at h
    split at h
    · obtain ⟨executor, -, rfl⟩ := Option.map_eq_some_iff.mp h
      exact ⟨rfl, rfl⟩
    · exact hcheck.own c r h

theorem mem_violationKeys {results : List CheckResult} :
    key ∈ violationKeys results ↔
      ∃ r ∈ results, r.status = .failed ∧ r.controlId = key.1 ∧ key.2 ∈ agentIds r := by
  unfold violationKeys
  rw [List.mem_toFinset, List.mem_flatMap]
  constructor
  · intro ⟨r, hr, hkey⟩
    obtain ⟨hmem, hfailed⟩ := List.mem_filter.mp hr
    obtain ⟨agentId, hagent, rfl⟩ := List.mem_map.mp hkey
    exact ⟨r, hmem, beq_iff_eq.mp hfailed, rfl, hagent⟩
  · intro ⟨r, hr, hfailed, hid, hagent⟩
    exact ⟨r, List.mem_filter.mpr ⟨hr, beq_iff_eq.mpr hfailed⟩,
      List.mem_map.mpr ⟨key.2, hagent, Prod.ext hid rfl⟩⟩

theorem mem_or_resolves_iff {results : List CheckResult} :
    (key ∈ violationKeys results ∨ Resolves results key) ↔
      ∃ r ∈ results, r.controlId = key.1 ∧ Shows key.2 r.toFinding := by
  rw [mem_violationKeys]
  constructor
  · intro h
    rcases h with ⟨r, hr, hfailed, hid, -⟩ | ⟨r, hr, hid, herror, hgone⟩
    · refine ⟨r, hr, hid, ?_, fun _ => hfailed⟩
      rw [hfailed]
      exact nofun
    · exact ⟨r, hr, hid, herror, fun hagent => absurd hagent hgone⟩
  · intro ⟨r, hr, hid, herror, hfailed⟩
    by_cases hagent : key.2 ∈ agentIds r
    · exact Or.inl ⟨r, hr, hfailed hagent, hid, hagent⟩
    · exact Or.inr ⟨r, hr, hid, herror, hagent⟩

theorem resolves_iff_covers :
    (∀ key ∈ (triggerComplianceRun digest py frameworkId now fails w).2.resolvedViolations,
        Resolves (triggerComplianceRun digest py frameworkId now fails w).2.results key) ↔
      Covers digest py frameworkId now fails w := by
  have hshown : ∀ key : ViolationKey,
      (key ∈ violationKeys (runResults digest py frameworkId now fails w) ∨
          Resolves (runResults digest py frameworkId now fails w) key) ↔
        ∃ c ∈ executable (activeControls frameworkId w), c.controlId = key.1 ∧
          ∃ o, executeOrFail py now w.database fails
            (primaryOf digest (activeControls frameworkId w) c) = some o ∧
              Shows key.2 o.toFinding := by
    intro key
    rw [mem_or_resolves_iff]
    exact exists_result_iff (executes_executeOrFail w.database)
  constructor
  · intro hall key hstored
    rw [← hshown]
    by_cases hcurrent : key ∈ violationKeys (runResults digest py frameworkId now fails w)
    · exact Or.inl hcurrent
    · exact Or.inr (hall key (Finset.mem_sdiff.mpr ⟨hstored, hcurrent⟩))
  · intro hcovers key hresolved
    obtain ⟨hstored, hcurrent⟩ := Finset.mem_sdiff.mp hresolved
    exact ((hshown key).mpr (hcovers key hstored)).resolve_left hcurrent

end Runs

/-- From a world without settings and results on, what the runs resolve is resolved if and only
if every run covers the violations that are stored in its scope. -/
theorem events_truthful_iff (digest : String → String) (py : Python) (f : Frameworks)
    (database : Database) (requests : List Request) :
    Truthful digest py (World.initial f database) requests ↔
      AllCover digest py (World.initial f database) requests := by
  constructor
  · intro h n frameworkId now fails hrun
    exact resolves_iff_covers.mp (h n frameworkId now fails hrun)
  · intro h n frameworkId now fails hrun
    exact resolves_iff_covers.mpr (h n frameworkId now fails hrun)

def zoomControl : ControlDefinition where
  id := "SOC2-CC6.8"
  frameworkId := "soc2"
  name := "Required client"
  category := "Access"
  severity := .high
  checkType := "required_app_check"
  parameters := ⟨[("required_apps", .arr [.str "Zoom"])], by decide⟩

def zoomFrameworks : Frameworks where
  registry := [("soc2", [zoomControl])]
  distinctFrameworks := by decide
  distinctControls := by decide

def disablingRequests : List Request :=
  [.setFrameworkEnabled "soc2" true, .run none 1 fun _ => false,
    .configureControl "SOC2-CC6.8" { enabled := some false }, .run none 2 fun _ => false]

theorem disabled_control_is_resolved :
    ¬∀ (digest : String → String) (py : Python) (f : Frameworks) (database : Database)
      (requests : List Request), Truthful digest py (World.initial f database) requests := by
  intro hall
  have hresolves := hall id plainPython zoomFrameworks bareDatabase disablingRequests 3 none 2
    (fun _ => false) rfl ("SOC2-CC6.8", "7") (by decide +kernel)
  have hnone : (triggerComplianceRun id plainPython none 2 (fun _ => false)
      (performs id plainPython (World.initial zoomFrameworks bareDatabase)
        (disablingRequests.take 3))).2.results = [] := by decide +kernel
  obtain ⟨r, hr, -⟩ := hresolves
  rw [hnone] at hr
  cases hr

end Sentora.Compliance
