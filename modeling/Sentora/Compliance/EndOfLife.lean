import Sentora.Compliance.Balance

/-!
# Software at the end of its life

Which agents `eol_software` flags, against those with an active installation whose cycle has ended.

The check looks at the first stored record of each agent and app, which may be a deactivated one,
and at no other version that the agent has.
-/

namespace Sentora.Compliance

open Lib

section Mapped

variable (py : Python) (now : Int) (db : Database) (parameters : JsonDict) (excluded : List String)

/-- A summary of the app has a match that is used, and the cycles of its product are known. -/
def IsMapped (app : String) : Prop :=
  ∃ d ∈ db.appSummaries, d.normalizedName = app ∧ ∃ m, d.eolMatch = some m ∧
    (m.matchSource = .cpe ∨ m.matchSource = .manual) ∧ m.eolProductId ∉ excluded ∧
    (∃ least, mongoNumber (parameters.getD "min_match_confidence" defaultConfidence) = some least ∧
      py.le least (py.ofRat m.matchConfidence) = true) ∧
    ∃ cycles, (Eol.getAllProductsWithCycles db.eolProducts (py.today now)).lookup m.eolProductId =
      some cycles

theorem eolProductOf_isSome_iff (app : String) :
    (eolProductOf py now db parameters excluded app).isSome = true ↔
      IsMapped py now db parameters excluded app := by
  unfold eolProductOf mappedProduct
  rw [List.findSome?_isSome_iff]
  constructor
  · rintro ⟨d, hd, hsome⟩
    obtain ⟨hmem, hname⟩ := List.mem_filter.mp hd
    refine ⟨d, List.mem_reverse.mp hmem, beq_iff_eq.mp hname, ?_⟩
    cases hm : d.eolMatch with
    | none =>
      rw [hm] at hsome
      cases hsome
    | some m =>
      rw [hm, Option.bind_some] at hsome
      split at hsome
      · next hused =>
        rw [Bool.and_eq_true, Bool.and_eq_true] at hused
        obtain ⟨⟨hconfidence, hsource⟩, hexcluded⟩ := hused
        rw [Option.any_eq_true] at hconfidence
        refine ⟨m, rfl, by simpa using hsource, by simpa using hexcluded, hconfidence, ?_⟩
        rw [Option.isSome_map] at hsome
        exact Option.isSome_iff_exists.mp hsome
      · cases hsome
  · rintro ⟨d, hd, hname, m, hm, hsource, hexcluded, ⟨least, hleast, hle⟩, cycles, hcycles⟩
    refine ⟨d, List.mem_filter.mpr ⟨List.mem_reverse.mpr hd, beq_iff_eq.mpr hname⟩, ?_⟩
    rw [hm, Option.bind_some, if_pos, hcycles]
    · rfl
    · rw [hleast]
      simp [hle, hsource, hexcluded]

def Ended (r : AppDoc) : Prop :=
  ∃ product displayName cycles cycle,
    eolProductOf py now db parameters excluded r.normalizedName =
      some (product, displayName, cycles) ∧
    installedCycle py r.version cycles = some cycle ∧
    (cycle.isEol = true ∨
      truthy (parameters.getD "flag_security_only" (.bool true)) = true ∧
        cycle.isSecurityOnly = true)

def HasEnded (agentId : String) : Prop :=
  ∃ r ∈ db.installedApps, r.agentId = agentId ∧ r.isActive = true ∧
    Ended py now db parameters excluded r

/-- No record of the agent and app is stored before it. -/
def IsFirst (db : Database) (r : AppDoc) : Prop :=
  db.installedApps.find? (fun s => (s.agentId, s.normalizedName) = (r.agentId, r.normalizedName)) =
    some r

def FirstEnded (agentId : String) : Prop :=
  ∃ r, IsFirst db r ∧ r.agentId = agentId ∧ Ended py now db parameters excluded r

end Mapped

/-- `eol_software` returns, and finds the agents in scope with an active record that has ended. -/
def FlagsEnded (py : Python) (now : Int) (db : Database) (parameters : JsonDict)
    (scope : ScopeFilter) : Prop :=
  ∃ excluded o, excludedProducts parameters = .ok excluded ∧
    eolSoftware py now db parameters scope = .ok o ∧
    Cut (eolViolations py now db parameters scope excluded) o ∧
    ∀ id, id ∈ (eolViolations py now db parameters scope excluded).map
        ComplianceViolation.agentId ↔
      id ∈ agentIdsIn db scope ∧ HasEnded py now db parameters excluded id

section EndOfLife

variable {py : Python} {now : Int} {db : Database} {parameters : JsonDict} {scope : ScopeFilter}
  {excluded : List String} {r : AppDoc} {id : String}

theorem Ended.mapped (h : Ended py now db parameters excluded r) :
    (eolProductOf py now db parameters excluded r.normalizedName).isSome = true := by
  obtain ⟨product, displayName, cycles, -, hmapped, -⟩ := h
  rw [hmapped]
  rfl

theorem evaluated_isSome_iff :
    (evaluated py now db parameters excluded r).isSome = true ↔
      Ended py now db parameters excluded r := by
  unfold evaluated evaluateInstall
  constructor
  · intro h
    obtain ⟨e, he⟩ := Option.isSome_iff_exists.mp h
    obtain ⟨⟨product, displayName, cycles⟩, hmapped, he⟩ := Option.bind_eq_some_iff.mp he
    obtain ⟨cycle, hcycle, he⟩ := Option.bind_eq_some_iff.mp he
    refine ⟨product, displayName, cycles, cycle, hmapped, hcycle, ?_⟩
    dsimp only at he
    split at he
    · next heol => exact .inl heol
    · split at he
      · next hsecurity => exact .inr (Bool.and_eq_true_iff.mp hsecurity)
      · cases he
  · rintro ⟨product, displayName, cycles, cycle, hmapped, hcycle, hended⟩
    simp only [hmapped, hcycle, Option.bind_eq_bind, Option.bind_some]
    rcases hended with heol | hsecurity
    · rw [if_pos heol]
      rfl
    · rw [if_pos (Bool.and_eq_true_iff.mpr hsecurity)]
      split
      · rfl
      · rfl

theorem mem_firstInstalls :
    r ∈ firstInstalls py now db parameters scope excluded ↔ IsFirst db r ∧
      r.agentId ∈ agentIdsIn db scope ∧
      (eolProductOf py now db parameters excluded r.normalizedName).isSome = true := by
  have hfind : r.agentId ∈ agentIdsIn db scope →
      (eolProductOf py now db parameters excluded r.normalizedName).isSome = true →
      ((installsIn db scope).filter fun app =>
        (eolProductOf py now db parameters excluded app.normalizedName).isSome).find? (fun s =>
          (s.agentId, s.normalizedName) = (r.agentId, r.normalizedName)) =
      db.installedApps.find? fun s =>
        (s.agentId, s.normalizedName) = (r.agentId, r.normalizedName) := by
    intro hin hmapped
    rw [List.find?_filter, installsIn, List.find?_filter]
    congr 1
    funext s
    rw [Bool.eq_iff_iff]
    simp only [decide_eq_true_iff]
    constructor
    · rintro ⟨-, -, hkey⟩
      exact hkey
    · intro hkey
      obtain ⟨hid, hname⟩ := Prod.mk.inj hkey
      rw [hid, hname]
      exact ⟨List.contains_iff_mem.mpr hin, hmapped, rfl⟩
  constructor
  · intro h
    obtain ⟨hinstall, hmapped⟩ := List.mem_filter.mp (mem_of_mem_firstOfEach h)
    have hin := List.contains_iff_mem.mp (List.mem_filter.mp hinstall).2
    have hfirst := mem_firstOfEach_iff.mp h
    rw [hfind hin hmapped] at hfirst
    exact ⟨hfirst, hin, hmapped⟩
  · rintro ⟨hfirst, hin, hmapped⟩
    refine mem_firstOfEach_iff.mpr ?_
    rw [hfind hin hmapped]
    exact hfirst

theorem mem_eolIds :
    id ∈ (eolViolations py now db parameters scope excluded).map ComplianceViolation.agentId ↔
      id ∈ agentIdsIn db scope ∧ FirstEnded py now db parameters excluded id := by
  rw [eolIds, List.mem_map]
  constructor
  · rintro ⟨r, hr, rfl⟩
    obtain ⟨hfirst, hended⟩ := List.mem_filter.mp hr
    obtain ⟨hfirst, hin, -⟩ := mem_firstInstalls.mp hfirst
    exact ⟨hin, r, hfirst, rfl, evaluated_isSome_iff.mp hended⟩
  · rintro ⟨hin, r, hfirst, rfl, hended⟩
    exact ⟨r, List.mem_filter.mpr ⟨mem_firstInstalls.mpr ⟨hfirst, hin, hended.mapped⟩,
      evaluated_isSome_iff.mpr hended⟩, rfl⟩

theorem eolSoftware_cut (hexcluded : excludedProducts parameters = .ok excluded) :
    ∃ o, eolSoftware py now db parameters scope = .ok o ∧
      Cut (eolViolations py now db parameters scope excluded) o := by
  refine @exists_result .eolSoftware py now db parameters scope _ ⟨excluded, hexcluded⟩
    (fun hnone o h => ?_) fun hsome => ?_
  · have hnothing : eolViolations py now db parameters scope excluded = [] := by
      refine List.eq_nil_iff_forall_not_mem.mpr fun v hv => ?_
      have hin := (mem_eolIds.mp (List.mem_map_of_mem hv)).1
      rw [agentIdsIn, hnone] at hin
      exact absurd hin List.not_mem_nil
    rw [hnothing]
    exact h.cut
  · obtain ⟨o, ho, hcut, -⟩ :=
      @eolSoftware_counts py now db parameters scope excluded hexcluded hsome
    exact ⟨o, ho, hcut⟩

theorem FlagsEnded.exact (h : FlagsEnded py now db parameters scope) :
    ∃ excluded, excludedProducts parameters = .ok excluded ∧ ∀ agent ∈ agentsIn db scope,
      HasEnded py now db parameters excluded agent.sourceId ↔
        FirstEnded py now db parameters excluded agent.sourceId := by
  obtain ⟨excluded, o, hexcluded, -, -, hids⟩ := h
  refine ⟨excluded, hexcluded, fun agent hagent => ?_⟩
  have hin : agent.sourceId ∈ agentIdsIn db scope := List.mem_map_of_mem hagent
  have hid := mem_eolIds.symm.trans (hids agent.sourceId)
  constructor
  · exact fun hhas => (hid.mpr ⟨hin, hhas⟩).2
  · exact fun hfirst => (hid.mp ⟨hin, hfirst⟩).2

end EndOfLife

section Kinds

variable (py : Python) (now : Int) (db : Database) (parameters : JsonDict) (excluded : List String)
  (agentId : String)

/-- An active record has ended, and no first record has. -/
def Overlooked : Prop :=
  HasEnded py now db parameters excluded agentId ∧ ¬FirstEnded py now db parameters excluded agentId

/-- A first record has ended, and no active one has. -/
def FlaggedForGone : Prop :=
  FirstEnded py now db parameters excluded agentId ∧ ¬HasEnded py now db parameters excluded agentId

variable {py now db parameters excluded agentId}

theorem Overlooked.behind (h : Overlooked py now db parameters excluded agentId) :
    ∃ r s, IsFirst db s ∧ s.agentId = r.agentId ∧ s.normalizedName = r.normalizedName ∧
      r.agentId = agentId ∧ r.isActive = true ∧ Ended py now db parameters excluded r ∧
      ¬Ended py now db parameters excluded s := by
  obtain ⟨⟨r, hr, hid, hactive, hended⟩, hnone⟩ := h
  have hfound : (db.installedApps.find? fun s =>
      (s.agentId, s.normalizedName) = (r.agentId, r.normalizedName)).isSome = true :=
    List.find?_isSome.mpr ⟨r, hr, decide_eq_true rfl⟩
  obtain ⟨s, hs⟩ := Option.isSome_iff_exists.mp hfound
  have hkey := List.find?_some hs
  obtain ⟨hagent, hname⟩ := Prod.mk.inj (of_decide_eq_true hkey)
  have hfirst : IsFirst db s := by
    unfold IsFirst
    rw [hagent, hname]
    exact hs
  exact ⟨r, s, hfirst, hagent, hname, hid, hactive, hended, fun hended' =>
    hnone ⟨s, hfirst, hagent.trans hid, hended'⟩⟩

theorem FlaggedForGone.deactivated (h : FlaggedForGone py now db parameters excluded agentId) :
    ∃ r, IsFirst db r ∧ r.agentId = agentId ∧ r.isActive = false ∧
      Ended py now db parameters excluded r := by
  obtain ⟨⟨r, hfirst, hid, hended⟩, hnone⟩ := h
  refine ⟨r, hfirst, hid, Bool.eq_false_iff.mpr fun hactive => ?_, hended⟩
  exact hnone ⟨r, List.mem_of_find?_eq_some hfirst, hid, hactive, hended⟩

end Kinds

/-- The installations that have ended are flagged just where none is overlooked and none is gone. -/
theorem flagsEnded_iff (py : Python) (now : Int) (db : Database) (parameters : JsonDict)
    (scope : ScopeFilter) :
    FlagsEnded py now db parameters scope ↔
      ∃ excluded, excludedProducts parameters = .ok excluded ∧ ∀ agent ∈ agentsIn db scope,
        ¬Overlooked py now db parameters excluded agent.sourceId ∧
          ¬FlaggedForGone py now db parameters excluded agent.sourceId := by
  constructor
  · intro h
    obtain ⟨excluded, hexcluded, hexact⟩ := h.exact
    exact ⟨excluded, hexcluded, fun agent hagent =>
      ⟨fun hover => hover.2 ((hexact agent hagent).mp hover.1), fun hgone =>
        hgone.2 ((hexact agent hagent).mpr hgone.1)⟩⟩
  · rintro ⟨excluded, hexcluded, h⟩
    obtain ⟨o, ho, hcut⟩ := @eolSoftware_cut py now db parameters scope excluded hexcluded
    refine ⟨excluded, o, hexcluded, ho, hcut, fun id => mem_eolIds.trans ?_⟩
    refine and_congr_right fun hin => ?_
    obtain ⟨agent, hagent, rfl⟩ := List.mem_map.mp hin
    exact ⟨fun hfirst => by_contra fun hnone => (h agent hagent).2 ⟨hfirst, hnone⟩, fun hhas =>
      by_contra fun hnone => (h agent hagent).1 ⟨hhas, hnone⟩⟩

def pythonInstall (version : String) : AppDoc where
  agentId := "laptop"
  normalizedName := "python"
  version := some version

def twoVersions : Database where
  agents := [{ sourceId := "laptop" }]
  installedApps := [pythonInstall "3.12.4", pythonInstall "2.7.18"]
  appSummaries := [{
    normalizedName := "python", displayName := "Python", publisher := none, agentCount := 1
    category := none, categoryDisplay := none, riskLevel := none, versions := []
    riskDistribution := [], groupBreakdown := [], siteBreakdown := [], groupCount := 0
    siteCount := 0
    eolMatch := some
      { eolProductId := "python", matchSource := .cpe, matchConfidence := 9 / 10 } }]
  eolProducts := [{
    productId := "python"
    cycles := [{ cycle := "3.12" }, { cycle := "2.7", eolDate := some 18262 }] }]

/-- It is overlooked in 2025. -/
theorem second_version_overlooked :
    ¬∀ (py : Python) (now : Int) (db : Database) (parameters : JsonDict) (scope : ScopeFilter),
      FlagsEnded py now db parameters scope := by
  intro h
  obtain ⟨excluded, hexcluded, hexact⟩ :=
    (h clockPython 1735689600000 twoVersions .empty .all).exact
  obtain rfl : [] = excluded := Except.ok.inj hexcluded
  have hsecond : (evaluated clockPython 1735689600000 twoVersions .empty []
      (pythonInstall "2.7.18")).isSome = true := by decide +kernel
  have hfirst : (evaluated clockPython 1735689600000 twoVersions .empty []
      (pythonInstall "3.12.4")).isSome = false := by decide +kernel
  obtain ⟨r, hr, -, hended⟩ := (hexact { sourceId := "laptop" } List.mem_cons_self).mp
    ⟨pythonInstall "2.7.18", List.mem_cons_of_mem _ List.mem_cons_self, rfl, rfl,
      evaluated_isSome_iff.mp hsecond⟩
  rcases List.mem_cons.mp (List.mem_of_find?_eq_some hr) with rfl | hlast
  · rw [evaluated_isSome_iff.mpr hended] at hfirst
    cases hfirst
  · obtain rfl := List.mem_singleton.mp hlast
    have hother : twoVersions.installedApps.find? (fun s => (s.agentId, s.normalizedName) =
      ("laptop", "python")) = some (pythonInstall "3.12.4") := rfl
    exact absurd (Option.some.inj (hother.symm.trans hr)) (by decide)

end Sentora.Compliance
