import Sentora.Compliance.Checks
import Sentora.Eol.Decisions

/-!
# The software inventory export

`build_software_inventory` of `domains/export/service.py`, and whether its rows show the
lifecycles that the checks see.  The data of CPE names and the cache are left out.

A row shows a lifecycle from the fields of the stored match.  No service writes them: a stored
match has a product only, and its cycle is found from a version each time it is needed.
-/

namespace Sentora.Export

open Lib Agents Eol

structure EolInfo where
  productId : Option String
  cycle : Option String
  eolDate : Option Nat
  isEol : Bool
  isSecurityOnly : Bool
  supportEnd : Option Nat
deriving DecidableEq

structure SoftwareInventoryItem where
  appName : String
  appVersion : Option String
  publisher : Option String
  classification : Option String
  installCount : Nat
  agentCount : Nat
  eol : Option EolInfo
  taxonomyCategories : List String
deriving DecidableEq

structure ExportRequest where
  includeEol : Bool := true
  scopeGroups : List String := []
  scopeTags : List String := []
  classification : Option String := none
  page : Nat := 1
  pageSize : Nat := 1000

structure SoftwareInventory where
  totalAgents : Nat
  totalItems : Nat
  totalPages : Nat
  softwareInventory : List SoftwareInventoryItem
deriving DecidableEq

/-- The lifecycle of a stored match, with the defaults of the fields it does not have. -/
def eolInfo (m : EolMatchDoc) : EolInfo where
  productId := some m.eolProductId
  cycle := m.matchedCycle
  eolDate := m.eolDate
  isEol := m.isEol.getD false
  isSecurityOnly := m.isSecurityOnly.getD false
  supportEnd := m.supportEnd

def inventoryItem (includeEol : Bool) (d : AppSummary) : SoftwareInventoryItem :=
  let category := (d.categoryDisplay.filter (· ≠ "")).or d.category
  { appName := d.displayName
    appVersion := d.versions.head?.map NameCount.name
    publisher := d.publisher
    classification := category
    installCount := d.agentCount
    agentCount := d.agentCount
    eol := if includeEol then d.eolMatch.map eolInfo else none
    taxonomyCategories := (category.filter (· ≠ "")).toList }

def scopedAgents (q : ExportRequest) (agents : List Sync.AgentDoc) : List String :=
  (agents.filter fun agent =>
    (q.scopeGroups.isEmpty || q.scopeGroups.contains agent.groupName) &&
      q.scopeTags.all agent.tags.contains).map Sync.AgentDoc.sourceId

def selects (categoryMatches : String → String → Bool) (q : ExportRequest) (w : World)
    (d : AppSummary) : Bool :=
  (q.classification.filter (· ≠ "")).all (fun c => d.category.any (categoryMatches c)) &&
    (q.scopeGroups.isEmpty && q.scopeTags.isEmpty ||
      w.apps.any fun app =>
        (scopedAgents q w.agents).contains app.agentId && app.normalizedName == d.normalizedName)

/-- `build_software_inventory`, with the expression that a classification becomes. -/
def buildSoftwareInventory (categoryMatches : String → String → Bool) (q : ExportRequest)
    (w : World) : SoftwareInventory :=
  if !(q.scopeGroups.isEmpty && q.scopeTags.isEmpty) && (scopedAgents q w.agents).isEmpty then
    { totalAgents := 0, totalItems := 0, totalPages := 0, softwareInventory := [] }
  else
    let found := w.summaries.docs.filter (selects categoryMatches q w)
    let page := ((sortBy (fun d => OrderDual.toDual d.agentCount) found).drop
      ((q.page - 1) * q.pageSize)).take q.pageSize
    { totalAgents := w.agents.length
      totalItems := found.length
      totalPages := max 1 ((found.length + q.pageSize - 1) / q.pageSize)
      softwareInventory := page.map (inventoryItem q.includeEol) }

def ShowsEnded (item : SoftwareInventoryItem) (c : EOLCycle) : Prop :=
  ∃ e, item.eol = some e ∧ e.isEol = true ∧ e.cycle = some c.cycle ∧ e.eolDate = c.eolDate

def HasEnded (isDecimal : Char → Bool) (products : Products) (today : Nat)
    (item : SoftwareInventoryItem) (c : EOLCycle) : Prop :=
  ∃ id cycles version, item.eol.bind EolInfo.productId = some id ∧
    products.lookup id = some cycles ∧ item.appVersion = some version ∧
    extractCycleMatch isDecimal version cycles = some c ∧
    ∃ source confidence m,
      computeEolMatch isDecimal id version cycles source confidence today = some m ∧
        m.isEol = true

def CheckFindsEnded (py : Compliance.Python) (products : Products) (item : SoftwareInventoryItem)
    (c : EOLCycle) : Prop :=
  ∃ id cycles installed, item.eol.bind EolInfo.productId = some id ∧
    products.lookup id = some cycles ∧ item.appVersion = some (orUnknown installed) ∧
    Compliance.installedCycle py installed cycles = some c ∧ c.isEol = true

/-- The row, the lifecycle of its version, and the check agree. -/
structure Agrees (py : Compliance.Python) (products : Products) (today : Nat)
    (item : SoftwareInventoryItem) : Prop where
  shown : ∀ c, ShowsEnded item c ↔ HasEnded py.isDecimal products today item c
  checked : ∀ c, CheckFindsEnded py products item c ↔ HasEnded py.isDecimal products today item c

section Agreement

variable {t : Taxonomy.CaseText} {py : Compliance.Python} {docs : List ProductDoc} {today : Nat}
  {w : World} {item : SoftwareInventoryItem} {c : EOLCycle}

/-- The stored matches have a product only. -/
def Bare (w : World) : Prop := ∀ name m, w.stored name = some m → m.isEol = none

theorem bare_perform (h : Bare w) (request : Request) : Bare (perform t py.toPython w request) := by
  intro name m hm
  cases request with
  | confirm normalizedName eolProductId =>
    by_cases hproduct : w.product normalizedName = some eolProductId
    · rw [perform, stored_confirmMatch hproduct] at hm
      split at hm
      · obtain ⟨old, hold, rfl⟩ := Option.map_eq_some_iff.mp hm
        exact h name old hold
      · exact h name m hm
    · rw [perform, confirmMatch, if_neg hproduct] at hm
      exact h name m hm
  | dismiss normalizedName =>
    rw [perform, stored_dismissMatch] at hm
    split at hm
    · cases hm
    · exact h name m hm
  | sync apps agents => exact h name m hm
  | rebuild entries =>
    by_cases hwrites : Rewrites t entries w.apps
    · rw [perform, stored_rebuild hwrites] at hm
      cases hm
    · rw [perform, rebuild_of_not hwrites] at hm
      exact h name m hm
  | matching data deltaOnly changedAppNames =>
    rw [perform, stored_runEolMatching] at hm
    obtain ⟨d, hd, hm⟩ := Option.bind_eq_some_iff.mp hm
    split at hm
    · exact (of_matchApp hm).2.1
    · refine h name m ?_
      rw [World.stored, hd]
      exact hm

theorem bare_performs (h : Bare w) (requests : List Request) :
    Bare (performs t py.toPython w requests) := by
  induction requests generalizing w with
  | nil => exact h
  | cons request rest ih => exact ih (bare_perform h request)

theorem exists_summary_of_mem {categoryMatches : String → String → Bool} {q : ExportRequest}
    (h : item ∈ (buildSoftwareInventory categoryMatches q w).softwareInventory) :
    ∃ d ∈ w.summaries, inventoryItem q.includeEol d = item := by
  unfold buildSoftwareInventory at h
  split at h
  · cases h
  · obtain ⟨d, hd, heq⟩ := List.mem_map.mp h
    have hfound := (mem_sortBy _).mp (List.mem_of_mem_drop (List.mem_of_mem_take hd))
    exact ⟨d, (List.mem_filter.mp hfound).1, heq⟩

theorem not_showsEnded (h : Bare w) {categoryMatches : String → String → Bool} {q : ExportRequest}
    (hitem : item ∈ (buildSoftwareInventory categoryMatches q w).softwareInventory) :
    ¬ShowsEnded item c := by
  intro hshows
  obtain ⟨e, he, hended, -⟩ := hshows
  obtain ⟨d, hd, rfl⟩ := exists_summary_of_mem hitem
  have hmatch : d.eolMatch.map eolInfo = some e := by
    cases hinclude : q.includeEol with
    | true => rw [hinclude] at he; exact he
    | false => rw [hinclude] at he; cases he
  obtain ⟨m, hm, rfl⟩ := Option.map_eq_some_iff.mp hmatch
  have hbare : m.isEol = none := by
    refine h d.normalizedName m ?_
    rw [World.stored, Collection.get_eq_some_iff.mpr ⟨hd, rfl⟩]
    exact hm
  rw [eolInfo, hbare] at hended
  cases hended

theorem checkFindsEnded_iff :
    CheckFindsEnded py (getAllProductsWithCycles docs today) item c ↔
      HasEnded py.isDecimal (getAllProductsWithCycles docs today) today item c := by
  have hloaded : ∀ id cycles, (getAllProductsWithCycles docs today).lookup id = some cycles →
      ∀ c ∈ cycles, c.isEol = past c.eolDate today := by
    intro id cycles hcycles c hc
    obtain ⟨before, after, hsplit, -⟩ := List.lookup_eq_some_iff.mp hcycles
    have hmem : (id, cycles) ∈ getAllProductsWithCycles docs today :=
      hsplit ▸ List.mem_append_right before List.mem_cons_self
    obtain ⟨doc, -, hdoc⟩ := List.mem_map.mp hmem
    rw [← (Prod.mk.inj hdoc).2] at hc
    obtain ⟨stored, -, rfl⟩ := List.mem_map.mp hc
    rfl
  constructor
  · intro h
    obtain ⟨id, cycles, installed, hid, hcycles, hversion, hcycle, hended⟩ := h
    refine ⟨id, cycles, orUnknown installed, hid, hcycles, hversion, hcycle, .cpe, 1, _,
      congrArg (Option.map _) hcycle, ?_⟩
    show past c.eolDate today = true
    rw [← hloaded id cycles hcycles c (mem_of_extractCycleMatch hcycle)]
    exact hended
  · intro h
    obtain ⟨id, cycles, version, hid, hcycles, hversion, hcycle, source, confidence, m, hm,
      hended⟩ := h
    have hknown : orUnknown (some version) = version := by
      by_cases hempty : version = ""
      · rw [hempty, extractCycleMatch_empty] at hcycle
        cases hcycle
      · rw [orUnknown, Option.filter_some, if_pos (decide_eq_true hempty)]
        rfl
    refine ⟨id, cycles, some version, hid, hcycles, hversion.trans (congrArg some hknown.symm), ?_,
      ?_⟩
    · rw [Compliance.installedCycle, hknown]
      exact hcycle
    · rw [computeEolMatch, hcycle] at hm
      rw [hloaded id cycles hcycles c (mem_of_extractCycleMatch hcycle), ← hended,
        ← Option.some.inj hm]

end Agreement

/-- Of summaries whose matches were written by the matching and by confirmations, a row agrees
with the lifecycle of its version if and only if that has no cycle that has ended. -/
theorem export_agrees_iff (t : Taxonomy.CaseText) (py : Compliance.Python)
    (categoryMatches : String → String → Bool) (apps : List Sync.AppDoc)
    (agents : List Sync.AgentDoc) (summaries : Collection AppSummary.normalizedName)
    (hnew : ∀ d ∈ summaries, d.eolMatch = none) (requests : List Request)
    (docs : List ProductDoc) (today : Nat) (q : ExportRequest) (item : SoftwareInventoryItem)
    (hitem : item ∈ (buildSoftwareInventory categoryMatches q
      (performs t py.toPython { apps, agents, summaries } requests)).softwareInventory) :
    Agrees py (getAllProductsWithCycles docs today) today item ↔
      ∀ c, ¬HasEnded py.isDecimal (getAllProductsWithCycles docs today) today item c := by
  have hbare : Bare { apps, agents, summaries } := by
    intro name m hm
    obtain ⟨d, hd, hmatch⟩ := Option.bind_eq_some_iff.mp hm
    rw [hnew d (Collection.get_eq_some_iff.mp hd).1] at hmatch
    cases hmatch
  have hnot : ∀ c, ¬ShowsEnded item c :=
    fun c => not_showsEnded (bare_performs hbare requests) hitem
  constructor
  · intro h c hended
    exact hnot c ((h.shown c).mpr hended)
  · intro h
    exact ⟨fun c => iff_of_false (hnot c) (h c), fun c => checkFindsEnded_iff⟩

def zoomProduct : ProductDoc where
  productId := "zoom"
  cycles := [{ cycle := "5", eolDate := some 1 }, { cycle := "6" }]

def findZoom : Request := .matching { eolProducts := [("zoom", [])] } false []

def zoomItem : SoftwareInventoryItem where
  appName := "Zoom"
  appVersion := some "5.1"
  publisher := none
  classification := none
  installCount := 1
  agentCount := 1
  eol := some ⟨some "zoom", none, none, false, false, none⟩
  taxonomyCategories := []

theorem zoomItem_mem :
    zoomItem ∈ (buildSoftwareInventory (fun _ _ => true) {}
      (performs caselessText Compliance.plainPython.toPython
        { apps := [zoomApp], agents := [laptop], summaries := ⟨[zoomSummary], by decide⟩ }
        [findZoom])).softwareInventory := by
  decide +kernel

/-- On the first day no cycle has ended. -/
theorem zoom_agrees_at_first :
    Agrees Compliance.plainPython (getAllProductsWithCycles [zoomProduct] 0) 0 zoomItem := by
  refine (export_agrees_iff caselessText Compliance.plainPython (fun _ _ => true) [zoomApp]
    [laptop] ⟨[zoomSummary], by decide⟩ (fun d hd => ?_) [findZoom] [zoomProduct] 0 {} zoomItem
    zoomItem_mem).mpr ?_
  · rw [List.mem_singleton.mp hd]
    rfl
  · intro c h
    obtain ⟨id, cycles, version, -, -, -, -, source, confidence, m, hm, hended⟩ := h
    obtain ⟨cycle, -, rfl⟩ := Option.map_eq_some_iff.mp hm
    have hpast : past cycle.eolDate 0 = false := by
      unfold past
      cases cycle.eolDate with
      | none => rfl
      | some d => exact decide_eq_false (Nat.not_lt_zero d)
    exact Bool.false_ne_true (hpast.symm.trans hended)

/-- The cycle of the version has ended, and the row does not show it. -/
theorem ended_cycle_is_not_shown :
    ¬∀ (t : Taxonomy.CaseText) (py : Compliance.Python) (categoryMatches : String → String → Bool)
      (apps : List Sync.AppDoc) (agents : List Sync.AgentDoc)
      (summaries : Collection AppSummary.normalizedName), (∀ d ∈ summaries, d.eolMatch = none) →
      ∀ (requests : List Request) (docs : List ProductDoc) (today : Nat) (q : ExportRequest),
      ∀ item ∈ (buildSoftwareInventory categoryMatches q
        (performs t py.toPython { apps, agents, summaries } requests)).softwareInventory,
        Agrees py (getAllProductsWithCycles docs today) today item := by
  intro hall
  have hagrees := hall caselessText Compliance.plainPython (fun _ _ => true) [zoomApp] [laptop]
    ⟨[zoomSummary], by decide⟩ (fun d hd => by rw [List.mem_singleton.mp hd]; rfl) [findZoom]
    [zoomProduct] 2 {} zoomItem zoomItem_mem
  let five : EOLCycle := { cycle := "5", eolDate := some 1, isEol := true }
  have hcycle : extractCycleMatch Compliance.plainPython.isDecimal "5.1"
      (zoomProduct.cycles.map (CycleDoc.load 2)) = some five := by decide +kernel
  have hended : HasEnded Compliance.plainPython.isDecimal
      (getAllProductsWithCycles [zoomProduct] 2) 2 zoomItem five :=
    ⟨"zoom", _, "5.1", rfl, rfl, rfl, hcycle, .cpe, 1, _, congrArg (Option.map _) hcycle, rfl⟩
  obtain ⟨e, he, hisEol, -⟩ := (hagrees.shown five).mpr hended
  rw [← Option.some.inj he] at hisEol
  cases hisEol

end Sentora.Export
