import Sentora.Agents.Summaries
import Sentora.Enforcement.Meaning
import Sentora.Lib.StableSort

/-!
# Previews of patterns

`preview_pattern` of `domains/taxonomy/service.py`, which looks the summaries of exact names up
and scans for the others.
-/

namespace Sentora.Taxonomy

open Lib Agents

structure PatternPreviewRequest where
  pattern : Option String := none
  patterns : Option (List String) := none

structure AppMatch where
  normalizedName : String
  displayName : String
  publisher : Option String
  agentCount : Nat
deriving DecidableEq

structure GroupCount where
  groupName : String
  agentCount : Nat
deriving DecidableEq

structure PatternPreviewResponse where
  patterns : List String
  totalApps : Nat
  totalAgents : Nat
  appMatches : List AppMatch
  groupCounts : List GroupCount
deriving DecidableEq

/-- The collections `app_summaries`, in the order of a scan, and `s1_agents`. -/
structure Inventory where
  summaries : Collection AppSummary.normalizedName
  agents : List Sync.AgentDoc

/-- `request.patterns or ([request.pattern] if request.pattern else [])`. -/
def resolvePatterns (request : PatternPreviewRequest) : List String :=
  match request.patterns with
  | some (p :: rest) => p :: rest
  | _ => (request.pattern.filter (· ≠ "")).toList

def previewMatchLimit : Nat := 10000

def appMatch (s : AppSummary) : AppMatch where
  normalizedName := s.normalizedName
  displayName := if s.displayName = "" then s.normalizedName else s.displayName
  publisher := s.publisher
  agentCount := s.agentCount

def scanMatches (t : CaseText) (inv : Inventory) (patterns : List String) : List AppSummary :=
  (inv.summaries.docs.take previewMatchLimit).filter fun s =>
    patterns.any fun p => globMatches (t.lower p) s.normalizedName

def exactMatches (t : CaseText) (indexed : List AppSummary → List AppSummary) (inv : Inventory)
    (patterns : List String) : List AppSummary :=
  indexed <| inv.summaries.docs.filter fun s =>
    (patterns.map t.lower).contains s.normalizedName

/-- `{"installed_app_names": {"$in": matched_names}}`. -/
def agentFilter (matchedNames : List String) (agent : Sync.AgentDoc) : Bool :=
  (agent.installedAppNames.getD []).any matchedNames.contains

def groupCount (g : String × List Sync.AgentDoc) : GroupCount where
  groupName := if g.1 = "" then "Unknown" else g.1
  agentCount := g.2.length

def previewOf (inv : Inventory) (patterns : List String) (found : List AppSummary) :
    PatternPreviewResponse :=
  let appMatches := (sortBy (fun m => OrderDual.toDual m.agentCount) (found.map appMatch)).take 50
  let matchedNames := found.map AppSummary.normalizedName
  let agents := inv.agents.filter (agentFilter matchedNames)
  { patterns
    totalApps := appMatches.length
    totalAgents := if matchedNames = [] then 0 else agents.length
    appMatches
    groupCounts :=
      if matchedNames = [] then []
      else ((sortBy (fun g => OrderDual.toDual g.2.length)
        (groupsBy Sync.AgentDoc.groupName agents)).take 20).map groupCount }

def previewPattern (t : CaseText) (indexed : List AppSummary → List AppSummary)
    (inv : Inventory) (request : PatternPreviewRequest) : PatternPreviewResponse :=
  let patterns := resolvePatterns request
  if patterns = [] then ⟨[], 0, 0, [], []⟩
  else if patterns.any hasWildcard then previewOf inv patterns (scanMatches t inv patterns)
  else previewOf inv patterns (exactMatches t indexed inv patterns)

def Inventory.matching (t : CaseText) (inv : Inventory) (patterns : List String) :
    List AppSummary :=
  inv.summaries.docs.filter fun s =>
    patterns.any fun p => globMatches (t.lower p) s.normalizedName

def Inventory.having (inv : Inventory) (apps : List AppSummary) : List Sync.AgentDoc :=
  inv.agents.filter fun agent =>
    apps.any fun s => (agent.installedAppNames.getD []).contains s.normalizedName

structure Truthful (t : CaseText) (inv : Inventory) (patterns : List String)
    (response : PatternPreviewResponse) : Prop where
  totalApps : response.totalApps = (inv.matching t patterns).length
  totalAgents : response.totalAgents = (inv.having (inv.matching t patterns)).length
  appMatches : IsLargest 50 AppMatch.agentCount response.appMatches
    ((inv.matching t patterns).map appMatch)

/-- Two responses say the same.  Matches with as many agents may stand in another order. -/
structure SameAnswer (r r' : PatternPreviewResponse) : Prop where
  totalApps : r.totalApps = r'.totalApps
  totalAgents : r.totalAgents = r'.totalAgents
  appMatches : r.appMatches.Perm r'.appMatches
  groupCounts : r.groupCounts = r'.groupCounts

/-- What is promised of a preview: it is truthful, and where names are looked up a scan would
have given the same answer. -/
structure TellsTruth (t : CaseText) (indexed : List AppSummary → List AppSummary)
    (inv : Inventory) (request : PatternPreviewRequest) : Prop where
  truthful : Truthful t inv (resolvePatterns request) (previewPattern t indexed inv request)
  paths : (resolvePatterns request).any hasWildcard = false →
    SameAnswer (previewPattern t indexed inv request)
      (previewOf inv (resolvePatterns request) (scanMatches t inv (resolvePatterns request)))

section Preview

variable {t : CaseText} {indexed : List AppSummary → List AppSummary} {inv : Inventory}
  {patterns : List String} {found found' : List AppSummary}

theorem totalApps_previewOf : (previewOf inv patterns found).totalApps = min 50 found.length := by
  show ((sortBy (fun m => OrderDual.toDual m.agentCount) (found.map appMatch)).take 50).length = _
  rw [List.length_take, (perm_sortBy _ _).length_eq, List.length_map]

theorem agentFilter_eq {agent : Sync.AgentDoc} :
    agentFilter (found.map AppSummary.normalizedName) agent =
      found.any fun s => (agent.installedAppNames.getD []).contains s.normalizedName := by
  rw [agentFilter, Bool.eq_iff_iff, List.any_eq_true, List.any_eq_true]
  simp only [List.contains_iff_mem, List.mem_map]
  constructor
  · rintro ⟨name, hname, s, hs, rfl⟩
    exact ⟨s, hs, hname⟩
  · rintro ⟨s, hs, hname⟩
    exact ⟨s.normalizedName, hname, s, hs, rfl⟩

theorem filter_agentFilter :
    inv.agents.filter (agentFilter (found.map AppSummary.normalizedName)) = inv.having found := by
  rw [Inventory.having]
  exact List.filter_congr fun agent _ => agentFilter_eq

theorem totalAgents_previewOf :
    (previewOf inv patterns found).totalAgents = (inv.having found).length := by
  show (if found.map AppSummary.normalizedName = [] then 0
    else (inv.agents.filter (agentFilter _)).length) = _
  rw [filter_agentFilter]
  split
  · rename_i hnil
    rw [List.map_eq_nil_iff] at hnil
    have hnone : inv.having [] = [] := List.filter_eq_nil_iff.mpr fun _ _ => Bool.false_ne_true
    rw [hnil, hnone]
    rfl
  · rfl

theorem having_perm (h : found.Perm found') : inv.having found = inv.having found' := by
  rw [Inventory.having, Inventory.having]
  exact List.filter_congr fun agent _ => h.any_eq

theorem sameAnswer_of_perm (h : found.Perm found') (hle : found.length ≤ 50) :
    SameAnswer (previewOf inv patterns found) (previewOf inv patterns found') where
  totalApps := by rw [totalApps_previewOf, totalApps_previewOf, h.length_eq]
  totalAgents := by rw [totalAgents_previewOf, totalAgents_previewOf, having_perm h]
  appMatches := by
    have hle' : (found'.map appMatch).length ≤ 50 := by
      rw [List.length_map, ← h.length_eq]
      exact hle
    have hshown : IsLargest 50 AppMatch.agentCount (previewOf inv patterns found).appMatches
        (found'.map appMatch) := isLargest_take (h.map appMatch)
    have hshown' : IsLargest 50 AppMatch.agentCount (previewOf inv patterns found').appMatches
        (found'.map appMatch) := isLargest_take (List.Perm.refl _)
    exact (hshown.perm hle').trans (hshown'.perm hle').symm
  groupCounts := by
    have hnil : found.map AppSummary.normalizedName = [] ↔
        found'.map AppSummary.normalizedName = [] := by
      rw [List.map_eq_nil_iff, List.map_eq_nil_iff, ← List.length_eq_zero_iff, h.length_eq,
        List.length_eq_zero_iff]
    show (if found.map AppSummary.normalizedName = [] then []
      else ((sortBy (fun g => OrderDual.toDual g.2.length) (groupsBy Sync.AgentDoc.groupName
        (inv.agents.filter (agentFilter _)))).take 20).map groupCount) =
      if found'.map AppSummary.normalizedName = [] then []
      else ((sortBy (fun g => OrderDual.toDual g.2.length) (groupsBy Sync.AgentDoc.groupName
        (inv.agents.filter (agentFilter _)))).take 20).map groupCount
    rw [filter_agentFilter, filter_agentFilter, having_perm h]
    exact if_congr hnil rfl rfl

theorem truthful_previewOf (h : found.Perm (inv.matching t patterns)) (hle : found.length ≤ 50) :
    Truthful t inv patterns (previewOf inv patterns found) where
  totalApps := by rw [totalApps_previewOf, Nat.min_eq_right hle, h.length_eq]
  totalAgents := by rw [totalAgents_previewOf, having_perm h]
  appMatches := isLargest_take (h.map appMatch)

variable (t inv) in
theorem exactMatches_perm (hindexed : ∀ l, (indexed l).Perm l)
    (hplain : patterns.any hasWildcard = false) :
    (exactMatches t indexed inv patterns).Perm (inv.matching t patterns) := by
  refine (hindexed _).trans (List.Perm.of_eq (List.filter_congr fun s _ => ?_))
  have hmatches : previewMatches t patterns s.normalizedName =
      (patterns.map t.lower).contains s.normalizedName := by
    rw [previewMatches, if_neg (Bool.not_eq_true _ ▸ hplain)]
  rw [← hmatches, previewMatches_eq]

theorem scanMatches_sublist :
    (scanMatches t inv patterns).Sublist (inv.matching t patterns) :=
  (List.take_sublist previewMatchLimit _).filter _

theorem scanMatches_eq_iff :
    (scanMatches t inv patterns).length = (inv.matching t patterns).length ↔
    ∀ s ∈ inv.matching t patterns, s ∈ inv.summaries.docs.take previewMatchLimit := by
  constructor
  · intro hlength s hs
    rw [← scanMatches_sublist.eq_of_length hlength] at hs
    exact List.mem_of_mem_filter hs
  · intro hread
    have hnodup : (inv.matching t patterns).Nodup :=
      (List.Nodup.of_map _ inv.summaries.distinct).filter _
    refine Nat.le_antisymm scanMatches_sublist.length_le ?_
    refine (List.subperm_of_subset hnodup fun s hs => ?_).length_le
    exact List.mem_filter.mpr ⟨hread s hs, (List.mem_filter.mp hs).2⟩

theorem previewPattern_scan {request : PatternPreviewRequest}
    (hpatterns : resolvePatterns request ≠ [])
    (hwild : (resolvePatterns request).any hasWildcard = true) :
    previewPattern t indexed inv request =
      previewOf inv (resolvePatterns request) (scanMatches t inv (resolvePatterns request)) := by
  rw [previewPattern, if_neg hpatterns, if_pos hwild]

theorem previewPattern_exact {request : PatternPreviewRequest}
    (hpatterns : resolvePatterns request ≠ [])
    (hplain : (resolvePatterns request).any hasWildcard = false) :
    previewPattern t indexed inv request =
      previewOf inv (resolvePatterns request)
        (exactMatches t indexed inv (resolvePatterns request)) := by
  rw [previewPattern, if_neg hpatterns, if_neg (Bool.not_eq_true _ ▸ hplain)]

end Preview

/-- A preview is truthful, and the same by both paths, if and only if at most 50 summaries match
and all that match are among the first 10000 of the collection. -/
theorem previewPattern_tellsTruth_iff (t : CaseText)
    (indexed : List AppSummary → List AppSummary) (hindexed : ∀ l, (indexed l).Perm l)
    (inv : Inventory) (request : PatternPreviewRequest)
    (hpatterns : resolvePatterns request ≠ []) :
    TellsTruth t indexed inv request ↔
      (inv.matching t (resolvePatterns request)).length ≤ 50 ∧
        ∀ s ∈ inv.matching t (resolvePatterns request),
          s ∈ inv.summaries.docs.take previewMatchLimit := by
  rw [← scanMatches_eq_iff]
  have hle : (scanMatches t inv (resolvePatterns request)).length ≤
      (inv.matching t (resolvePatterns request)).length := scanMatches_sublist.length_le
  cases hwild : (resolvePatterns request).any hasWildcard with
  | true =>
    constructor
    · intro h
      have htotal := h.truthful.totalApps
      rw [previewPattern_scan hpatterns hwild, totalApps_previewOf] at htotal
      omega
    · rintro ⟨hfew, hread⟩
      have hperm := List.Perm.of_eq (scanMatches_sublist.eq_of_length hread)
      refine ⟨?_, fun hplain => ?_⟩
      · rw [previewPattern_scan hpatterns hwild]
        exact truthful_previewOf hperm (hle.trans hfew)
      · rw [hwild] at hplain
        cases hplain
  | false =>
    have hperm := exactMatches_perm t inv hindexed hwild
    constructor
    · intro h
      have htotal := h.truthful.totalApps
      have hsame := (h.paths hwild).totalApps
      rw [previewPattern_exact hpatterns hwild, totalApps_previewOf, hperm.length_eq] at htotal
      rw [previewPattern_exact hpatterns hwild, totalApps_previewOf, totalApps_previewOf,
        hperm.length_eq] at hsame
      omega
    · rintro ⟨hfew, hread⟩
      have hscan := List.Perm.of_eq (scanMatches_sublist.eq_of_length hread)
      rw [← hperm.length_eq] at hfew
      refine ⟨?_, fun _ => ?_⟩
      · rw [previewPattern_exact hpatterns hwild]
        exact truthful_previewOf hperm hfew
      · rw [previewPattern_exact hpatterns hwild]
        exact sameAnswer_of_perm (hperm.trans hscan.symm) hfew

def toolSummary (n : Nat) : AppSummary where
  normalizedName := "tool " ++ toString n
  displayName := "Tool " ++ toString n
  publisher := none
  agentCount := 1
  category := none
  categoryDisplay := none
  riskLevel := none
  versions := []
  riskDistribution := []
  groupBreakdown := []
  siteBreakdown := []
  groupCount := 1
  siteCount := 1

def toolInventory (n : Nat) (h : (((List.range n).map toolSummary).map
    AppSummary.normalizedName).Nodup) : Inventory :=
  ⟨⟨(List.range n).map toolSummary, h⟩, []⟩

def toolRequest : PatternPreviewRequest := { patterns := some ["Tool*"] }

def fewTools : Inventory := toolInventory 3 (by decide +kernel)

def manyTools : Inventory := toolInventory 51 (by decide +kernel)

theorem previewPattern_tellsTruth_iff_fewTools :
    TellsTruth Enforcement.asciiCase id fewTools toolRequest ↔
      (fewTools.matching Enforcement.asciiCase (resolvePatterns toolRequest)).length ≤ 50 ∧
        ∀ s ∈ fewTools.matching Enforcement.asciiCase (resolvePatterns toolRequest),
          s ∈ fewTools.summaries.docs.take previewMatchLimit :=
  previewPattern_tellsTruth_iff Enforcement.asciiCase id (fun l => List.Perm.refl l) fewTools
    toolRequest (by decide)

/-- Of 51 tools that match, the preview counts 50. -/
theorem preview_undercounts :
    (manyTools.matching Enforcement.asciiCase (resolvePatterns toolRequest)).length = 51 ∧
      (previewPattern Enforcement.asciiCase id manyTools toolRequest).totalApps = 50 ∧
      ¬TellsTruth Enforcement.asciiCase id manyTools toolRequest := by
  have hmatching : (manyTools.matching Enforcement.asciiCase
      (resolvePatterns toolRequest)).length = 51 := by decide +kernel
  have htotal : (previewPattern Enforcement.asciiCase id manyTools toolRequest).totalApps = 50 := by
    decide +kernel
  refine ⟨hmatching, htotal, fun h => ?_⟩
  have hclaimed := h.truthful.totalApps
  rw [hmatching, htotal] at hclaimed
  exact absurd hclaimed (by decide)

end Sentora.Taxonomy
