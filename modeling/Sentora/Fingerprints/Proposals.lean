import Mathlib.Algebra.Order.BigOperators.Group.List
import Sentora.Lib.Groups
import Sentora.Lib.Rounding
import Sentora.Lib.StableSort
import Sentora.Lib.Tally
import Sentora.Sync.Documents

/-!
# Proposed markers

`generate_proposals` of `domains/fingerprint/auto_proposer.py`.  The agents of a group are
counted as agents, and the applications once for each installed name that is mapped to them.
-/

namespace Sentora.Fingerprints.Proposals

open Lib Sync

structure AgentRow where
  groupId : Option String
  groupName : Option String := none
  installedAppNames : Option (List String)

/-- Floating-point results as roundings of the exact ones; `sum` of a list of them, and
`str.title`. -/
structure Arithmetic where
  rnd : ℚ → ℚ
  mono : Monotone rnd
  zero : rnd 0 = 0
  one : rnd 1 = 1
  sum : List ℚ → ℚ
  title : String → String

structure Thresholds where
  coverageMin : ℚ := 60 / 100
  outsideMax : ℚ := 25 / 100
  liftMin : ℚ := 2
  topK : Nat := 10

def liftCap : ℚ := 99

structure GroupInfo where
  id : String
  count : Nat
  name : String

structure Candidate where
  app : String
  lift : ℚ
  groupCoverage : ℚ
  outsideCoverage : ℚ
  agentCountInGroup : Nat
  agentCountOutside : Nat

structure ProposedMarker where
  normalizedName : String
  displayName : String
  lift : ℚ
  groupCoverage : ℚ
  outsideCoverage : ℚ
  agentCountInGroup : Nat
  agentCountOutside : Nat
  sharedWithGroups : List String

structure AutoFingerprintProposal where
  groupId : String
  groupName : String
  groupSize : Nat
  proposedMarkers : List ProposedMarker
  qualityScore : ℚ
  totalGroups : Nat
  thresholds : Thresholds

section Program

variable (py : Python) (ar : Arithmetic) (th : Thresholds)

def normalizeAppName (name : String) : String :=
  String.ofList (strip py (stripVersionSuffix py name.toList))

def toDisplayName (normalizedName : String) : String :=
  ar.title (normalizedName.map fun c => if c = '-' ∨ c = '_' then ' ' else c)

def groupInfo : Option String × List AgentRow → Option GroupInfo
  | (none, _) => none
  | (some gid, rows) =>
    if gid = "" then none
    else
      let name := (rows.head?.bind AgentRow.groupName).getD ""
      some ⟨gid, rows.length, if name = "" then gid else name⟩

/-- MongoDB leaves the order of the groups open; here it is that of their first agents. -/
def groupsOf (agents : List AgentRow) : List GroupInfo :=
  (groupsBy AgentRow.groupId agents).filterMap groupInfo

/-- The number of agents per name, and per group and name. -/
structure Frequencies where
  globalDf : Counts String := []
  inGroup : String → Counts String := fun _ => []

def Frequencies.record (gid : String) (freq : Frequencies) (rawName : String) : Frequencies :=
  let name := normalizeAppName py rawName
  if name = "" then freq
  else
    { globalDf := increment name freq.globalDf
      inGroup := Function.update freq.inGroup gid (increment name (freq.inGroup gid)) }

def AgentRow.isStreamed (r : AgentRow) : Bool :=
  r.groupId.isSome && r.installedAppNames.isSome && r.installedAppNames != some []

def Frequencies.visit (freq : Frequencies) (r : AgentRow) : Frequencies :=
  (r.installedAppNames.getD []).foldl (Frequencies.record py (r.groupId.getD "")) freq

def frequencies (agents : List AgentRow) : Frequencies :=
  (agents.filter AgentRow.isStreamed).foldl (Frequencies.visit py) {}

def candidate (n groupSize : Nat) (app : String) (inCount df : Nat) : Candidate :=
  let outsideAgents := n - groupSize
  let groupCoverage := ar.rnd (inCount / groupSize)
  let baseRate := ar.rnd (df / n)
  let outsideCount := df - inCount
  { app := app
    lift := if 0 < baseRate then min (ar.rnd (groupCoverage / baseRate)) liftCap else 0
    groupCoverage := groupCoverage
    outsideCoverage := if 0 < outsideAgents then ar.rnd (outsideCount / outsideAgents) else 0
    agentCountInGroup := inCount
    agentCountOutside := outsideCount }

def passes (c : Candidate) : Bool :=
  !(c.groupCoverage < th.coverageMin) && !(th.outsideMax < c.outsideCoverage) &&
    !(c.lift < th.liftMin)

/-- `global_df.get(app, in_count)`. -/
def dfOf (freq : Frequencies) (app : String) (inCount : Nat) : Nat :=
  if app ∈ freq.globalDf.map Prod.fst then countOf app freq.globalDf else inCount

def passing (freq : Frequencies) (n : Nat) (group : GroupInfo) : List Candidate :=
  ((freq.inGroup group.id).map fun (app, inCount) =>
    candidate ar n group.count app inCount (dfOf freq app inCount)).filter (passes th)

def groupCandidates (freq : Frequencies) (n : Nat) (group : GroupInfo) : List Candidate :=
  (sortBy (fun c => -c.lift) (passing ar th freq n group)).take th.topK

def competing (freq : Frequencies) (n : Nat) (groups : List GroupInfo) (gid app : String) :
    List String :=
  (groups.filter fun g =>
    g.id ≠ gid ∧ app ∈ (groupCandidates ar th freq n g).map Candidate.app).map GroupInfo.id

def proposedMarker (freq : Frequencies) (n : Nat) (groups : List GroupInfo) (gid : String)
    (c : Candidate) : ProposedMarker where
  normalizedName := c.app
  displayName := toDisplayName ar c.app
  lift := ar.rnd (roundTo 2 c.lift)
  groupCoverage := ar.rnd (roundTo 4 c.groupCoverage)
  outsideCoverage := ar.rnd (roundTo 4 c.outsideCoverage)
  agentCountInGroup := c.agentCountInGroup
  agentCountOutside := c.agentCountOutside
  sharedWithGroups := competing ar th freq n groups gid c.app

def qualityScore (markers : List ProposedMarker) : ℚ :=
  if markers.isEmpty then 0
  else ar.rnd (ar.sum (markers.map ProposedMarker.lift) / markers.length)

def proposal (freq : Frequencies) (n : Nat) (groups : List GroupInfo) (group : GroupInfo) :
    AutoFingerprintProposal :=
  let markers :=
    (groupCandidates ar th freq n group).map (proposedMarker ar th freq n groups group.id)
  { groupId := group.id
    groupName := group.name
    groupSize := group.count
    proposedMarkers := markers
    qualityScore := ar.rnd (roundTo 2 (qualityScore ar markers))
    totalGroups := groups.length
    thresholds := th }

def generateProposals (agents : List AgentRow) : List AutoFingerprintProposal :=
  let groups := groupsOf agents
  let n := (groups.map GroupInfo.count).sum
  if n = 0 ∨ groups = [] then []
  else
    sortBy (fun p => -p.qualityScore)
      (groups.map (proposal ar th (frequencies py agents) n groups))

end Program

section Specification

variable (py : Python) (ar : Arithmetic) (th : Thresholds) (agents : List AgentRow)

def AgentRow.isGrouped (r : AgentRow) : Bool := r.groupId.isSome && r.groupId != some ""

def namesOf (r : AgentRow) : List String :=
  ((r.installedAppNames.getD []).map (normalizeAppName py)).filter fun name => name ≠ ""

def membersOf (gid : String) : List AgentRow := agents.filter fun r => r.groupId = some gid

def outsidersOf (gid : String) : List AgentRow :=
  agents.filter fun r => r.isGrouped && r.groupId != some gid

/-- The agents of a group with an installed name that is mapped to `app`. -/
def countInGroup (gid app : String) : Nat :=
  (membersOf agents gid).countP fun r => app ∈ namesOf py r

def countOutside (gid app : String) : Nat :=
  (outsidersOf agents gid).countP fun r => app ∈ namesOf py r

def coverageInGroup (gid app : String) : ℚ :=
  ar.rnd (countInGroup py agents gid app / (membersOf agents gid).length)

def coverageOutside (gid app : String) : ℚ :=
  if outsidersOf agents gid = [] then 0
  else ar.rnd (countOutside py agents gid app / (outsidersOf agents gid).length)

def baseRate (gid app : String) : ℚ :=
  ar.rnd ((countInGroup py agents gid app + countOutside py agents gid app : Nat) /
    (agents.filter AgentRow.isGrouped).length)

def liftOf (gid app : String) : ℚ :=
  if 0 < baseRate py ar agents gid app then
    min (ar.rnd (coverageInGroup py ar agents gid app / baseRate py ar agents gid app)) liftCap
  else 0

def gated (group : GroupInfo) : List String :=
  (passing ar th (frequencies py agents) ((groupsOf agents).map GroupInfo.count).sum group).map
    Candidate.app

/-- The statistics of every proposed marker are those of the agents, and the gate is that of
the true proportions. -/
structure TrueProportions : Prop where
  counts : ∀ p ∈ generateProposals py ar th agents, ∀ m ∈ p.proposedMarkers,
    m.agentCountInGroup = countInGroup py agents p.groupId m.normalizedName ∧
      m.agentCountOutside = countOutside py agents p.groupId m.normalizedName
  coverages : ∀ p ∈ generateProposals py ar th agents, ∀ m ∈ p.proposedMarkers,
    (0 ≤ m.groupCoverage ∧ m.groupCoverage ≤ 1) ∧ 0 ≤ m.outsideCoverage ∧ m.outsideCoverage ≤ 1
  gate : ∀ group ∈ groupsOf agents, ∀ app, app ∈ gated py ar th agents group ↔
    0 < countInGroup py agents group.id app ∧
      th.coverageMin ≤ coverageInGroup py ar agents group.id app ∧
      coverageOutside py ar agents group.id app ≤ th.outsideMax ∧
      th.liftMin ≤ liftOf py ar agents group.id app

/-- No grouped agent has two names that are mapped to one, and no agent with an empty group
id has one that is mapped as a grouped agent's. -/
structure CountedOnce : Prop where
  once : ∀ r ∈ agents, r.isGrouped = true → (namesOf py r).Nodup
  grouped : ∀ r ∈ agents, r.groupId = some "" → ∀ name ∈ namesOf py r,
    ∀ s ∈ agents, s.isGrouped = true → name ∉ namesOf py s

end Specification

section Streamed

variable {py : Python} {agents rows : List AgentRow} {freq : Frequencies} {gid app : String}

theorem record_foldl (names : List String) :
    names.foldl (Frequencies.record py gid) freq =
      let counted := (names.map (normalizeAppName py)).filter fun name => name ≠ ""
      { globalDf := counted.foldl (fun counts a => increment a counts) freq.globalDf
        inGroup := Function.update freq.inGroup gid
          (counted.foldl (fun counts a => increment a counts) (freq.inGroup gid)) } := by
  induction names generalizing freq with
  | nil => simp
  | cons raw names ih =>
    rw [List.foldl_cons, ih, Frequencies.record]
    by_cases hname : normalizeAppName py raw = ""
    · simp [hname]
    · simp [hname]

/-- The rows are counted by their mapped names. -/
structure Counted (py : Python) (rows : List AgentRow) (freq : Frequencies) : Prop where
  globalDf : freq.globalDf = tally (rows.flatMap (namesOf py))
  inGroup : ∀ gid, freq.inGroup gid =
    tally ((rows.filter fun r => r.groupId.getD "" = gid).flatMap (namesOf py))

theorem Counted.visit (h : Counted py rows freq) (r : AgentRow) :
    Counted py (rows ++ [r]) (freq.visit py r) := by
  have hvisit := @record_foldl py freq (r.groupId.getD "") (r.installedAppNames.getD [])
  constructor
  · rw [Frequencies.visit, hvisit, List.flatMap_append, tally, List.foldl_append, ← tally,
      ← h.globalDf, List.flatMap_singleton]
    rfl
  · intro gid
    rw [Frequencies.visit, hvisit, List.filter_append, List.flatMap_append, tally,
      List.foldl_append, ← tally, ← h.inGroup]
    by_cases hgid : r.groupId.getD "" = gid
    · subst hgid
      simp [namesOf]
    · simp [hgid, Function.update_of_ne (Ne.symm hgid)]

theorem counted_foldl : Counted py rows (rows.foldl (Frequencies.visit py) {}) := by
  induction rows using List.reverseRecOn with
  | nil => exact ⟨rfl, fun _ => rfl⟩
  | append_singleton rows r ih =>
    rw [List.foldl_append]
    exact ih.visit r

theorem namesOf_eq_nil {r : AgentRow} (hgroup : r.groupId.isSome = true)
    (h : r.isStreamed = false) : namesOf py r = [] := by
  have hnone : r.installedAppNames.getD [] = [] := by
    cases hnames : r.installedAppNames with
    | none => rfl
    | some names =>
      rw [AgentRow.isStreamed, hgroup, hnames] at h
      simpa using h
  rw [namesOf, hnone]
  rfl

theorem flatMap_streamed {p : AgentRow → Bool} (hp : ∀ r, p r = true → r.groupId.isSome = true) :
    ((agents.filter AgentRow.isStreamed).filter p).flatMap (namesOf py) =
      (agents.filter p).flatMap (namesOf py) := by
  induction agents with
  | nil => rfl
  | cons r agents ih =>
    cases hr : p r with
    | false =>
      rw [List.filter_cons_of_neg (by simp [hr] : ¬p r = true), ← ih]
      cases hs : r.isStreamed with
      | false => rw [List.filter_cons_of_neg (by simp [hs])]
      | true => rw [List.filter_cons_of_pos hs, List.filter_cons_of_neg (by simp [hr])]
    | true =>
      rw [List.filter_cons_of_pos hr, List.flatMap_cons, ← ih]
      cases hs : r.isStreamed with
      | false =>
        rw [List.filter_cons_of_neg (by simp [hs]), namesOf_eq_nil (hp r hr) hs, List.nil_append]
      | true => rw [List.filter_cons_of_pos hs, List.filter_cons_of_pos hr, List.flatMap_cons]

def occurrences (py : Python) (agents : List AgentRow) (p : AgentRow → Bool) (app : String) :
    Nat :=
  ((agents.filter p).flatMap (namesOf py)).count app

theorem occurrences_cons {p : AgentRow → Bool} (r : AgentRow) :
    occurrences py (r :: agents) p app =
      (if p r then (namesOf py r).count app else 0) + occurrences py agents p app := by
  cases hr : p r with
  | false =>
    rw [occurrences, List.filter_cons_of_neg (by simp [hr])]
    simp [occurrences]
  | true =>
    rw [occurrences, List.filter_cons_of_pos hr, List.flatMap_cons, List.count_append]
    rfl

theorem occurrences_split (hgid : gid ≠ "") :
    occurrences py agents (fun r => r.groupId.isSome) app =
      occurrences py agents (fun r => r.groupId = some gid) app +
        (occurrences py agents (fun r => r.isGrouped && r.groupId != some gid) app +
          occurrences py agents (fun r => r.groupId = some "") app) := by
  induction agents with
  | nil => rfl
  | cons r agents ih =>
    rw [occurrences_cons, occurrences_cons, occurrences_cons, occurrences_cons, ih]
    cases hgroup : r.groupId with
    | none => simp [AgentRow.isGrouped, hgroup]
    | some id =>
      by_cases hself : id = gid
      · have hne : id ≠ "" := fun h => hgid (hself.symm.trans h)
        simp [AgentRow.isGrouped, hgroup, hself, hgid]
        omega
      · by_cases hempty : id = ""
        · simp [AgentRow.isGrouped, hgroup, hempty, Ne.symm hgid]
          omega
        · simp [AgentRow.isGrouped, hgroup, hself, hempty]
          omega

theorem inGroup_frequencies :
    (frequencies py agents).inGroup gid = tally ((membersOf agents gid).flatMap (namesOf py)) := by
  have hsome : ∀ r ∈ agents.filter AgentRow.isStreamed,
      decide (r.groupId.getD "" = gid) = decide (r.groupId = some gid) := by
    intro r hr
    have hstream := (List.mem_filter.mp hr).2
    cases hgroup : r.groupId with
    | none => simp [AgentRow.isStreamed, hgroup] at hstream
    | some id => simp
  rw [frequencies, counted_foldl.inGroup, List.filter_congr hsome, membersOf,
    flatMap_streamed fun r hr => by simp [of_decide_eq_true hr]]

theorem globalDf_frequencies :
    (frequencies py agents).globalDf =
      tally ((agents.filter fun r => r.groupId.isSome).flatMap (namesOf py)) := by
  have hsome : (agents.filter AgentRow.isStreamed).filter (fun r => r.groupId.isSome) =
      agents.filter AgentRow.isStreamed := by
    refine List.filter_eq_self.mpr fun r hr => ?_
    have hstream := (List.mem_filter.mp hr).2
    rw [AgentRow.isStreamed, Bool.and_eq_true, Bool.and_eq_true] at hstream
    exact hstream.1.1
  rw [frequencies, counted_foldl.globalDf, ← hsome, flatMap_streamed fun r hr => hr]

theorem count_membersOf : ((membersOf agents gid).flatMap (namesOf py)).count app =
    occurrences py agents (fun r => r.groupId = some gid) app := rfl

theorem mem_inGroup {n : Nat} :
    (app, n) ∈ (frequencies py agents).inGroup gid ↔
      0 < n ∧ n = occurrences py agents (fun r => r.groupId = some gid) app := by
  rw [inGroup_frequencies, mem_tally, ← List.count_pos_iff, count_membersOf]
  constructor
  · intro ⟨hpos, hn⟩
    exact ⟨hn.symm ▸ hpos, hn⟩
  · intro ⟨hpos, hn⟩
    exact ⟨hn ▸ hpos, hn⟩

theorem dfOf_frequencies {n : Nat} (h : (app, n) ∈ (frequencies py agents).inGroup gid) :
    dfOf (frequencies py agents) app n =
      occurrences py agents (fun r => r.groupId.isSome) app := by
  obtain ⟨hpos, hn⟩ := mem_inGroup.mp h
  have hmem : app ∈ (membersOf agents gid).flatMap (namesOf py) :=
    List.count_pos_iff.mp (by rwa [count_membersOf, ← hn])
  obtain ⟨r, hr, hname⟩ := List.mem_flatMap.mp hmem
  obtain ⟨hagent, hgroup⟩ := List.mem_filter.mp hr
  have hsome : r.groupId.isSome = true := by rw [of_decide_eq_true hgroup]; rfl
  have hglobal : app ∈ (agents.filter fun r => r.groupId.isSome).flatMap (namesOf py) :=
    List.mem_flatMap.mpr ⟨r, List.mem_filter.mpr ⟨hagent, hsome⟩, hname⟩
  rw [dfOf, globalDf_frequencies, if_pos (mem_keys_tally.mpr hglobal), countOf_tally]
  rfl

end Streamed

section Groups

variable {agents : List AgentRow} {group : GroupInfo} {gid : String}

theorem groupInfo_eq_some {g : Option String × List AgentRow} (h : groupInfo g = some group) :
    g.1 = some group.id ∧ group.id ≠ "" ∧ group.count = g.2.length := by
  obtain ⟨key, rows⟩ := g
  cases key with
  | none => simp [groupInfo] at h
  | some id =>
    by_cases hid : id = ""
    · simp [groupInfo, hid] at h
    · rw [groupInfo, if_neg hid, Option.some.injEq] at h
      rw [← h]
      exact ⟨rfl, hid, rfl⟩

theorem mem_groupsOf (h : group ∈ groupsOf agents) :
    group.id ≠ "" ∧ group.count = (membersOf agents group.id).length ∧
      membersOf agents group.id ≠ [] := by
  obtain ⟨g, hg, hsome⟩ := List.mem_filterMap.mp h
  obtain ⟨hkey, hid, hcount⟩ := groupInfo_eq_some hsome
  have hitems : g.2 = membersOf agents group.id := by
    rw [(mem_groupsBy.mp hg).2, hkey]
    rfl
  exact ⟨hid, hcount.trans (congrArg List.length hitems), hitems ▸ ne_nil_of_mem_groupsBy hg⟩

theorem exists_mem_groupsOf {r : AgentRow} (hr : r ∈ agents) (hgroup : r.groupId = some gid)
    (hgid : gid ≠ "") : ∃ group ∈ groupsOf agents, group.id = gid := by
  let name := ((membersOf agents gid).head?.bind AgentRow.groupName).getD ""
  have hmem : (some gid, membersOf agents gid) ∈ groupsBy AgentRow.groupId agents :=
    mem_groupsBy.mpr ⟨hgroup ▸ List.mem_map_of_mem hr, rfl⟩
  have hinfo : groupInfo (some gid, membersOf agents gid) =
      some ⟨gid, (membersOf agents gid).length, if name = "" then gid else name⟩ := by
    rw [groupInfo, if_neg hgid]
  exact ⟨_, List.mem_filterMap.mpr ⟨_, hmem, hinfo⟩, rfl⟩

theorem sum_groupsOf :
    ((groupsOf agents).map GroupInfo.count).sum = (agents.filter AgentRow.isGrouped).length := by
  have hcounts : ∀ gs : List (Option String × List AgentRow),
      (gs.filterMap groupInfo).map GroupInfo.count =
        (gs.filter fun g => g.1.isSome && g.1 != some "").map fun g => g.2.length := by
    intro gs
    induction gs with
    | nil => rfl
    | cons g gs ih =>
      obtain ⟨key, rows⟩ := g
      cases key with
      | none =>
        rw [List.filterMap_cons_none (by rw [groupInfo]), List.filter_cons_of_neg (by simp), ih]
      | some id =>
        by_cases hid : id = ""
        · simpa [groupInfo, hid] using ih
        · simp [groupInfo, hid, ih]
  have hsum := @sum_length_filter_groupsBy _ _ _ AgentRow.groupId agents
    fun key => key.isSome && key != some ""
  rw [groupsOf, hcounts]
  exact hsum

theorem length_grouped (hgid : gid ≠ "") :
    (agents.filter AgentRow.isGrouped).length =
      (membersOf agents gid).length + (outsidersOf agents gid).length := by
  induction agents with
  | nil => rfl
  | cons r agents ih =>
    rw [membersOf, outsidersOf] at ih ⊢
    rw [← List.countP_eq_length_filter, ← List.countP_eq_length_filter,
      ← List.countP_eq_length_filter] at ih ⊢
    rw [List.countP_cons, List.countP_cons, List.countP_cons, ih]
    by_cases hself : r.groupId = some gid
    · simp [AgentRow.isGrouped, hself, hgid]
      omega
    · cases hgrouped : r.isGrouped with
      | false => simp [hself]
      | true =>
        simp [hself]
        omega

end Groups

section Once

variable {py : Python} {agents : List AgentRow} {gid app : String}

/-- The counts of a name of a group are those of its agents. -/
structure TrueCounts (py : Python) (agents : List AgentRow) (gid app : String) : Prop where
  inside : occurrences py agents (fun r => r.groupId = some gid) app =
    countInGroup py agents gid app
  outside : occurrences py agents (fun r => r.isGrouped && r.groupId != some gid) app +
    occurrences py agents (fun r => r.groupId = some "") app = countOutside py agents gid app

theorem isGrouped_iff {r : AgentRow} :
    r.isGrouped = true ↔ ∃ gid, r.groupId = some gid ∧ gid ≠ "" := by
  cases hgroup : r.groupId with
  | none => simp [AgentRow.isGrouped, hgroup]
  | some id => simp [AgentRow.isGrouped, hgroup]

theorem occurrences_pos_iff {p : AgentRow → Bool} :
    0 < occurrences py agents p app ↔ ∃ r ∈ agents, p r = true ∧ app ∈ namesOf py r := by
  rw [occurrences, List.count_pos_iff, List.mem_flatMap]
  constructor
  · intro ⟨r, hr, hname⟩
    obtain ⟨hmem, hp⟩ := List.mem_filter.mp hr
    exact ⟨r, hmem, hp, hname⟩
  · intro ⟨r, hmem, hp, hname⟩
    exact ⟨r, List.mem_filter.mpr ⟨hmem, hp⟩, hname⟩

theorem countInGroup_pos_iff : 0 < countInGroup py agents gid app ↔
    0 < occurrences py agents (fun r => r.groupId = some gid) app := by
  rw [occurrences_pos_iff, countInGroup, List.countP_pos_iff]
  constructor
  · intro ⟨r, hr, hname⟩
    obtain ⟨hmem, hgroup⟩ := List.mem_filter.mp hr
    exact ⟨r, hmem, hgroup, of_decide_eq_true hname⟩
  · intro ⟨r, hmem, hgroup, hname⟩
    exact ⟨r, List.mem_filter.mpr ⟨hmem, hgroup⟩, decide_eq_true hname⟩

theorem CountedOnce.trueCounts (h : CountedOnce py agents) (hgid : gid ≠ "")
    (hpos : 0 < occurrences py agents (fun r => r.groupId = some gid) app) :
    TrueCounts py agents gid app := by
  have hle : ∀ r ∈ agents, r.isGrouped = true → (namesOf py r).count app ≤ 1 := fun r hr hg =>
    List.nodup_iff_count_le_one.mp (h.once r hr hg) app
  constructor
  · refine count_flatMap_eq_countP_iff.mpr fun r hr => ?_
    obtain ⟨hmem, hgroup⟩ := List.mem_filter.mp hr
    exact hle r hmem (isGrouped_iff.mpr ⟨gid, of_decide_eq_true hgroup, hgid⟩)
  · have hout : occurrences py agents (fun r => r.isGrouped && r.groupId != some gid) app =
        countOutside py agents gid app := by
      refine count_flatMap_eq_countP_iff.mpr fun r hr => ?_
      obtain ⟨hmem, hgroup⟩ := List.mem_filter.mp hr
      exact hle r hmem (Bool.and_eq_true_iff.mp hgroup).1
    have hempty : ¬0 < occurrences py agents (fun r => r.groupId = some "") app := by
      intro hmany
      obtain ⟨r, hr, hid, hname⟩ := occurrences_pos_iff.mp hmany
      obtain ⟨s, hs, hgroup, hown⟩ := occurrences_pos_iff.mp hpos
      exact h.grouped r hr (of_decide_eq_true hid) app hname s hs
        (isGrouped_iff.mpr ⟨gid, of_decide_eq_true hgroup, hgid⟩) hown
    omega

theorem countedOnce_of_trueCounts
    (h : ∀ gid app, gid ≠ "" → 0 < occurrences py agents (fun r => r.groupId = some gid) app →
      TrueCounts py agents gid app) : CountedOnce py agents := by
  constructor
  · intro r hr hg
    obtain ⟨gid, hgroup, hgid⟩ := isGrouped_iff.mp hg
    refine List.nodup_iff_count_le_one.mpr fun app => ?_
    by_cases hname : app ∈ namesOf py r
    · have hpos : 0 < occurrences py agents (fun r => r.groupId = some gid) app :=
        occurrences_pos_iff.mpr ⟨r, hr, decide_eq_true hgroup, hname⟩
      have hinside := (h gid app hgid hpos).inside
      exact count_flatMap_eq_countP_iff.mp hinside r
        (List.mem_filter.mpr ⟨hr, decide_eq_true hgroup⟩)
    · rw [List.count_eq_zero.mpr hname]
      exact Nat.zero_le 1
  · intro r hr hid app hname s hs hg hown
    obtain ⟨gid, hgroup, hgid⟩ := isGrouped_iff.mp hg
    have hpos : 0 < occurrences py agents (fun r => r.groupId = some gid) app :=
      occurrences_pos_iff.mpr ⟨s, hs, decide_eq_true hgroup, hown⟩
    have hempty : 0 < occurrences py agents (fun r => r.groupId = some "") app :=
      occurrences_pos_iff.mpr ⟨r, hr, decide_eq_true hid, hname⟩
    have houtside := (h gid app hgid hpos).outside
    have hle : countOutside py agents gid app ≤
        occurrences py agents (fun r => r.isGrouped && r.groupId != some gid) app :=
      countP_le_count_flatMap
    omega

end Once

section Gate

variable {py : Python} {ar : Arithmetic} {th : Thresholds} {agents : List AgentRow}
variable {group : GroupInfo} {gid app : String} {c : Candidate}

def scored (py : Python) (ar : Arithmetic) (agents : List AgentRow) (group : GroupInfo)
    (app : String) : Candidate :=
  candidate ar ((groupsOf agents).map GroupInfo.count).sum group.count app
    (occurrences py agents (fun r => r.groupId = some group.id) app)
    (occurrences py agents (fun r => r.groupId.isSome) app)

theorem mem_passing :
    c ∈ passing ar th (frequencies py agents) ((groupsOf agents).map GroupInfo.count).sum group ↔
      0 < occurrences py agents (fun r => r.groupId = some group.id) c.app ∧
        c = scored py ar agents group c.app ∧ passes th c = true := by
  rw [passing, List.mem_filter, List.mem_map]
  constructor
  · intro ⟨⟨⟨app, n⟩, hmem, heq⟩, hpass⟩
    obtain ⟨hpos, hn⟩ := mem_inGroup.mp hmem
    simp only [dfOf_frequencies hmem] at heq
    subst heq hn
    exact ⟨hpos, rfl, hpass⟩
  · intro ⟨hpos, heq, hpass⟩
    have hmem := mem_inGroup.mpr ⟨hpos, rfl⟩
    refine ⟨⟨(c.app, _), hmem, ?_⟩, hpass⟩
    simp only [dfOf_frequencies hmem]
    exact heq.symm

theorem mem_gated :
    app ∈ gated py ar th agents group ↔
      0 < occurrences py agents (fun r => r.groupId = some group.id) app ∧
        passes th (scored py ar agents group app) = true := by
  rw [gated, List.mem_map]
  constructor
  · intro ⟨c, hc, happ⟩
    obtain ⟨hpos, heq, hpass⟩ := mem_passing.mp hc
    rw [happ] at hpos heq
    exact ⟨hpos, heq ▸ hpass⟩
  · intro ⟨hpos, hpass⟩
    exact ⟨scored py ar agents group app, mem_passing.mpr ⟨hpos, rfl, hpass⟩, rfl⟩

theorem passes_iff : passes th c = true ↔
    th.coverageMin ≤ c.groupCoverage ∧ c.outsideCoverage ≤ th.outsideMax ∧
      th.liftMin ≤ c.lift := by
  simp [passes, and_assoc]

theorem Arithmetic.rnd_mem_unit {x : ℚ} (h0 : 0 ≤ x) (h1 : x ≤ 1) :
    0 ≤ ar.rnd x ∧ ar.rnd x ≤ 1 :=
  ⟨ar.zero ▸ ar.mono h0, (ar.mono h1).trans_eq ar.one⟩

theorem ratio_mem_unit {k n : Nat} (h : k ≤ n) : 0 ≤ ar.rnd (k / n) ∧ ar.rnd (k / n) ≤ 1 :=
  Arithmetic.rnd_mem_unit (by positivity)
    (div_le_one_of_le₀ (Nat.cast_le.mpr h) (Nat.cast_nonneg n))

theorem coverageInGroup_mem_unit :
    0 ≤ coverageInGroup py ar agents gid app ∧ coverageInGroup py ar agents gid app ≤ 1 :=
  ratio_mem_unit List.countP_le_length

theorem coverageOutside_mem_unit :
    0 ≤ coverageOutside py ar agents gid app ∧ coverageOutside py ar agents gid app ≤ 1 := by
  rw [coverageOutside]
  split
  · exact ⟨le_rfl, zero_le_one⟩
  · exact ratio_mem_unit List.countP_le_length

/-- What the score of a name is where its counts are true. -/
structure TrueScore (py : Python) (ar : Arithmetic) (agents : List AgentRow) (gid : String)
    (c : Candidate) : Prop where
  inside : c.agentCountInGroup = countInGroup py agents gid c.app
  outside : c.agentCountOutside = countOutside py agents gid c.app
  groupCoverage : c.groupCoverage = coverageInGroup py ar agents gid c.app
  outsideCoverage : c.outsideCoverage = coverageOutside py ar agents gid c.app
  lift : c.lift = liftOf py ar agents gid c.app

theorem outsideCount_scored (hid : group.id ≠ "") :
    (scored py ar agents group app).agentCountOutside =
      occurrences py agents (fun r => r.isGrouped && r.groupId != some group.id) app +
        occurrences py agents (fun r => r.groupId = some "") app := by
  have hdf := @occurrences_split py agents group.id app hid
  have hout : (scored py ar agents group app).agentCountOutside =
      occurrences py agents (fun r => r.groupId.isSome) app -
        occurrences py agents (fun r => r.groupId = some group.id) app := rfl
  rw [hout, hdf, Nat.add_sub_cancel_left]

theorem TrueCounts.score (h : TrueCounts py agents group.id app) (hg : group ∈ groupsOf agents) :
    TrueScore py ar agents group.id (scored py ar agents group app) := by
  obtain ⟨hid, hcount, -⟩ := mem_groupsOf hg
  have hout : (scored py ar agents group app).agentCountOutside =
      countOutside py agents group.id app := (outsideCount_scored hid).trans h.outside
  have hin := h.inside
  have hdf : occurrences py agents (fun r => r.groupId.isSome) app =
      countInGroup py agents group.id app + countOutside py agents group.id app := by
    rw [occurrences_split hid, h.outside, hin]
  have hfleet : ((groupsOf agents).map GroupInfo.count).sum =
      (membersOf agents group.id).length + (outsidersOf agents group.id).length :=
    sum_groupsOf.trans (length_grouped hid)
  have hcoverage : (scored py ar agents group app).groupCoverage =
      coverageInGroup py ar agents group.id app := by
    rw [coverageInGroup, ← hin, ← hcount]
    rfl
  have hbase : ar.rnd ((occurrences py agents (fun r => r.groupId.isSome) app : Nat) /
      (((groupsOf agents).map GroupInfo.count).sum : Nat)) =
        baseRate py ar agents group.id app := by
    rw [baseRate, hdf, sum_groupsOf]
  have hrest : ((groupsOf agents).map GroupInfo.count).sum - group.count =
      (outsidersOf agents group.id).length := by omega
  refine ⟨hin, hout, hcoverage, ?_, ?_⟩
  · have hoc : (scored py ar agents group app).outsideCoverage =
        if 0 < ((groupsOf agents).map GroupInfo.count).sum - group.count then
          ar.rnd (((scored py ar agents group app).agentCountOutside : Nat) /
            (((groupsOf agents).map GroupInfo.count).sum - group.count : Nat))
        else 0 := rfl
    rw [hoc, hrest, hout, coverageOutside]
    by_cases hnil : outsidersOf agents group.id = []
    · rw [if_pos hnil, hnil, List.length_nil, if_neg (Nat.lt_irrefl 0)]
    · rw [if_neg hnil, if_pos (List.length_pos_iff.mpr hnil)]
      rfl
  · have hlift : (scored py ar agents group app).lift =
        if 0 < ar.rnd ((occurrences py agents (fun r => r.groupId.isSome) app : Nat) /
            (((groupsOf agents).map GroupInfo.count).sum : Nat)) then
          min (ar.rnd ((scored py ar agents group app).groupCoverage /
            ar.rnd ((occurrences py agents (fun r => r.groupId.isSome) app : Nat) /
              (((groupsOf agents).map GroupInfo.count).sum : Nat)))) liftCap
        else 0 := rfl
    rw [hlift, hbase, hcoverage, liftOf]
    rfl

end Gate

section Markers

variable {py : Python} {ar : Arithmetic} {th : Thresholds} {agents : List AgentRow}
variable {group : GroupInfo} {p : AutoFingerprintProposal} {m : ProposedMarker} {c : Candidate}

theorem exists_passing (hp : p ∈ generateProposals py ar th agents)
    (hm : m ∈ p.proposedMarkers) :
    ∃ group ∈ groupsOf agents, ∃ c ∈ passing ar th (frequencies py agents)
        ((groupsOf agents).map GroupInfo.count).sum group,
      p.groupId = group.id ∧
        m = proposedMarker ar th (frequencies py agents)
          ((groupsOf agents).map GroupInfo.count).sum (groupsOf agents) group.id c := by
  rw [generateProposals] at hp
  by_cases hnone : ((groupsOf agents).map GroupInfo.count).sum = 0 ∨ groupsOf agents = []
  · rw [if_pos hnone] at hp
    exact absurd hp List.not_mem_nil
  · rw [if_neg hnone, sortBy, List.mem_insertionSort] at hp
    obtain ⟨group, hg, hproposal⟩ := List.mem_map.mp hp
    rw [← hproposal] at hm ⊢
    obtain ⟨c, hc, hmarker⟩ := List.mem_map.mp hm
    have hpassing := List.mem_of_mem_take hc
    rw [sortBy, List.mem_insertionSort] at hpassing
    exact ⟨group, hg, c, hpassing, rfl, hmarker.symm⟩

theorem exists_proposed (hg : group ∈ groupsOf agents)
    (hc : c ∈ passing ar th (frequencies py agents) ((groupsOf agents).map GroupInfo.count).sum
      group)
    (hroom : ((frequencies py agents).inGroup group.id).length ≤ th.topK) :
    ∃ p ∈ generateProposals py ar th agents, p.groupId = group.id ∧
      proposedMarker ar th (frequencies py agents) ((groupsOf agents).map GroupInfo.count).sum
        (groupsOf agents) group.id c ∈ p.proposedMarkers := by
  obtain ⟨-, hcount, hne⟩ := mem_groupsOf hg
  have hsome : ¬(((groupsOf agents).map GroupInfo.count).sum = 0 ∨ groupsOf agents = []) := by
    rintro (hzero | hnil)
    · have hle : group.count ≤ ((groupsOf agents).map GroupInfo.count).sum :=
        List.single_le_sum (fun n _ => Nat.zero_le n) _ (List.mem_map_of_mem hg)
      have hpos := List.length_pos_iff.mpr hne
      omega
    · exact List.ne_nil_of_mem hg hnil
  have hall : ((sortBy (fun c : Candidate => -c.lift) (passing ar th (frequencies py agents)
      ((groupsOf agents).map GroupInfo.count).sum group))).length ≤ th.topK := by
    rw [sortBy, List.length_insertionSort]
    exact ((List.length_filter_le _ _).trans_eq (List.length_map ..)).trans hroom
  refine ⟨proposal ar th (frequencies py agents) ((groupsOf agents).map GroupInfo.count).sum
    (groupsOf agents) group, ?_, rfl, List.mem_map_of_mem ?_⟩
  · rw [generateProposals, if_neg hsome, sortBy, List.mem_insertionSort]
    exact List.mem_map_of_mem hg
  · rw [groupCandidates, List.take_of_length_le hall, sortBy, List.mem_insertionSort]
    exact hc

def thresholdsOf (c : Candidate) (topK : Nat) : Thresholds where
  coverageMin := c.groupCoverage
  outsideMax := c.outsideCoverage
  liftMin := c.lift
  topK := topK

theorem trueCounts_of_proportions (h : ∀ th, TrueProportions py ar th agents) {gid app : String}
    (hgid : gid ≠ "")
    (hpos : 0 < occurrences py agents (fun r => r.groupId = some gid) app) :
    TrueCounts py agents gid app := by
  obtain ⟨r, hr, hgroup, -⟩ := occurrences_pos_iff.mp hpos
  obtain ⟨group, hg, rfl⟩ := exists_mem_groupsOf hr (of_decide_eq_true hgroup) hgid
  let th := thresholdsOf (scored py ar agents group app)
    ((frequencies py agents).inGroup group.id).length
  have hpass : passes th (scored py ar agents group app) = true :=
    passes_iff.mpr ⟨le_rfl, le_rfl, le_rfl⟩
  have hc : scored py ar agents group app ∈ passing ar th (frequencies py agents)
      ((groupsOf agents).map GroupInfo.count).sum group :=
    mem_passing.mpr ⟨hpos, rfl, hpass⟩
  obtain ⟨p, hp, hid, hm⟩ := exists_proposed hg hc le_rfl
  obtain ⟨hin, hout⟩ := (h th).counts p hp _ hm
  rw [hid] at hin hout
  have hscored := @outsideCount_scored py ar agents group app hgid
  exact ⟨hin, hscored.symm.trans hout⟩

theorem CountedOnce.trueProportions (h : CountedOnce py agents) :
    TrueProportions py ar th agents := by
  have hscore : ∀ group ∈ groupsOf agents, ∀ app,
      0 < occurrences py agents (fun r => r.groupId = some group.id) app →
      TrueScore py ar agents group.id (scored py ar agents group app) := fun group hg app hpos =>
    (h.trueCounts (mem_groupsOf hg).1 hpos).score hg
  constructor
  · intro p hp m hm
    obtain ⟨group, hg, c, hc, hid, rfl⟩ := exists_passing hp hm
    obtain ⟨hpos, heq, -⟩ := mem_passing.mp hc
    have htrue := hscore group hg c.app hpos
    rw [← heq] at htrue
    rw [hid]
    exact ⟨htrue.inside, htrue.outside⟩
  · intro p hp m hm
    obtain ⟨group, hg, c, hc, -, rfl⟩ := exists_passing hp hm
    obtain ⟨hpos, heq, -⟩ := mem_passing.mp hc
    have htrue := hscore group hg c.app hpos
    rw [← heq] at htrue
    have hrounded : ∀ x : ℚ, 0 ≤ x ∧ x ≤ 1 →
        0 ≤ ar.rnd (roundTo 4 x) ∧ ar.rnd (roundTo 4 x) ≤ 1 := fun x hx =>
      Arithmetic.rnd_mem_unit (roundTo_mem_unit hx.1 hx.2).1 (roundTo_mem_unit hx.1 hx.2).2
    exact ⟨hrounded _ (htrue.groupCoverage ▸ coverageInGroup_mem_unit),
      hrounded _ (htrue.outsideCoverage ▸ coverageOutside_mem_unit)⟩
  · intro group hg app
    rw [mem_gated, countInGroup_pos_iff]
    refine and_congr_right fun hpos => ?_
    have htrue : TrueScore py ar agents group.id (scored py ar agents group app) :=
      hscore group hg app hpos
    rw [passes_iff, htrue.groupCoverage, htrue.outsideCoverage, htrue.lift]
    rfl

/-- For all thresholds the statistics are true proportions if and only if every name is counted
once for an agent, and none for an agent with an empty group id. -/
theorem proportions_are_true_iff (py : Python) (ar : Arithmetic) (agents : List AgentRow) :
    (∀ th, TrueProportions py ar th agents) ↔ CountedOnce py agents :=
  ⟨fun h => countedOnce_of_trueCounts fun _ _ hgid hpos => trueCounts_of_proportions h hgid hpos,
    fun h _ => h.trueProportions⟩

def exactArithmetic : Arithmetic where
  rnd x := x
  mono := monotone_id
  zero := rfl
  one := rfl
  sum := List.sum
  title s := s

def labAndOffice : List AgentRow :=
  [{ groupId := some "lab", installedAppNames := some ["java 8.0.1", "java 8.0.2"] },
    { groupId := some "office", installedAppNames := some [] }]

/-- The one agent of the lab that has Java is counted as two. -/
theorem two_versions_are_two_agents :
    ¬TrueProportions plainPython exactArithmetic {} labAndOffice := by
  intro h
  have hjava : ∃ p ∈ generateProposals plainPython exactArithmetic {} labAndOffice,
      ∃ m ∈ p.proposedMarkers, p.groupId = "lab" ∧ m.normalizedName = "java" ∧
        m.agentCountInGroup = 2 := by decide +kernel
  obtain ⟨p, hp, m, hm, hid, hname, htwo⟩ := hjava
  have hcount := (h.counts p hp m hm).1
  rw [hid, hname, htwo] at hcount
  have hone : countInGroup plainPython labAndOffice "lab" "java" = 1 := by decide +kernel
  omega

end Markers

end Sentora.Fingerprints.Proposals
