import Sentora.CrowdStrike.Apps
import Sentora.Sync.FullAgents
import Sentora.Sync.FullApps

/-!
# Isolation of the sources

Which documents of the other sources a completed run of a phase leaves alone.

The phases of CrowdStrike ask for their source wherever they delete, deactivate or
give names.  Those of SentinelOne do not.
-/

namespace Sentora.Sync

open Lib Process CrowdStrike

section Keeps

variable {δ : Type} {key : δ → String}

def KeepsOthers (sourceOf : δ → Option String) (source : String) (c c' : Collection key) : Prop :=
  ∀ d ∈ c, sourceOf d ≠ some source → d ∈ c'

variable {sourceOf : δ → Option String} {source : String} {c c' c'' : Collection key}

theorem KeepsOthers.refl : KeepsOthers sourceOf source c c := fun _ hd _ => hd

def IdsApart (py : Python) (sourceOf : δ → Option String) (source : String) (c : Collection key) :
    Prop :=
  ∀ d ∈ c, sourceOf d ≠ some source → ∀ sourceId, key d ≠ canonicalId py source sourceId

theorem IdsApart.not_mem {py : Python} (h : IdsApart py sourceOf source c) {docs : List δ}
    (hdocs : ∀ e ∈ docs, ∃ sourceId, key e = canonicalId py source sourceId) {d : δ} (hd : d ∈ c)
    (hsource : sourceOf d ≠ some source) : key d ∉ docs.map key := by
  intro hmem
  obtain ⟨e, he, hkey⟩ := List.mem_map.mp hmem
  obtain ⟨sourceId, hid⟩ := hdocs e he
  exact h d hd hsource sourceId (hkey.symm.trans hid)

/-- What a listing leaves of a document that it does not name. -/
theorem mem_listed_iff {isOf : δ → Bool} {docs : List δ} {d : δ} (hd : d ∈ c)
    (hkey : key d ∉ docs.map key) : d ∈ listed isOf docs c ↔ docs = [] ∨ isOf d = false := by
  unfold listed
  by_cases hdocs : docs ≠ []
  · have hstays := Collection.mem_bulkReplace_of_other hd hkey
    have hcontains : (docs.map key).contains (key d) = false := by
      rw [List.contains_eq_mem, decide_eq_false hkey]
    rw [if_pos hdocs, Collection.mem_deleteMany, hcontains]
    simp [hdocs, hstays]
  · rw [if_neg hdocs]
    exact iff_of_true hd (Or.inl (not_not.mp hdocs))

theorem keepsOthers_listed_iff (docs : List δ)
    (hids : ∀ d ∈ c, sourceOf d ≠ some source → key d ∉ docs.map key) :
    KeepsOthers sourceOf source c (listed (fun _ => true) docs c) ↔
      docs = [] ∨ ∀ d ∈ c, sourceOf d = some source := by
  constructor
  · intro hkeeps
    refine or_iff_not_imp_left.mpr fun hdocs d hd => ?_
    by_contra hsource
    rcases (mem_listed_iff hd (hids d hd hsource)).mp (hkeeps d hd hsource) with hnil | hfalse
    · exact hdocs hnil
    · cases hfalse
  · intro h d hd hsource
    rcases h with hnil | hall
    · exact (mem_listed_iff hd (hids d hd hsource)).mpr (Or.inl hnil)
    · exact absurd (hall d hd) hsource

end Keeps

structure Unchanged (source : String) (w t : World) : Prop where
  sites : KeepsOthers SiteDoc.source source w.sites t.sites
  groups : KeepsOthers GroupDoc.source source w.groups t.groups
  agents : KeepsOthers AgentDoc.source source w.agents t.agents
  apps : KeepsOthers AppDoc.source source w.installedApps t.installedApps
  tags : KeepsOthers TagDoc.source source w.sourceTags t.sourceTags

/-- No document of another source is deleted, replaced or deactivated: an agent may
be given names, and an application may be activated. -/
structure Isolated (source : String) (w t : World) : Prop where
  sites : KeepsOthers SiteDoc.source source w.sites t.sites
  groups : KeepsOthers GroupDoc.source source w.groups t.groups
  agents : ∀ d ∈ w.agents, d.source ≠ some source →
    ∃ e ∈ t.agents, e = { d with installedAppNames := e.installedAppNames }
  apps : ∀ d ∈ w.installedApps, d.source ≠ some source →
    ∃ e ∈ t.installedApps, e = { d with active := e.active } ∧
      (d.isActive = true → e.isActive = true)
  tags : KeepsOthers TagDoc.source source w.sourceTags t.sourceTags

theorem Unchanged.refl (source : String) (w : World) : Unchanged source w w :=
  ⟨.refl, .refl, .refl, .refl, .refl⟩

structure SourceIds (py : Python) (source : String) (w : World) : Prop where
  sites : IdsApart py SiteDoc.source source w.sites
  groups : IdsApart py GroupDoc.source source w.groups
  agents : IdsApart py AgentDoc.source source w.agents
  apps : IdsApart py AppDoc.source source w.installedApps
  tags : IdsApart py TagDoc.source source w.sourceTags

section CrowdStrikePhases

variable {py : Python} {pages : Nat} {w v v' t : World}

theorem keepsOthers_bulkReplace {δ : Type} {key : δ → String} {sourceOf : δ → Option String}
    {source : String} {c₀ c : Collection key} {docs : List δ}
    (hids : IdsApart py sourceOf source c₀)
    (hdocs : ∀ e ∈ docs, ∃ sourceId, key e = canonicalId py source sourceId)
    (h : KeepsOthers sourceOf source c₀ c) : KeepsOthers sourceOf source c₀ (c.bulkReplace docs) :=
  fun d hd hsource =>
    Collection.mem_bulkReplace_of_other (h d hd hsource) (hids.not_mem hdocs hd hsource)

theorem isOfSource_eq_false {source : Option String} (h : source ≠ some crowdstrike) :
    isOfSource source = false := beq_eq_false_iff_ne.mpr h

theorem Unchanged.step {startedAt : Nat}
    (hids : IdsApart py AppDoc.source crowdstrike w.installedApps)
    (h : Unchanged crowdstrike w v) (hchange : CsAppsChange py startedAt v v') :
    Unchanged crowdstrike w v' := by
  cases hchange with
  | tick => exact ⟨h.sites, h.groups, h.agents, h.apps, h.tags⟩
  | answer => exact ⟨h.sites, h.groups, h.agents, h.apps, h.tags⟩
  | checkpoint => exact ⟨h.sites, h.groups, h.agents, h.apps, h.tags⟩
  | record => exact ⟨h.sites, h.groups, h.agents, h.apps, h.tags⟩
  | store apps =>
    refine ⟨h.sites, h.groups, h.agents, keepsOthers_bulkReplace hids (fun e he => ?_) h.apps,
      h.tags⟩
    obtain ⟨raw, -, rfl⟩ := List.mem_map.mp he
    exact ⟨_, rfl⟩
  | deactivate =>
    refine ⟨h.sites, h.groups, h.agents, fun d hd hsource => ?_, h.tags⟩
    refine mem_deactivated.mpr ⟨d, h.apps d hd hsource, ?_⟩
    simp [isOfSource_eq_false hsource]
  | reactivate =>
    refine ⟨h.sites, h.groups, h.agents, fun d hd hsource => ?_, h.tags⟩
    refine mem_reactivated.mpr ⟨d, h.apps d hd hsource, ?_⟩
    simp [isOfSource_eq_false hsource]
  | names failed names =>
    refine ⟨h.sites, h.groups, fun d hd hsource => ?_, h.apps, h.tags⟩
    show d ∈ (if failed then v.agents else nameAgent _ v.agents names)
    cases failed with
    | true => exact h.agents d hd hsource
    | false =>
      refine mem_nameAgent_of_not (h.agents d hd hsource) ?_
      rw [isOfSource_eq_false hsource]
      rfl

theorem unchanged_csAppsPhase
    (hids : IdsApart py AppDoc.source crowdstrike w.installedApps)
    (h : CsAppsChanges py w t) : Unchanged crowdstrike w t := by
  induction h with
  | refl => exact Unchanged.refl crowdstrike w
  | tail _ hchange ih => exact ih.step hids hchange

theorem unchanged_hostsDone {mode : Mode} {readings : Nat} (hids : SourceIds py crowdstrike w) :
    Unchanged crowdstrike w (hostsDone py mode w readings) := by
  have hstored : KeepsOthers AgentDoc.source crowdstrike w.agents
      (w.agents.bulkReplace (hostsDocs py mode w)) := by
    refine keepsOthers_bulkReplace hids.agents (fun e he => ?_) .refl
    obtain ⟨host, -, rfl⟩ := List.mem_map.mp he
    exact ⟨_, rfl⟩
  refine ⟨.refl, .refl, fun d hd hsource => ?_, fun d hd hsource => ?_, .refl⟩
  · show d ∈ keptAgents _ _
    unfold keptAgents
    by_cases hfull : (hostsRun mode w).mode = .full
    · rw [if_pos hfull, Collection.mem_deleteMany]
      refine ⟨hstored d hd hsource, ?_⟩
      unfold staleAgent
      rw [isOfSource_eq_false hsource]
      rfl
    · rw [if_neg hfull]
      exact hstored d hd hsource
  · show d ∈ keptApps _ _ _
    unfold keptApps
    split
    · rw [Collection.mem_deleteMany]
      refine ⟨hd, ?_⟩
      unfold staleApp
      rw [isOfSource_eq_false hsource]
      rfl
    · exact hd

theorem unchanged_csGroupsDone (hids : SourceIds py crowdstrike w) :
    Unchanged crowdstrike w (CrowdStrike.groupsDone py w) := by
  refine ⟨.refl, fun d hd hsource => ?_, .refl, .refl, .refl⟩
  refine (mem_listed_iff hd (hids.groups.not_mem (fun e he => ?_) hd hsource)).mpr
    (Or.inr (isOfSource_eq_false hsource))
  obtain ⟨raw, -, rfl⟩ := List.mem_map.mp he
  exact ⟨_, rfl⟩

end CrowdStrikePhases

inductive S1Phase where
  | sites | groups | agents | apps | tags

inductive CsPhase where
  | groups | agents | apps

def S1Phase.program (py : Python) (pages : Nat) : S1Phase → Mode → Phase Unit
  | .sites => sitesPhase py pages
  | .groups => Sync.groupsPhase py pages
  | .agents => Sync.agentsPhase py pages
  | .apps => Sync.appsPhase py pages
  | .tags => tagsPhase py pages

def CsPhase.program (py : Python) (pages : Nat) : CsPhase → Mode → Phase Unit
  | .groups => CrowdStrike.groupsPhase py
  | .agents => CrowdStrike.agentsPhase py pages
  | .apps => CrowdStrike.appsPhase py pages

def removedIds (mode : Mode) (w : World) : List String :=
  w.s1.decommissionedIds (agentsSince mode w)

/-- What the clean-up of a phase would hit is of SentinelOne. -/
def S1Phase.Spares (mode : Mode) (w : World) : S1Phase → Prop
  | .sites => w.s1.sites = [] ∨ ∀ d ∈ w.sites, d.source = some sentinelone
  | .groups => groupsMode mode w ≠ .full ∨ groupsFetched mode w = [] ∨
      ∀ d ∈ w.groups, d.source = some sentinelone
  | .agents =>
    (∀ d ∈ w.agents, d.source ≠ some sentinelone →
      (agentsRun mode w).mode ≠ .full ∧ d.sourceId ∉ removedIds mode w) ∧
    ∀ d ∈ w.installedApps, d.source ≠ some sentinelone → d.agentId ∉ removedIds mode w
  | .apps => appsMode mode w ≠ .full ∨ ∀ d ∈ w.installedApps, d.source ≠ some sentinelone →
      d.isActive = true → d.lastSyncedAt = none
  | .tags => w.s1.tags = [] ∨ ∀ d ∈ w.sourceTags, d.source = some sentinelone

section S1Phases

variable {py : Python} {pages : Nat} {mode : Mode} {w t : World}

theorem isolated_sitesDone_iff (hids : SourceIds py sentinelone w) :
    Isolated sentinelone w (sitesDone py w) ↔ S1Phase.sites.Spares mode w := by
  have hsites := keepsOthers_listed_iff (w.s1.sites.map (normalizeSite py))
    fun d hd => hids.sites.not_mem (fun e he => by
      obtain ⟨raw, -, rfl⟩ := List.mem_map.mp he
      exact ⟨_, rfl⟩) hd
  rw [List.map_eq_nil_iff] at hsites
  refine Iff.trans ⟨fun h => h.sites, fun h => ?_⟩ hsites
  exact ⟨h, .refl, fun d hd _ => ⟨d, hd, rfl⟩, fun d hd _ => ⟨d, hd, rfl, id⟩, .refl⟩

theorem isolated_tagsDone_iff (hids : SourceIds py sentinelone w) :
    Isolated sentinelone w (tagsDone py w) ↔ S1Phase.tags.Spares mode w := by
  have htags := keepsOthers_listed_iff (w.s1.tags.map fun raw => normalizeTag py raw w.now)
    fun d hd => hids.tags.not_mem (fun e he => by
      obtain ⟨raw, -, rfl⟩ := List.mem_map.mp he
      exact ⟨_, rfl⟩) hd
  rw [List.map_eq_nil_iff] at htags
  refine Iff.trans ⟨fun h => h.tags, fun h => ?_⟩ htags
  exact ⟨.refl, .refl, fun d hd _ => ⟨d, hd, rfl⟩, fun d hd _ => ⟨d, hd, rfl, id⟩, h⟩

theorem isolated_groupsDone_iff (hids : SourceIds py sentinelone w) :
    Isolated sentinelone w (Sync.groupsDone py mode w) ↔ S1Phase.groups.Spares mode w := by
  have hdocs : ∀ e ∈ groupsDocs py mode w, ∃ sourceId,
    e.id = canonicalId py sentinelone sourceId := by
    intro e he
    obtain ⟨raw, -, rfl⟩ := List.mem_map.mp he
    exact ⟨_, rfl⟩
  have hgroups : KeepsOthers GroupDoc.source sentinelone w.groups
      (Sync.groupsDone py mode w).groups ↔ S1Phase.groups.Spares mode w := by
    show KeepsOthers _ _ _ (if groupsMode mode w = .full then _ else _) ↔ _ ∨ _
    by_cases hfull : groupsMode mode w = .full
    · have hlisted := keepsOthers_listed_iff (groupsDocs py mode w)
        fun d hd => hids.groups.not_mem hdocs hd
      have hnil : groupsDocs py mode w = [] ↔ groupsFetched mode w = [] := List.map_eq_nil_iff
      rw [if_pos hfull, hlisted, hnil]
      simp [hfull]
    · rw [if_neg hfull]
      exact iff_of_true (keepsOthers_bulkReplace hids.groups hdocs .refl) (Or.inl hfull)
  refine Iff.trans ⟨fun h => h.groups, fun h => ?_⟩ hgroups
  exact ⟨.refl, h, fun d hd _ => ⟨d, hd, rfl⟩, fun d hd _ => ⟨d, hd, rfl, id⟩, .refl⟩

theorem isolated_agentsDone_iff (hids : SourceIds py sentinelone w) (hpast : StampedBefore w) :
    Isolated sentinelone w (agentsDone py mode w) ↔ S1Phase.agents.Spares mode w := by
  have hdocs : ∀ e ∈ agentsDocs py mode w, ∃ sourceId,
    e.id = canonicalId py sentinelone sourceId := by
    intro e he
    obtain ⟨raw, -, rfl⟩ := List.mem_map.mp he
    exact ⟨_, rfl⟩
  have hstored := keepsOthers_bulkReplace hids.agents hdocs (c := w.agents) .refl
  -- An agent of another source stays where the run does not remove it.
  have hremoves : ∀ d ∈ w.agents, (agentsRun mode w).removes (removedIds mode w) d = false ↔
      (agentsRun mode w).mode ≠ .full ∧ d.sourceId ∉ removedIds mode w := by
    intro d hd
    unfold AgentsRun.removes
    by_cases hfull : (agentsRun mode w).mode = .full
    · rw [if_pos hfull]
      refine iff_of_false ?_ fun h => h.1 hfull
      rw [bne_eq_false_iff_eq]
      exact fun hstamp => lt_irrefl _ (hpast d hd w.now hstamp)
    · rw [if_neg hfull, List.contains_eq_mem, decide_eq_false_iff_not]
      simp [hfull]
  constructor
  · intro h
    refine ⟨fun d hd hsource => ?_, fun d hd hsource => ?_⟩
    · obtain ⟨e, he, heq⟩ := h.agents d hd hsource
      obtain ⟨hbulk, hremove⟩ := Collection.mem_deleteMany.mp he
      have hid : e.id = d.id := by rw [heq]
      have hsame : e = d := Collection.eq_of_key hbulk (hstored d hd hsource) hid
      rw [hsame] at hremove
      exact (hremoves d hd).mp hremove
    · obtain ⟨e, he, heq, -⟩ := h.apps d hd hsource
      obtain ⟨hold, hremove⟩ := Collection.mem_deleteMany.mp he
      have hid : e.id = d.id := by rw [heq]
      rw [Collection.eq_of_key hold hd hid, List.contains_eq_mem,
        decide_eq_false_iff_not] at hremove
      exact hremove
  · rintro ⟨hagents, happs⟩
    refine ⟨.refl, .refl, fun d hd hsource => ⟨d, ?_, rfl⟩, fun d hd hsource => ⟨d, ?_, rfl, id⟩,
      .refl⟩
    · exact Collection.mem_deleteMany.mpr
        ⟨hstored d hd hsource, (hremoves d hd).mpr (hagents d hd hsource)⟩
    · refine Collection.mem_deleteMany.mpr ⟨hd, ?_⟩
      rw [List.contains_eq_mem, decide_eq_false_iff_not]
      exact happs d hd hsource

theorem AppsChanges.rest (h : AppsChanges w t) :
    t.sites = w.sites ∧ t.groups = w.groups ∧ t.sourceTags = w.sourceTags := by
  induction h with
  | refl => exact ⟨rfl, rfl, rfl⟩
  | tail _ hchange ih => cases hchange <;> exact ih

theorem exists_nameAgents {isOf : AgentDoc → Bool} {groups : List AgentNames} {d : AgentDoc}
    {agents : Collection AgentDoc.id} (h : d ∈ agents) :
    ∃ e ∈ nameAgents isOf agents groups,
      e = { d with installedAppNames := e.installedAppNames } := by
  unfold nameAgents
  generalize groups.filter _ = named
  induction named generalizing d agents with
  | nil => exact ⟨d, h, rfl⟩
  | cons names named ih =>
    rcases mem_nameAgent_of_mem names h with hin | hin
    · exact ih hin
    · obtain ⟨e, he, heq⟩ := ih hin
      exact ⟨e, he, heq⟩

theorem isolated_apps_iff (hpast : SyncedBefore w) (hchanges : AppsChanges w t)
    (hdone : AppsCompleted mode w t) :
    Isolated sentinelone w t ↔ S1Phase.apps.Spares mode w := by
  obtain ⟨hsites, hgroups, htags⟩ := hchanges.rest
  constructor
  · intro h
    refine or_iff_not_imp_left.mpr fun hfull d hd hsource hactive => ?_
    obtain ⟨e, he, heq, hstays⟩ := h.apps d hd hsource
    have hstamp : e.lastSyncedAt = d.lastSyncedAt := by rw [heq]
    rw [hdone.apps, not_not.mp hfull] at he
    cases hsome : d.lastSyncedAt with
    | none => rfl
    | some s =>
      have hle := stamp_of_mem_marked he (hstays hactive) (hstamp.trans hsome)
      exact absurd (hpast d hd s hsome) (Nat.not_lt.mpr hle)
  · intro h
    refine ⟨?_, ?_, fun d hd _ => ?_, fun d hd hsource => ⟨d, ?_, rfl, id⟩, ?_⟩
    · rw [hsites]
      exact .refl
    · rw [hgroups]
      exact .refl
    · obtain ⟨groups, -, hagents, -⟩ := hdone.agents
      rw [hagents]
      exact exists_nameAgents hd
    · rw [hdone.apps]
      rcases h with hnotFull | hnone
      · unfold marked
        rw [if_neg hnotFull]
        exact hd
      · refine mem_marked_of_not _ hd ?_ ?_
        · by_cases hactive : d.isActive = true
          · rw [hnone d hd hsource hactive]
            rfl
          · rw [Bool.not_eq_true] at hactive
            rw [hactive, Bool.and_false]
        · cases hsome : d.lastSyncedAt with
          | none => rfl
          | some s => simp [Nat.not_le.mpr (hpast d hd s hsome)]
    · rw [htags]
      exact .refl

end S1Phases

/-- Enough pages for every listing. -/
structure PagesForAll (pages : Nat) (w : World) : Prop where
  sites : w.s1.sites.length < pages
  groups : w.s1.groups.length < pages
  agents : EnoughPages pages w
  apps : w.s1.apps.length < pages
  tags : w.s1.tags.length < pages
  hosts : w.cs.hosts.length < pages

instance (pages : Nat) (w : World) : Decidable (PagesForAll pages w) :=
  decidable_of_iff (w.s1.sites.length < pages ∧ w.s1.groups.length < pages ∧
      (w.s1.agents.length < pages ∧ w.s1.decommissioned.length < pages) ∧
      w.s1.apps.length < pages ∧ w.s1.tags.length < pages ∧ w.cs.hosts.length < pages)
    ⟨fun ⟨sites, groups, agents, apps, tags, hosts⟩ => ⟨sites, groups, agents, apps, tags, hosts⟩,
      fun h => ⟨h.sites, h.groups, h.agents, h.apps, h.tags, h.hosts⟩⟩

/-- A completed run of a phase of SentinelOne leaves the other sources alone if and
only if its clean-up hits nothing of theirs.  The phases of CrowdStrike always do. -/
theorem source_isolation_iff (py : Python) (pages : Nat) (w : World) (hpy : NoNumerals py)
    (hpages : PagesForAll pages w) (hs1 : SourceIds py sentinelone w)
    (hcs : SourceIds py crowdstrike w) (hstamped : StampedBefore w) (hsynced : SyncedBefore w) :
    (∀ (phase : S1Phase) (mode : Mode) (t : World),
      Returns (phase.program py pages mode) w () t →
        (Isolated sentinelone w t ↔ phase.Spares mode w)) ∧
    ∀ (phase : CsPhase) (mode : Mode) (t : World),
      Returns (phase.program py pages mode) w () t → Unchanged crowdstrike w t := by
  constructor
  · intro phase mode t ht
    cases phase with
    | sites =>
      rw [(ht.unique (returns_sitesPhase hpages.sites)).2]
      exact isolated_sitesDone_iff hs1
    | groups =>
      rw [(ht.unique (returns_groupsPhase hpages.groups)).2]
      exact isolated_groupsDone_iff hs1
    | agents =>
      rw [(ht.unique (returns_agentsPhase py mode hpages.agents)).2]
      exact isolated_agentsDone_iff hs1 hstamped
    | apps =>
      obtain ⟨hchanges, hdone⟩ := (endures_appsPhase mode hpy hpages.apps).of_returns .refl ht
      exact isolated_apps_iff hsynced hchanges hdone
    | tags =>
      rw [(ht.unique (returns_tagsPhase py mode hpages.tags)).2]
      exact isolated_tagsDone_iff hs1
  · intro phase mode t ht
    cases phase with
    | groups =>
      rw [(ht.unique CrowdStrike.returns_groupsPhase).2]
      exact unchanged_csGroupsDone hcs
    | agents =>
      obtain ⟨readings, -, hdone⟩ := CrowdStrike.returns_agentsPhase py mode hpages.hosts
      rw [(ht.unique hdone).2]
      exact unchanged_hostsDone hcs
    | apps =>
      obtain ⟨hchanges, -⟩ := (CrowdStrike.endures_appsPhase mode).of_returns .refl ht
      exact unchanged_csAppsPhase hcs.apps hchanges

def fleetAgent : AgentDoc :=
  { id := canonicalId plainPython crowdstrike "agent:a1", source := some crowdstrike
    sourceId := "a1", hostname := "host" }

/-- One agent of CrowdStrike, and nothing at SentinelOne. -/
def fleet : World :=
  { World.fresh .empty .empty with agents := Collection.empty.replaceOne fleetAgent }

theorem mem_fleet {d : AgentDoc} : d ∈ fleet.agents ↔ d = fleetAgent := by
  show d ∈ Collection.empty.replaceOne fleetAgent ↔ _
  simp

theorem stampedBefore_fleet : StampedBefore fleet := by
  intro d hd t ht
  rw [mem_fleet.mp hd] at ht
  cases ht

theorem syncedBefore_fleet : SyncedBefore fleet := fun _ hd => absurd hd Collection.not_mem_empty

theorem sourceIds_fleet (source : String) (h : source = sentinelone ∨ source = crowdstrike) :
    SourceIds plainPython source fleet := by
  have hagents : IdsApart plainPython AgentDoc.source source fleet.agents := by
    intro d hd hsource sourceId hid
    rw [mem_fleet.mp hd] at hsource hid
    rcases h with rfl | rfl
    · have hchars := congrArg String.toList hid
      simp [fleetAgent, canonicalId, plainPython, crowdstrike, sentinelone] at hchars
    · exact hsource rfl
  exact ⟨fun _ hd => absurd hd Collection.not_mem_empty,
    fun _ hd => absurd hd Collection.not_mem_empty, hagents,
    fun _ hd => absurd hd Collection.not_mem_empty, fun _ hd => absurd hd Collection.not_mem_empty⟩

theorem pagesForAll_fleet : PagesForAll 1 fleet :=
  ⟨by decide, by decide, ⟨by decide, by decide⟩, by decide, by decide, by decide⟩

/-- A sync of the tags leaves the fleet alone. -/
theorem tags_sync_spares_fleet :
    ∃ t, Returns (S1Phase.tags.program plainPython 1 .full) fleet () t ∧
      Isolated sentinelone fleet t := by
  have hreturns := returns_tagsPhase plainPython .full pagesForAll_fleet.tags
  refine ⟨_, hreturns, ?_⟩
  exact ((source_isolation_iff plainPython 1 fleet noNumerals_plainPython pagesForAll_fleet
    (sourceIds_fleet _ (Or.inl rfl)) (sourceIds_fleet _ (Or.inr rfl)) stampedBefore_fleet
    syncedBefore_fleet).1 .tags .full _ hreturns).mpr (Or.inl rfl)

/-- A full sync of the agents of SentinelOne erases it. -/
theorem agents_sync_erases_fleet :
    ∃ t, Returns (S1Phase.agents.program plainPython 1 .full) fleet () t ∧
      ¬Isolated sentinelone fleet t := by
  refine ⟨_, returns_agentsPhase plainPython .full pagesForAll_fleet.agents, fun h => ?_⟩
  have hspares :=
    (isolated_agentsDone_iff (sourceIds_fleet _ (Or.inl rfl)) stampedBefore_fleet).mp h
  have hother : fleetAgent.source ≠ some sentinelone := by decide
  exact (hspares.1 fleetAgent (mem_fleet.mpr rfl) hother).1 rfl

end Sentora.Sync
