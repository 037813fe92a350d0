import Sentora.Sync.Isolation

/-!
# The names of the applications on the agents

When `installed_app_names` is what the active applications say, over the runs of the
agents and apps phases of one source.

The agents phase replaces the document of an agent by one without names.  The apps
phase gives names to the agents that have an active application, and leaves those of
the others.
-/

namespace Sentora.Sync

open Lib Process CrowdStrike

def Installed (w : World) (agentId name : String) : Prop :=
  ∃ d ∈ w.installedApps, d.isActive = true ∧ d.agentId = agentId ∧ d.normalizedName = name

def NamesOf (w : World) (a : AgentDoc) : Prop :=
  ∀ name, name ∈ a.installedAppNames.getD [] ↔ name ≠ "" ∧ Installed w a.sourceId name

def NamesKept (w : World) : Prop := ∀ a ∈ w.agents, NamesOf w a

def Named (w : World) (agentId : String) : Prop := ∃ name, name ≠ "" ∧ Installed w agentId name

theorem mem_groupNames {isOf : AppDoc → Bool} {apps : List AppDoc} {names : AgentNames} :
    names ∈ groupNames isOf apps → ∀ name, name ∈ names.2 ↔
      ∃ d ∈ apps, isOf d = true ∧ d.isActive = true ∧ d.agentId = names.1 ∧
        d.normalizedName = name := by
  intro h name
  obtain ⟨agentId, -, rfl⟩ := List.mem_map.mp h
  simp [and_assoc, and_left_comm]

theorem exists_groupNames {isOf : AppDoc → Bool} {apps : List AppDoc} {d : AppDoc} (hd : d ∈ apps)
    (hisOf : isOf d = true) (hactive : d.isActive = true) :
    ∃ names ∈ groupNames isOf apps, names.1 = d.agentId := by
  refine ⟨_, List.mem_map_of_mem (List.mem_dedup.mpr (List.mem_map_of_mem ?_)), rfl⟩
  rw [List.mem_filter, hisOf, hactive]
  exact ⟨hd, rfl⟩

def OneAgentEach (agents : Collection AgentDoc.id) : Prop :=
  ∀ a ∈ agents, ∀ b ∈ agents, a.sourceId = b.sourceId → a = b

section NameAgents

variable {isOf : AgentDoc → Bool} {agents : Collection AgentDoc.id} {a : AgentDoc}

def AgentDoc.nameIf (names : AgentNames) (a : AgentDoc) : AgentDoc :=
  if a.sourceId = names.1 then a.setNames names.2 else a

@[simp] theorem AgentDoc.nameIf_sourceId (names : AgentNames) (a : AgentDoc) :
    (a.nameIf names).sourceId = a.sourceId := by
  unfold nameIf
  split <;> rfl

theorem AgentDoc.setNames_nameIf (names : AgentNames) (last : List String) (a : AgentDoc) :
    (a.nameIf names).setNames last = a.setNames last := by
  unfold nameIf
  split <;> rfl

/-- Where the agents of a kind are all that there are. -/
structure AllOf (isOf : AgentDoc → Bool) (agents : Collection AgentDoc.id) : Prop where
  one : OneAgentEach agents
  kind : ∀ a ∈ agents, isOf a = true
  set : ∀ a names, isOf (AgentDoc.setNames names a) = isOf a

theorem AllOf.mem_nameAgent {names : AgentNames} (h : AllOf isOf agents) :
    a ∈ nameAgent isOf agents names ↔ ∃ b ∈ agents, b.nameIf names = a := by
  refine (Collection.mem_updateOne_iff fun b hb c hc hpb hpc => ?_).trans ?_
  · simp only [Bool.and_eq_true, beq_iff_eq] at hpb hpc
    exact h.one b hb c hc (hpb.2.trans hpc.2.symm)
  · refine exists_congr fun b => and_congr_right fun hb => ?_
    simp [h.kind b hb, AgentDoc.nameIf]

theorem AllOf.nameAgent (h : AllOf isOf agents) (names : AgentNames) :
    AllOf isOf (nameAgent isOf agents names) where
  one a ha b hb hid := by
    obtain ⟨a', ha', rfl⟩ := h.mem_nameAgent.mp ha
    obtain ⟨b', hb', rfl⟩ := h.mem_nameAgent.mp hb
    rw [AgentDoc.nameIf_sourceId, AgentDoc.nameIf_sourceId] at hid
    rw [h.one a' ha' b' hb' hid]
  kind a ha := by
    obtain ⟨b, hb, rfl⟩ := h.mem_nameAgent.mp ha
    unfold AgentDoc.nameIf
    split
    · rw [h.set]
      exact h.kind b hb
    · exact h.kind b hb
  set := h.set

theorem AllOf.mem_nameAgents {groups : List AgentNames} (hall : AllOf isOf agents)
    (h : a ∈ nameAgents isOf agents groups) :
    ∃ b ∈ agents, (a = b ∧ ∀ names ∈ groups, names.1 = b.sourceId → names.1 = "") ∨
      ∃ names ∈ groups, names.1 = b.sourceId ∧ a = b.setNames names.2 := by
  induction groups generalizing agents with
  | nil => exact ⟨a, h, Or.inl ⟨rfl, List.forall_mem_nil _⟩⟩
  | cons names groups ih =>
    by_cases hempty : names.1 = ""
    · rw [nameAgents_skip hempty] at h
      obtain ⟨b, hb, ⟨heq, hnone⟩ | ⟨last, hlast, hid, heq⟩⟩ := ih hall h
      · refine ⟨b, hb, Or.inl ⟨heq, fun other hother hid => ?_⟩⟩
        rcases List.mem_cons.mp hother with rfl | hrest
        · exact hempty
        · exact hnone other hrest hid
      · exact ⟨b, hb, Or.inr ⟨last, List.mem_cons_of_mem _ hlast, hid, heq⟩⟩
    · rw [nameAgents_cons hempty] at h
      obtain ⟨b, hb, hresult⟩ := ih (hall.nameAgent names) h
      obtain ⟨c, hc, rfl⟩ := hall.mem_nameAgent.mp hb
      simp only [AgentDoc.nameIf_sourceId, AgentDoc.setNames_nameIf] at hresult
      refine ⟨c, hc, ?_⟩
      rcases hresult with ⟨heq, hnone⟩ | ⟨last, hlast, hid, heq⟩
      · by_cases hthis : c.sourceId = names.1
        · rw [AgentDoc.nameIf, if_pos hthis] at heq
          exact Or.inr ⟨names, List.mem_cons_self, hthis.symm, heq⟩
        · rw [AgentDoc.nameIf, if_neg hthis] at heq
          refine Or.inl ⟨heq, fun other hother hid => ?_⟩
          rcases List.mem_cons.mp hother with rfl | hrest
          · exact absurd hid.symm hthis
          · exact hnone other hrest hid
      · exact Or.inr ⟨last, List.mem_cons_of_mem _ hlast, hid, heq⟩

end NameAgents

theorem namesKept_of_groups {w t : World} {isApp : AppDoc → Bool} {isOf : AgentDoc → Bool}
    {groups : List AgentNames} (hall : AllOf isOf w.agents)
    (hisApp : ∀ d ∈ t.installedApps, isApp d = true)
    (hagents : t.agents = nameAgents isOf w.agents groups)
    (hgroups : groups <+: groupNames isApp t.installedApps.docs)
    (hother : ∀ a ∈ w.agents, (∀ names ∈ groups, names.1 = a.sourceId → names.1 = "") →
      NamesOf t a) : NamesKept t := by
  intro a ha
  rw [hagents] at ha
  obtain ⟨b, hb, ⟨rfl, hnone⟩ | ⟨names, hnames, hid, rfl⟩⟩ := hall.mem_nameAgents ha
  · exact hother a hb hnone
  · intro name
    have hname := mem_groupNames (hgroups.subset hnames) name
    show name ∈ names.2.filter (fun n => n ≠ "") ↔ _
    rw [List.mem_filter, hname, hid, and_comm, decide_eq_true_eq]
    refine and_congr_right fun _ => exists_congr fun d => and_congr_right fun hd => ?_
    rw [hisApp d hd]
    exact and_iff_right rfl

inductive EdrSource where
  | sentinelone | crowdstrike

def EdrSource.name : EdrSource → String
  | .sentinelone => Sync.sentinelone
  | .crowdstrike => CrowdStrike.crowdstrike

inductive FleetPhase where
  | agents | apps

def EdrSource.program (py : Python) (pages : Nat) : EdrSource → FleetPhase → Mode → Phase Unit
  | .sentinelone, .agents => Sync.agentsPhase py pages
  | .sentinelone, .apps => Sync.appsPhase py pages
  | .crowdstrike, .agents => CrowdStrike.agentsPhase py pages
  | .crowdstrike, .apps => CrowdStrike.appsPhase py pages

/-- An agent of the source under its id, stored no later than now. -/
structure AgentFits (py : Python) (source : EdrSource) (now : Nat) (a : AgentDoc) : Prop where
  origin : a.source = some source.name
  id : a.id = canonicalId py source.name ("agent:" ++ a.sourceId)
  stamp : ∀ t, a.syncedAt = some t → t ≤ now

/-- An application of the source, stored no later than now. -/
structure AppFits (source : EdrSource) (now : Nat) (d : AppDoc) : Prop where
  origin : d.source = some source.name
  synced : ∀ t, d.syncedAt = some t → t ≤ now
  lastSynced : ∀ t, d.lastSyncedAt = some t → t ≤ now

/-- What the phases of one source store. -/
structure Database (py : Python) (source : EdrSource) (w : World) : Prop where
  agents : ∀ a ∈ w.agents, AgentFits py source w.now a
  apps : ∀ d ∈ w.installedApps, AppFits source w.now d

/-- Between two runs the time passes, and whatever else is not an agent or an
application may change. -/
structure Between (w v : World) : Prop where
  agents : v.agents = w.agents
  apps : v.installedApps = w.installedApps
  clock : v.clock = w.clock
  readings : w.readings < v.readings

/-- Completed runs of the two phases, one after the other, each of which meets a
condition on the world in which it starts. -/
inductive Runs (py : Python) (source : EdrSource) (good : FleetPhase → Mode → World → Prop)
    (w : World) : World → Prop where
  | none : Runs py source good w w
  | run {u v t : World} {pages : Nat} (phase : FleetPhase) (mode : Mode)
    (before : Runs py source good w u) (between : Between u v) (meets : good phase mode v)
    (enough : PagesForAll pages v) (returns : Returns (source.program py pages phase mode) v () t) :
    Runs py source good w t

/-- An agent that has names keeps an active application: one that the run lists for
it, or an old one that is neither listed nor, in a full sync, stamped.  No update of
names fails. -/
structure StaysNamed (docs : List AppDoc) (mode : Mode) (w : World) : Prop where
  updates : true ∉ w.nameFaults
  ids : ∀ a ∈ w.agents, a.sourceId ≠ ""
  apps : ∀ a ∈ w.agents, a.installedAppNames.getD [] ≠ [] →
    (DistinctApps docs ∧ ∃ d ∈ docs, d.agentId = a.sourceId) ∨
    ∃ d ∈ w.installedApps, d.isActive = true ∧ d.agentId = a.sourceId ∧
      d.id ∉ docs.map AppDoc.id ∧ (mode = .full → d.lastSyncedAt = none)

/-- The agents phase stores no agent that has a named application, apart from those
that it removes with their applications, or it removes all applications.  The apps
phase stores and marks nothing, or leaves an application to every agent with names. -/
def KeepsNames (py : Python) : EdrSource → FleetPhase → Mode → World → Prop
  | .sentinelone, .agents, mode, w => ∀ raw ∈ agentsFetched mode w,
    toString raw.id ∈ removedIds mode w ∨ ¬Named w (toString raw.id)
  | .sentinelone, .apps, mode, w => appsMode mode w ≠ .full ∨ StaysNamed [] (appsMode mode w) w
  | .crowdstrike, .agents, mode, w =>
    ((hostsRun mode w).mode = .full ∧ ∃ a ∈ w.agents,
      a.id ∉ (hostsDocs py mode w).map AgentDoc.id) ∨
      ∀ host ∈ hostsFetched mode w, ¬Named w host.deviceId
  | .crowdstrike, .apps, mode, w => some CsError.discoverNotLicensed ∉ w.csFaults ∧
    ((appDocs py mode w = [] ∧ csAppsMode mode w ≠ .full) ∨
      StaysNamed (appDocs py mode w) (csAppsMode mode w) w)

/-- Where a run starts, no stamp is of the present. -/
structure Ready (py : Python) (source : EdrSource) (w : World) :
    Prop extends Database py source w where
  stamped : StampedBefore w
  synced : SyncedBefore w
  fresh : ∀ d ∈ w.installedApps, d.syncedAt ≠ some w.now

section Steps

variable {py : Python} {source : EdrSource} {pages : Nat} {mode : Mode} {w v t : World}

theorem now_mono (hclock : v.clock = w.clock) (hle : w.readings ≤ v.readings) : w.now ≤ v.now := by
  unfold World.now
  rw [hclock]
  exact w.clock.ticks.monotone hle

theorem AgentFits.later {now now' : Nat} {a : AgentDoc} (h : AgentFits py source now a)
    (hle : now ≤ now') : AgentFits py source now' a :=
  ⟨h.origin, h.id, fun s hs => (h.stamp s hs).trans hle⟩

theorem AppFits.later {now now' : Nat} {d : AppDoc} (h : AppFits source now d) (hle : now ≤ now') :
    AppFits source now' d :=
  ⟨h.origin, fun s hs => (h.synced s hs).trans hle, fun s hs => (h.lastSynced s hs).trans hle⟩

theorem Database.oneAgentEach (h : Database py source w) : OneAgentEach w.agents := by
  intro a ha b hb hid
  refine Collection.eq_of_key ha hb ?_
  rw [(h.agents a ha).id, (h.agents b hb).id, hid]

theorem Between.ready (hbetween : Between w v) (h : Database py source w) : Ready py source v := by
  have hlt : w.now < v.now := by
    unfold World.now
    rw [hbetween.clock]
    exact w.clock.ticks hbetween.readings
  have hagents : ∀ a ∈ v.agents, AgentFits py source w.now a := by
    rw [hbetween.agents]
    exact h.agents
  have happs : ∀ d ∈ v.installedApps, AppFits source w.now d := by
    rw [hbetween.apps]
    exact h.apps
  exact {
    agents := fun a ha => (hagents a ha).later hlt.le
    apps := fun d hd => (happs d hd).later hlt.le
    stamped := fun a ha s hs => Nat.lt_of_le_of_lt ((hagents a ha).stamp s hs) hlt
    synced := fun d hd s hs => Nat.lt_of_le_of_lt ((happs d hd).lastSynced s hs) hlt
    fresh := fun d hd hs => absurd ((happs d hd).synced _ hs) (Nat.not_le.mpr hlt) }

theorem Between.namesKept (hbetween : Between w v) (h : NamesKept w) : NamesKept v := by
  intro a ha name
  rw [hbetween.agents] at ha
  unfold Installed
  rw [hbetween.apps]
  exact h a ha name

theorem NamesOf.of_same {a : AgentDoc} (h : NamesOf w a)
    (hsame : ∀ d, d.agentId = a.sourceId → (d ∈ t.installedApps ↔ d ∈ w.installedApps)) :
    NamesOf t a := by
  intro name
  rw [h name]
  refine and_congr_right fun _ => exists_congr fun d => ?_
  constructor
  · exact fun ⟨hd, hrest⟩ => ⟨(hsame d hrest.2.1).mpr hd, hrest⟩
  · exact fun ⟨hd, hrest⟩ => ⟨(hsame d hrest.2.1).mp hd, hrest⟩

theorem namesOf_of_not {a : AgentDoc} (hnone : a.installedAppNames = none)
    (h : ¬Named t a.sourceId) : NamesOf t a := by
  intro name
  rw [hnone]
  refine iff_of_false List.not_mem_nil fun hname => h ⟨name, hname⟩

theorem Named.of_subset {agentId : String} (hsub : ∀ d ∈ t.installedApps, d ∈ w.installedApps)
    (h : Named t agentId) : Named w agentId := by
  obtain ⟨name, hne, d, hd, hrest⟩ := h
  exact ⟨name, hne, d, hsub d hd, hrest⟩

theorem database_agentsDone (h : Ready py .sentinelone w) :
    Database py .sentinelone (agentsDone py mode w) := by
  have hle : w.now ≤ (agentsDone py mode w).now := now_mono rfl (Nat.le_succ _)
  refine ⟨fun a ha => AgentFits.later ?_ hle, fun d hd => ?_⟩
  · rcases Collection.mem_or_mem_of_bulkReplace (Collection.mem_deleteMany.mp ha).1 with hnew | hold
    · obtain ⟨raw, -, rfl⟩ := List.mem_map.mp hnew
      exact ⟨rfl, rfl, fun s hs => (Option.some.inj hs).ge⟩
    · exact h.agents a hold
  · exact (h.apps d (Collection.mem_deleteMany.mp hd).1).later hle

theorem namesKept_agentsDone (h : Ready py .sentinelone w) (hkept : NamesKept w)
    (hgood : KeepsNames py .sentinelone .agents mode w) : NamesKept (agentsDone py mode w) := by
  intro a ha
  obtain ⟨hbulk, hstays⟩ := Collection.mem_deleteMany.mp ha
  have hsub : ∀ d ∈ (agentsDone py mode w).installedApps, d ∈ w.installedApps :=
    fun d hd => (Collection.mem_deleteMany.mp hd).1
  have hunremoved : (agentsRun mode w).mode ≠ .full → a.sourceId ∉ removedIds mode w := by
    intro hnotFull
    unfold AgentsRun.removes at hstays
    rw [if_neg hnotFull, List.contains_eq_mem, decide_eq_false_iff_not] at hstays
    exact hstays
  have hfull : (agentsRun mode w).mode = .full → removedIds mode w = [] := by
    intro hfull
    unfold removedIds agentsSince
    rw [if_pos hfull]
    rfl
  rcases Collection.mem_or_mem_of_bulkReplace hbulk with hnew | hold
  · obtain ⟨raw, hraw, rfl⟩ := List.mem_map.mp hnew
    refine namesOf_of_not rfl fun hnamed => ?_
    rcases hgood raw hraw with hremoved | hnot
    · by_cases hmode : (agentsRun mode w).mode = .full
      · rw [hfull hmode] at hremoved
        exact List.not_mem_nil hremoved
      · exact hunremoved hmode hremoved
    · exact hnot (hnamed.of_subset hsub)
  · -- A full run keeps no agent that it has not stored.
    have hmode : (agentsRun mode w).mode ≠ .full := by
      intro hmode
      unfold AgentsRun.removes at hstays
      rw [if_pos hmode, bne_eq_false_iff_eq] at hstays
      exact lt_irrefl _ (h.stamped a hold _ hstays)
    refine (hkept a hold).of_same fun d hid => ?_
    refine Collection.mem_deleteMany.trans (and_iff_left ?_)
    show (removedIds mode w).contains d.agentId = false
    rw [hid, List.contains_eq_mem, decide_eq_false_iff_not]
    exact hunremoved hmode

theorem database_hostsDone {readings : Nat} (h : Ready py .crowdstrike w)
    (hreadings : w.readings < readings) :
    Database py .crowdstrike (hostsDone py mode w readings) := by
  have hle : w.now ≤ (hostsDone py mode w readings).now := now_mono rfl hreadings.le
  refine ⟨fun a ha => AgentFits.later ?_ hle, fun d hd => AppFits.later (h.apps d ?_) hle⟩
  · have hbulk : a ∈ w.agents.bulkReplace (hostsDocs py mode w) := by
      replace ha : a ∈ keptAgents _ _ := ha
      unfold keptAgents at ha
      split at ha
      · exact (Collection.mem_deleteMany.mp ha).1
      · exact ha
    rcases Collection.mem_or_mem_of_bulkReplace hbulk with hnew | hold
    · obtain ⟨host, -, rfl⟩ := List.mem_map.mp hnew
      exact ⟨rfl, rfl, fun s hs => (Option.some.inj hs).ge⟩
    · exact h.agents a hold
  · replace hd : d ∈ keptApps _ _ _ := hd
    unfold keptApps at hd
    split at hd
    · exact (Collection.mem_deleteMany.mp hd).1
    · exact hd

theorem mem_keptApps {run : AgentsRun} {agents : Collection AgentDoc.id} {d : AppDoc}
    {apps : Collection AppDoc.id} :
    d ∈ keptApps run agents apps ↔ d ∈ apps ∧
      (run.mode = .full → agents.docs.any (staleAgent run.startedAt) = true →
        staleApp run.startedAt d = false) := by
  unfold keptApps
  split
  case isTrue hboth => simp [hboth]
  case isFalse hnot =>
    exact (and_iff_left fun hfull hany => absurd ⟨hfull, hany⟩ hnot).symm

theorem namesKept_hostsDone {readings : Nat} (h : Ready py .crowdstrike w) (hkept : NamesKept w)
    (hgood : KeepsNames py .crowdstrike .agents mode w) :
    NamesKept (hostsDone py mode w readings) := by
  let bulk := w.agents.bulkReplace (hostsDocs py mode w)
  have happs : ∀ d, d ∈ (hostsDone py mode w readings).installedApps ↔ d ∈ w.installedApps ∧
      ((hostsRun mode w).mode = .full → bulk.docs.any (staleAgent w.now) = true →
        staleApp w.now d = false) :=
    fun d => mem_keptApps
  have holdStale : ∀ a ∈ w.agents, staleAgent w.now a = true := by
    intro a ha
    have horigin : isOfSource a.source = true := beq_iff_eq.mpr (h.agents a ha).origin
    have hstamp : (a.syncedAt != some w.now) = true :=
      bne_iff_ne.mpr fun heq => lt_irrefl _ (h.stamped a ha _ heq)
    unfold staleAgent
    rw [horigin, hstamp]
    rfl
  have happStale : ∀ d ∈ w.installedApps, staleApp w.now d = true := by
    intro d hd
    have horigin : isOfSource d.source = true := beq_iff_eq.mpr (h.apps d hd).origin
    have hstamp : (d.syncedAt != some w.now) = true := bne_iff_ne.mpr (h.fresh d hd)
    unfold staleApp
    rw [horigin, hstamp]
    rfl
  intro a ha
  replace ha : a ∈ keptAgents (hostsRun mode w) bulk := ha
  have hbulk : a ∈ bulk ∧ ((hostsRun mode w).mode = .full → staleAgent w.now a = false) := by
    unfold keptAgents at ha
    split at ha
    case isTrue hfull => exact (Collection.mem_deleteMany.mp ha).imp_right fun hstays _ => hstays
    case isFalse hnot => exact ⟨ha, fun hfull => absurd hfull hnot⟩
  rcases Collection.mem_or_mem_of_bulkReplace hbulk.1 with hnew | hold
  · obtain ⟨host, hhost, rfl⟩ := List.mem_map.mp hnew
    refine namesOf_of_not rfl fun hnamed => ?_
    rcases hgood with ⟨hfull, b, hb, hunlisted⟩ | hnot
    · -- An agent is stale, so that no application is left.
      obtain ⟨name, -, d, hd, -⟩ := hnamed
      obtain ⟨hd', hstays⟩ := (happs d).mp hd
      have hany : bulk.docs.any (staleAgent w.now) = true :=
        List.any_eq_true.mpr ⟨b, Collection.mem_bulkReplace_of_other hb hunlisted, holdStale b hb⟩
      rw [happStale d hd'] at hstays
      exact Bool.noConfusion (hstays hfull hany)
    · exact hnot host hhost (hnamed.of_subset fun d hd => ((happs d).mp hd).1)
  · have hnotFull : (hostsRun mode w).mode ≠ .full := by
      intro hfull
      have hstays := hbulk.2 hfull
      rw [holdStale a hold] at hstays
      cases hstays
    refine (hkept a hold).of_same fun d _ => ?_
    rw [happs]
    exact and_iff_left fun hfull => absurd hfull hnotFull

theorem exists_of_mem_marked {isOf : AppDoc → Bool} {startedAt : Nat} {apps : Collection AppDoc.id}
    {d : AppDoc} (h : d ∈ marked mode isOf startedAt apps) :
    ∃ e ∈ apps, d = { e with active := d.active } := by
  unfold marked at h
  split at h
  · obtain ⟨e, he, hed⟩ := mem_reactivated.mp h
    obtain ⟨f, hf, hfe⟩ := mem_deactivated.mp he
    refine ⟨f, hf, ?_⟩
    rw [← hed, ← hfe]
    split <;> split <;> rfl
  · exact ⟨d, h, rfl⟩

theorem mem_marked_of_active {isOf : AppDoc → Bool} {startedAt : Nat} {apps : Collection AppDoc.id}
    {d : AppDoc} (h : d ∈ apps) (hactive : d.isActive = true)
    (hstamp : mode = .full → ∀ s, d.lastSyncedAt = some s → startedAt ≤ s) :
    d ∈ marked mode isOf startedAt apps := by
  by_cases hfull : mode = .full
  · refine mem_marked_of_not mode h ?_ ?_
    · have hfresh : d.lastSyncedAt.any (fun s => decide (s < startedAt)) = false := by
        cases hsome : d.lastSyncedAt with
        | none => rfl
        | some s => simp [hstamp hfull s hsome]
      rw [hfresh, Bool.and_false, Bool.false_and]
    · rw [hactive, Bool.not_true, Bool.and_false]
  · unfold marked
    rw [if_neg hfull]
    exact h

/-- What a run that stores documents and names agents leaves, of either source. -/
structure Renamed (isApp : AppDoc → Bool) (isOf : AgentDoc → Bool) (docs : List AppDoc)
    (mode : Mode)
    (w t : World) : Prop where
  apps : ∃ u, Stored docs w u ∧ t.installedApps = marked mode isApp w.now u.installedApps
  agents : ∃ groups, groups <+: groupNames isApp t.installedApps.docs ∧
    t.agents = nameAgents isOf w.agents groups ∧
    (docs ≠ [] ∨ mode = .full → true ∉ w.nameFaults →
      groups = groupNames isApp t.installedApps.docs)

section Renamed

variable {isApp : AppDoc → Bool} {isOf : AgentDoc → Bool} {docs : List AppDoc}

/-- The documents of a run. -/
structure DocsOf (source : EdrSource) (w : World) (docs : List AppDoc) : Prop where
  fits : ∀ d ∈ docs, AppFits source w.now d
  fresh : ∀ d ∈ docs, d.lastSyncedAt = some w.now
  active : ∀ d ∈ docs, d.isActive = true

theorem Renamed.database (h : Renamed isApp isOf docs mode w t) (hready : Ready py source w)
    (hdocs : DocsOf source w docs) (hall : AllOf isOf w.agents) (hle : w.now ≤ t.now) :
    Database py source t := by
  obtain ⟨u, hstored, happs⟩ := h.apps
  obtain ⟨groups, -, hagents, -⟩ := h.agents
  constructor
  · intro a ha
    rw [hagents] at ha
    obtain ⟨b, hb, ⟨rfl, -⟩ | ⟨names, -, -, rfl⟩⟩ := hall.mem_nameAgents ha
    · exact (hready.agents a hb).later hle
    · obtain ⟨horigin, hid, hstamp⟩ := (hready.agents b hb).later hle
      exact ⟨horigin, hid, hstamp⟩
  · intro d hd
    rw [happs] at hd
    obtain ⟨e, he, heq⟩ := exists_of_mem_marked hd
    have hfits : AppFits source w.now e := by
      rcases hstored.origin e he with hnew | hold
      · exact hdocs.fits e hnew
      · exact hready.apps e hold
    obtain ⟨horigin, hsynced, hlast⟩ := hfits.later hle
    rw [heq]
    exact ⟨horigin, hsynced, hlast⟩

theorem Renamed.namesKept_of_nothing (h : Renamed isApp isOf docs mode w t) (hkept : NamesKept w)
    (hall : AllOf isOf w.agents) (hisApp : ∀ d ∈ t.installedApps, isApp d = true)
    (hdocs : docs = []) (hnotFull : mode ≠ .full) : NamesKept t := by
  obtain ⟨u, hstored, happs⟩ := h.apps
  obtain ⟨groups, hprefix, hagents, -⟩ := h.agents
  refine namesKept_of_groups hall hisApp hagents hprefix fun a ha _ => ?_
  refine (hkept a ha).of_same fun d _ => ?_
  rw [happs, marked, if_neg hnotFull]
  subst hdocs
  constructor
  · exact fun hd => (hstored.origin d hd).resolve_left List.not_mem_nil
  · exact fun hd => hstored.kept d hd List.not_mem_nil

theorem Renamed.namesKept (h : Renamed isApp isOf docs mode w t) (hkept : NamesKept w)
    (hdocs : DocsOf source w docs) (hall : AllOf isOf w.agents)
    (hisApp : ∀ d ∈ t.installedApps, isApp d = true) (hstays : StaysNamed docs mode w) :
    NamesKept t := by
  by_cases hnothing : docs = [] ∧ mode ≠ .full
  · exact h.namesKept_of_nothing hkept hall hisApp hnothing.1 hnothing.2
  · obtain ⟨u, hstored, happs⟩ := h.apps
    obtain ⟨groups, hprefix, hagents, hwhole⟩ := h.agents
    refine namesKept_of_groups hall hisApp hagents hprefix fun a ha hnone => ?_
    have hgroups : groups = groupNames isApp t.installedApps.docs := by
      refine hwhole ?_ hstays.updates
      rcases not_and_or.mp hnothing with hne | hfull
      · exact Or.inl hne
      · exact Or.inr (not_not.mp hfull)
    rw [hgroups] at hnone
    have hgroupless : ∀ d ∈ t.installedApps, d.isActive = true → d.agentId ≠ a.sourceId := by
      intro d hd hactive hid
      obtain ⟨names, hnames, hname⟩ := exists_groupNames hd (hisApp d hd) hactive
      have hempty := hnone names hnames (hname.trans hid)
      exact hstays.ids a ha (hid.symm.trans (hname.symm.trans hempty))
    have hnames : a.installedAppNames.getD [] = [] := by
      by_contra hne
      rcases hstays.apps a ha hne with ⟨hdistinct, d, hd, hid⟩ | ⟨d, hd, hactive, hid, hother, hold⟩
      · refine hgroupless d ?_ (hdocs.active d hd) hid
        rw [happs]
        refine mem_marked_of_active (hstored.listed hdistinct d hd) (hdocs.active d hd) ?_
        intro _ s hs
        rw [hdocs.fresh d hd, Option.some.injEq] at hs
        exact hs.le
      · refine hgroupless d ?_ hactive hid
        rw [happs]
        refine mem_marked_of_active (hstored.kept d hd hother) hactive fun hfull s hs => ?_
        rw [hold hfull] at hs
        cases hs
    intro name
    rw [hnames]
    refine iff_of_false List.not_mem_nil ?_
    rintro ⟨-, d, hd, hactive, hid, -⟩
    exact hgroupless d hd hactive hid

end Renamed

theorem now_le_of_appsChanges (h : AppsChanges w t) : w.now ≤ t.now := by
  have hclock : t.clock = w.clock ∧ w.readings ≤ t.readings := by
    induction h with
    | refl => exact ⟨rfl, le_refl _⟩
    | tail _ hchange ih =>
      cases hchange with
      | tick => exact ⟨ih.1, ih.2.trans (Nat.le_succ _)⟩
      | answer => exact ih
      | clear => exact ih
      | record => exact ih
      | deactivate => exact ih
      | reactivate => exact ih
      | names => exact ih
  exact now_mono hclock.1 hclock.2

theorem now_le_of_csAppsChanges (h : CsAppsChanges py w t) : w.now ≤ t.now := by
  have hclock : t.clock = w.clock ∧ w.readings ≤ t.readings := by
    induction h with
    | refl => exact ⟨rfl, le_refl _⟩
    | tail _ hchange ih =>
      cases hchange with
      | tick => exact ⟨ih.1, ih.2.trans (Nat.le_succ _)⟩
      | answer => exact ih
      | checkpoint => exact ih
      | record => exact ih
      | store => exact ih
      | deactivate => exact ih
      | reactivate => exact ih
      | names => exact ih
  exact now_mono hclock.1 hclock.2

theorem AppsCompleted.renamed (h : AppsCompleted mode w t) :
    Renamed (fun _ => true) (fun _ => true) [] (appsMode mode w) w t where
  apps := by
    refine ⟨w, ⟨⟨rfl, rfl, rfl, List.suffix_rfl, fun d hd => Or.inr hd, fun d hd _ => hd⟩, ?_⟩,
      h.apps⟩
    exact fun _ d hd => absurd hd List.not_mem_nil
  agents := by
    obtain ⟨groups, hprefix, hagents, hall⟩ := h.agents
    refine ⟨groups, hprefix, hagents, fun hnames => hall ?_⟩
    exact Or.inl (hnames.resolve_left fun hne => hne rfl)

theorem docsOf_nil : DocsOf source w [] :=
  ⟨List.forall_mem_nil _, List.forall_mem_nil _,
    List.forall_mem_nil _⟩

theorem docsOf_appDocs : DocsOf .crowdstrike w (appDocs py mode w) := by
  constructor
  · intro d hd
    obtain ⟨raw, -, rfl⟩ := List.mem_map.mp hd
    exact ⟨rfl, fun s hs => (Option.some.inj hs).ge, fun s hs => (Option.some.inj hs).ge⟩
  · intro d hd
    obtain ⟨raw, -, rfl⟩ := List.mem_map.mp hd
    rfl
  · intro d hd
    obtain ⟨raw, -, rfl⟩ := List.mem_map.mp hd
    rfl

theorem allOf_any (h : Database py source w) : AllOf (fun _ => true) w.agents :=
  ⟨h.oneAgentEach, fun _ _ => rfl, fun _ _ => rfl⟩

theorem allOf_crowdstrike (h : Database py .crowdstrike w) :
    AllOf (fun a => isOfSource a.source) w.agents :=
  ⟨h.oneAgentEach, fun a ha => beq_iff_eq.mpr (h.agents a ha).origin, fun _ _ => rfl⟩

theorem namesKept_of_run (hpy : NoNumerals py) (hpages : PagesForAll pages w) {phase : FleetPhase}
    (hready : Ready py source w) (hkept : NamesKept w) (hgood : KeepsNames py source phase mode w)
    (h : Returns (source.program py pages phase mode) w () t) :
    Database py source t ∧ NamesKept t := by
  match source, phase with
  | .sentinelone, .agents =>
    rw [(h.unique (returns_agentsPhase py mode hpages.agents)).2]
    exact ⟨database_agentsDone hready, namesKept_agentsDone hready hkept hgood⟩
  | .sentinelone, .apps =>
    obtain ⟨hchanges, hdone⟩ := (endures_appsPhase mode hpy hpages.apps).of_returns .refl h
    have hall := allOf_any hready.toDatabase
    have hdatabase := hdone.renamed.database hready docsOf_nil hall (now_le_of_appsChanges hchanges)
    refine ⟨hdatabase, ?_⟩
    rcases hgood with hnotFull | hstays
    · exact hdone.renamed.namesKept_of_nothing hkept hall (fun _ _ => rfl) rfl hnotFull
    · have hdocs : DocsOf .sentinelone w [] := docsOf_nil
      exact hdone.renamed.namesKept hkept hdocs hall (fun _ _ => rfl) hstays
  | .crowdstrike, .agents =>
    obtain ⟨readings, hreadings, hdone⟩ := CrowdStrike.returns_agentsPhase py mode hpages.hosts
    rw [(h.unique hdone).2]
    exact ⟨database_hostsDone hready hreadings, namesKept_hostsDone hready hkept hgood⟩
  | .crowdstrike, .apps =>
    obtain ⟨hchanges, hdone⟩ := (CrowdStrike.endures_appsPhase mode).of_returns .refl h
    obtain ⟨happs, hagents⟩ := hdone.resolve_right hgood.1
    have hrenamed : Renamed (fun d => isOfSource d.source) (fun a => isOfSource a.source)
        (appDocs py mode w) (csAppsMode mode w) w t := ⟨happs, hagents⟩
    have hall := allOf_crowdstrike hready.toDatabase
    have hdatabase := hrenamed.database hready docsOf_appDocs hall
      (now_le_of_csAppsChanges hchanges)
    have hisApp : ∀ d ∈ t.installedApps, isOfSource d.source = true :=
      fun d hd => beq_iff_eq.mpr (hdatabase.apps d hd).origin
    refine ⟨hdatabase, ?_⟩
    rcases hgood.2 with ⟨hdocs, hnotFull⟩ | hstays
    · exact hrenamed.namesKept_of_nothing hkept hall hisApp hdocs hnotFull
    · exact hrenamed.namesKept hkept docsOf_appDocs hall hisApp hstays

end Steps

/-- In every sequence of completed runs of the two phases of a source, each of which
leaves an application to the agents with names and stores no agent over its names,
the names are those of the active applications after each of them. -/
theorem names_never_drift (py : Python) (source : EdrSource) (w t : World) (hpy : NoNumerals py)
    (hdatabase : Database py source w) (hkept : NamesKept w)
    (hruns : Runs py source (KeepsNames py source) w t) : NamesKept t := by
  have hboth : Database py source t ∧ NamesKept t := by
    induction hruns with
    | none => exact ⟨hdatabase, hkept⟩
    | run phase mode _ hbetween hgood hpages hreturns ih =>
      exact namesKept_of_run hpy hpages (hbetween.ready ih.1) (hbetween.namesKept ih.2) hgood
        hreturns
  exact hboth.2

def laptop : World :=
  World.fresh .empty
    { CsSource.empty with
      hosts := [{ deviceId := "a1" }]
      apps := [{ id := "x1", hostAid := some "a1", name := some "chrome" }] }

def World.idle (w : World) : World := { w with readings := w.readings + 1 }

def ranOn (phase : FleetPhase) (mode : Mode) (w : World) : World :=
  (Process.run (EdrSource.program plainPython 2 .crowdstrike phase mode).run w.idle).1

theorem Runs.ranOn {good : FleetPhase → Mode → World → Prop} {w u : World} (phase : FleetPhase)
    (mode : Mode) (before : Runs plainPython .crowdstrike good w u) (meets : good phase mode u.idle)
    (enough : PagesForAll 2 u.idle)
    (completes :
      (Process.run (EdrSource.program plainPython 2 .crowdstrike phase mode).run u.idle).2 =
        .ok ()) :
    Runs plainPython .crowdstrike good w (ranOn phase mode u) := by
  have hidle : Between u u.idle := ⟨rfl, rfl, rfl, Nat.lt_succ_self _⟩
  exact before.run phase mode hidle meets enough (Prod.ext rfl completes)

theorem database_laptop : Database plainPython .crowdstrike laptop :=
  ⟨fun _ ha => absurd ha Collection.not_mem_empty, fun _ hd => absurd hd Collection.not_mem_empty⟩

theorem namesKept_laptop : NamesKept laptop := fun _ ha => absurd ha Collection.not_mem_empty

/-- The agent is stored, and then its application with its name. -/
theorem apps_sync_names_laptop : NamesKept (ranOn .apps .full (ranOn .agents .full laptop)) := by
  have hagents : ∀ a ∈ (ranOn .agents .full laptop).agents.docs,
      a.sourceId ≠ "" ∧ a.installedAppNames.getD [] = [] := by decide +kernel
  have hfirst : Runs plainPython .crowdstrike (KeepsNames plainPython .crowdstrike) laptop
      (ranOn .agents .full laptop) := by
    refine Runs.none.ranOn .agents .full (Or.inr ?_) (by decide +kernel) (by decide +kernel)
    rintro host - ⟨name, -, d, hd, -⟩
    exact absurd hd Collection.not_mem_empty
  refine names_never_drift plainPython .crowdstrike laptop _ noNumerals_plainPython database_laptop
    namesKept_laptop (hfirst.ranOn .apps .full ⟨?_, Or.inr ⟨?_, ?_, ?_⟩⟩ (by decide +kernel)
      (by decide +kernel))
  · show some CsError.discoverNotLicensed ∉ (ranOn .agents .full laptop).csFaults
    decide +kernel
  · show true ∉ (ranOn .agents .full laptop).nameFaults
    decide +kernel
  · exact fun a ha => (hagents a ha).1
  · exact fun a ha hne => absurd (hagents a ha).2 hne

/-- The next sync of the agents takes the names away. -/
theorem agents_sync_drops_names : Database plainPython .crowdstrike laptop ∧ NamesKept laptop ∧
    ∃ t, Runs plainPython .crowdstrike (fun _ _ _ => True) laptop t ∧ ¬NamesKept t := by
  refine ⟨database_laptop, namesKept_laptop,
    ranOn .agents .full (ranOn .apps .full (ranOn .agents .full laptop)), ?_, fun hkept => ?_⟩
  · have hfirst : Runs plainPython .crowdstrike (fun _ _ _ => True) laptop
        (ranOn .agents .full laptop) :=
      Runs.none.ranOn .agents .full trivial (by decide +kernel) (by decide +kernel)
    have hsecond : Runs plainPython .crowdstrike (fun _ _ _ => True) laptop
        (ranOn .apps .full (ranOn .agents .full laptop)) :=
      hfirst.ranOn .apps .full trivial (by decide +kernel) (by decide +kernel)
    exact hsecond.ranOn .agents .full trivial (by decide +kernel) (by decide +kernel)
  · let last := ranOn .agents .full (ranOn .apps .full (ranOn .agents .full laptop))
    have hagent : ∃ a ∈ last.agents.docs, a.sourceId = "a1" ∧ a.installedAppNames = none := by
      decide +kernel
    have happ : ∃ d ∈ last.installedApps.docs, d.isActive = true ∧ d.agentId = "a1" ∧
        d.normalizedName = "chrome" := by
      decide +kernel
    obtain ⟨a, ha, hid, hnone⟩ := hagent
    have hname : "chrome" ∈ a.installedAppNames.getD [] := by
      rw [hkept a ha "chrome", hid]
      exact ⟨by decide, happ⟩
    rw [hnone] at hname
    exact List.not_mem_nil hname

end Sentora.Sync
