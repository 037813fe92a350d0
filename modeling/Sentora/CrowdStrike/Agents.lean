import Sentora.Sync.Agents
import Sentora.Sync.Listings

/-!
# The groups and agents phases of CrowdStrike

`CSGroupsPhaseRunner` and `CSAgentsPhaseRunner` of
`domains/sources/crowdstrike/sync_groups.py` and `sync_agents.py`.
-/

namespace Sentora.CrowdStrike

open Lib Process Sync

/-- `query_combined_host_groups` with its limit. -/
def queryHostGroups : Phase (List CsGroup) :=
  liftM (Process.read (SyncOp.api "/devices/combined/host-groups") fun w : World =>
    w.cs.groups.take 500)

def isOfSource (source : Option String) : Bool := source == some crowdstrike

def syncGroups (py : Python) : Phase Unit := do
  let startedAt ← utcNow
  let groups ← queryHostGroups
  let docs := groups.map (normalizeGroup py)
  storeListing groupStore docs
  removeUnlisted groupStore (fun d => isOfSource d.source) docs
  updateMeta crowdstrike fun m => { m with groupsSyncedAt := some startedAt }

def groupsPhase (py : Python) (mode : Mode) : Phase Unit :=
  trigger "cs_groups" (fun _ => syncGroups py) mode

def groupsDone (py : Python) (w : World) : World :=
  { w.setCheckpoint "cs_groups" none with
    groups := listed (fun d => isOfSource d.source)
      ((w.cs.groups.take 500).map (normalizeGroup py)) w.groups
    syncMeta := Function.update w.syncMeta crowdstrike
      { w.syncMeta crowdstrike with groupsSyncedAt := some w.now }
    readings := w.readings + 1 }

theorem returns_groupsPhase {py : Python} {mode : Mode} {w : World} :
    Returns (groupsPhase py mode) w () (groupsDone py w) := by
  let ticked : World := { w with readings := w.readings + 1 }
  unfold groupsPhase
  rw [returns_trigger]
  exact returns_bind.mpr ⟨(), _, returns_bind.mpr ⟨w.now, ticked, returns_lift.mpr rfl,
    returns_bind.mpr ⟨_, ticked, returns_lift.mpr rfl,
    returns_bind.mpr ⟨(), _, returns_storeListing,
    returns_bind.mpr ⟨(), _, returns_removeUnlisted, returns_lift.mpr rfl⟩⟩⟩⟩,
    returns_lift.mpr rfl⟩

/-- A batch of hosts.  The total comes with the first batch only. -/
structure HostBatch where
  total : Nat
  hosts : List CsHost

structure HostsLoop where
  buffer : List AgentDoc
  synced : Nat
  total : Nat

def loadGroupNameMap : Phase (String → Option String) :=
  liftM (Process.read (SyncOp.find .groups) fun w : World =>
    nameMap GroupDoc.sourceId GroupDoc.name (w.groups.docs.filter fun d => isOfSource d.source))

/-- The hosts modified after a time, where `modified_timestamp` is asked for. -/
def hostsSince (cs : CsSource) (since : Option Nat) : List CsHost :=
  cs.hosts.filter fun h => since.all fun t => decide (t < h.modifiedTimestamp)

def scrollHosts (since : Option Nat) (cursor : Option Nat) : Phase (Page HostBatch Nat) :=
  liftM (Process.read (SyncOp.api "/devices") fun w : World =>
    let page := w.cs.hostSplit.page (hostsSince w.cs since) cursor
    let total := if cursor.isNone then (hostsSince w.cs since).length else 0
    ⟨page.items.map fun hosts => ⟨total, hosts⟩, page.next⟩)

def hostDoc (py : Python) (run : AgentsRun) (host : CsHost) : AgentDoc :=
  { normalizeHost py host run.groupNameMap with syncedAt := some run.startedAt }

/-- A full buffer is written, and the checkpoint carries the time after that. -/
def flushHosts (run : AgentsRun) (l : HostsLoop) : Phase HostsLoop :=
  if 500 ≤ l.buffer.length then do
    flushAgents l.buffer
    let lastBatchAt ← utcNow
    saveCheckpoint "cs_agents"
      { synced := l.synced + l.buffer.length
        total := l.total
        mode := some run.mode
        resumeTimestamp := some lastBatchAt }
    pure { l with buffer := [], synced := l.synced + l.buffer.length }
  else pure l

def syncHosts (py : Python) (run : AgentsRun) (l : HostsLoop) (batch : HostBatch) :
    Phase HostsLoop :=
  flushHosts run
    { l with
      buffer := l.buffer ++ batch.hosts.map (hostDoc py run)
      total := if 0 < batch.total ∧ l.total = 0 then batch.total else l.total }

def staleAgent (startedAt : Nat) (d : AgentDoc) : Bool :=
  isOfSource d.source && d.syncedAt != some startedAt

def staleApp (startedAt : Nat) (d : AppDoc) : Bool :=
  isOfSource d.source && d.syncedAt != some startedAt

def removeStaleHosts (startedAt : Nat) : Phase Unit := do
  let deleted ← liftM (Process.atomic (SyncOp.write .agents) fun w : World =>
    ({ w with agents := w.agents.deleteMany (staleAgent startedAt) },
      w.agents.docs.any (staleAgent startedAt)))
  if deleted then
    liftM (Process.write (SyncOp.write .installedApps) fun w : World =>
      { w with installedApps := w.installedApps.deleteMany (staleApp startedAt) })
  else pure ()

def removeHosts (run : AgentsRun) : Phase Unit :=
  if run.mode = .full then removeStaleHosts run.startedAt else pure ()

def finishHosts (run : AgentsRun) (l : HostsLoop) : Phase Unit := do
  flushRest l.buffer
  removeHosts run
  updateMeta crowdstrike fun m => { m with agentsSyncedAt := some run.startedAt }

/-- The time after which hosts are asked for. -/
def hostFilter (args : RunArgs) (checkpoint : Option Checkpoint) (mode : Mode)
    (lastSyncAt : Option Nat) : Option Nat :=
  match checkpoint.bind Checkpoint.resumeTimestamp with
  | some t => if args.isResume then some t else if mode = .full then none else lastSyncAt
  | none => if mode = .full then none else lastSyncAt

def syncAgents (py : Python) (pages : Nat) (args : RunArgs) : Phase Unit := do
  let startedAt ← utcNow
  let groupNameMap ← loadGroupNameMap
  let syncMeta ← loadMeta crowdstrike
  let mode := resolveMode args.mode syncMeta.agentsSyncedAt
  let checkpoint ← checkMode "cs_agents" mode args
  let run : AgentsRun := ⟨groupNameMap, startedAt, mode⟩
  let since := hostFilter args checkpoint mode syncMeta.agentsSyncedAt
  let l ← scan (fun _ cursor => scrollHosts since cursor) (syncHosts py run)
    (fun _ => SyncError.unfinished) pages none
    ⟨[], (checkpoint.map Checkpoint.synced).getD 0, (checkpoint.map Checkpoint.total).getD 0⟩
  finishHosts run l

def agentsPhase (py : Python) (pages : Nat) (mode : Mode) : Phase Unit :=
  trigger "cs_agents" (syncAgents py pages) mode

def hostsRun (mode : Mode) (w : World) : AgentsRun where
  groupNameMap :=
    nameMap GroupDoc.sourceId GroupDoc.name (w.groups.docs.filter fun d => isOfSource d.source)
  startedAt := w.now
  mode := resolveMode (startArgs "cs_agents" mode w).mode (w.syncMeta crowdstrike).agentsSyncedAt

def hostsCheckpoint (mode : Mode) (w : World) : Option Checkpoint :=
  (startArgs "cs_agents" mode w).usable (hostsRun mode w).mode

def hostsFetched (mode : Mode) (w : World) : List CsHost :=
  hostsSince w.cs (hostFilter (startArgs "cs_agents" mode w) (hostsCheckpoint mode w)
    (hostsRun mode w).mode (w.syncMeta crowdstrike).agentsSyncedAt)

def hostsDocs (py : Python) (mode : Mode) (w : World) : List AgentDoc :=
  (hostsFetched mode w).map (hostDoc py (hostsRun mode w))

def keptAgents (run : AgentsRun) (agents : Collection AgentDoc.id) : Collection AgentDoc.id :=
  if run.mode = .full then agents.deleteMany (staleAgent run.startedAt) else agents

def keptApps (run : AgentsRun) (agents : Collection AgentDoc.id) (apps : Collection AppDoc.id) :
    Collection AppDoc.id :=
  if run.mode = .full ∧ agents.docs.any (staleAgent run.startedAt) = true then
    apps.deleteMany (staleApp run.startedAt)
  else apps

def hostsDone (py : Python) (mode : Mode) (w : World) (readings : Nat) : World :=
  let agents := w.agents.bulkReplace (hostsDocs py mode w)
  { w.setCheckpoint "cs_agents" none with
    agents := keptAgents (hostsRun mode w) agents
    installedApps := keptApps (hostsRun mode w) agents w.installedApps
    syncMeta := Function.update w.syncMeta crowdstrike
      { w.syncMeta crowdstrike with agentsSyncedAt := some w.now }
    readings := readings }

section Loop

variable {py : Python} {run : AgentsRun} {w : World}

def scrolling (w : World) (agents : Collection AgentDoc.id) (checkpoint : Option Checkpoint)
    (readings : Nat) : World :=
  { w.setCheckpoint "cs_agents" checkpoint with agents := agents, readings := readings }

theorem returns_flushHosts (run : AgentsRun) (l : HostsLoop) (agents : Collection AgentDoc.id)
    (checkpoint : Option Checkpoint) (readings : Nat) :
    ∃ l' agents' checkpoint' readings',
      Returns (flushHosts run l) (scrolling w agents checkpoint readings) l'
        (scrolling w agents' checkpoint' readings') ∧
      agents'.bulkReplace l'.buffer = agents.bulkReplace l.buffer ∧ readings ≤ readings' := by
  unfold flushHosts
  by_cases hfull : 500 ≤ l.buffer.length
  · rw [if_pos hfull]
    let flushed := scrolling w (agents.bulkReplace l.buffer) checkpoint readings
    let saved : Checkpoint :=
      { synced := l.synced + l.buffer.length
        total := l.total
        mode := some run.mode
        resumeTimestamp := some flushed.now }
    refine ⟨{ l with buffer := [], synced := l.synced + l.buffer.length },
      agents.bulkReplace l.buffer, some saved, readings + 1, ?_, rfl, Nat.le_succ readings⟩
    refine returns_bind.mpr ⟨(), flushed, returns_lift.mpr rfl,
      returns_bind.mpr ⟨flushed.now, { flushed with readings := readings + 1 },
      returns_lift.mpr rfl, returns_bind.mpr ⟨(), _, returns_lift.mpr rfl,
      returns_pure.mpr ⟨rfl, ?_⟩⟩⟩⟩
    simp [scrolling, flushed, World.setCheckpoint, saved]
  · rw [if_neg hfull]
    exact ⟨l, agents, checkpoint, readings, returns_pure.mpr ⟨rfl, rfl⟩, rfl, le_refl _⟩

theorem returns_scan_hosts {pages : Nat} (py : Python) (run : AgentsRun) {l : HostsLoop}
    (checkpoint : Option Checkpoint) (readings : Nat) (since : Option Nat)
    (hpages : w.cs.hosts.length < pages) (hl : l.buffer = []) :
    ∃ l' agents' checkpoint' readings',
      Returns (scan (fun _ cursor => scrollHosts since cursor) (syncHosts py run)
        (fun _ => SyncError.unfinished) pages none l) (scrolling w w.agents checkpoint readings) l'
        (scrolling w agents' checkpoint' readings') ∧
      agents'.bulkReplace l'.buffer =
        w.agents.bulkReplace ((hostsSince w.cs since).map (hostDoc py run)) ∧
      readings ≤ readings' := by
  let hosts := hostsSince w.cs since
  have hlength : (w.cs.hostSplit.rest hosts none).length < pages := by
    have hbatches := w.cs.hostSplit.length_le hosts
    have hsince : hosts.length ≤ w.cs.hosts.length := List.length_filter_le _ _
    show ((w.cs.hostSplit.batches hosts).drop 0).length < pages
    rw [List.drop_zero]
    omega
  let Inv : List (List CsHost) → HostsLoop → World → Prop := fun done l v =>
    ∃ agents checkpoint readings', v = scrolling w agents checkpoint readings' ∧
      agents.bulkReplace l.buffer = w.agents.bulkReplace (done.flatten.map (hostDoc py run)) ∧
      readings ≤ readings'
  have hall : ∃ l' v, Returns (scan (fun _ cursor => scrollHosts since cursor) (syncHosts py run)
      (fun _ => SyncError.unfinished) pages none l)
        (scrolling w w.agents checkpoint readings) l' v ∧
        Inv ([] ++ w.cs.hostSplit.rest hosts none) l' v := by
    refine returns_scan HostBatch.hosts (w.cs.hostSplit.rest hosts) Inv ?_ ?_ hlength
      ⟨w.agents, checkpoint, readings, rfl, ?_, le_refl _⟩
    · rintro done l v cursor ⟨agents, checkpoint, readings, rfl, hstored⟩
      refine ⟨_, _, returns_lift.mpr rfl, ⟨agents, checkpoint, readings, rfl, hstored⟩, ?_, ?_⟩
      · intro hlast
        rw [List.map_map]
        exact (List.map_id _).trans (Split.last_page hlast)
      · intro c hnext
        obtain ⟨hne, hsplit⟩ := Split.next_page hnext
        refine ⟨fun hnil => hne (List.map_eq_nil_iff.mp hnil), ?_⟩
        rw [List.map_map]
        exact (congrArg (· ++ _) (List.map_id _)).trans hsplit
    · rintro done l v batch ⟨agents, checkpoint, readings, rfl, hstored, hle⟩
      obtain ⟨l', agents', checkpoint', readings', hflush, hstored', hle'⟩ :=
        returns_flushHosts (w := w) run
          { l with
            buffer := l.buffer ++ batch.hosts.map (hostDoc py run)
            total := if 0 < batch.total ∧ l.total = 0 then batch.total else l.total }
          agents checkpoint readings
      refine ⟨l', _, hflush, agents', checkpoint', readings', rfl, ?_, hle.trans hle'⟩
      rw [hstored', Collection.bulkReplace_append, hstored, ← Collection.bulkReplace_append]
      simp
    · rw [hl]
      rfl
  obtain ⟨l', v, hreturns, agents', checkpoint', readings', rfl, hstored, hle⟩ := hall
  refine ⟨l', agents', checkpoint', readings', hreturns, ?_, hle⟩
  rw [hstored]
  show w.agents.bulkReplace ((w.cs.hostSplit.batches hosts).flatten.map _) = _
  rw [w.cs.hostSplit.flatten_batches]

theorem returns_removeHosts (run : AgentsRun) :
    Returns (removeHosts run) w ()
      { w with
        agents := keptAgents run w.agents
        installedApps := keptApps run w.agents w.installedApps } := by
  unfold removeHosts keptAgents keptApps
  by_cases hfull : run.mode = .full
  · simp only [hfull, if_true, true_and]
    unfold removeStaleHosts
    refine returns_bind.mpr ⟨_, _, returns_lift.mpr rfl, ?_⟩
    by_cases hdeleted : w.agents.docs.any (staleAgent run.startedAt) = true
    · rw [if_pos hdeleted, if_pos hdeleted]
      exact returns_lift.mpr rfl
    · rw [if_neg hdeleted, if_neg hdeleted]
      exact returns_pure.mpr ⟨rfl, rfl⟩
  · simp only [hfull, if_false, false_and]
    exact returns_pure.mpr ⟨rfl, rfl⟩

end Loop

section Whole

variable {py : Python} {pages : Nat} {mode : Mode} {w : World}

theorem returns_agentsPhase (py : Python) (mode : Mode) (hpages : w.cs.hosts.length < pages) :
    ∃ readings, w.readings < readings ∧
      Returns (agentsPhase py pages mode) w () (hostsDone py mode w readings) := by
  let run := hostsRun mode w
  let ticked : World := { w with readings := w.readings + 1 }
  obtain ⟨c, hcheck⟩ := returns_checkMode "cs_agents" run.mode (startArgs "cs_agents" mode w) ticked
  let checkpoint := hostsCheckpoint mode w
  let l : HostsLoop :=
    ⟨[], (checkpoint.map Checkpoint.synced).getD 0, (checkpoint.map Checkpoint.total).getD 0⟩
  obtain ⟨l', agents', checkpoint', readings, hloop, hstored, hle⟩ :=
    returns_scan_hosts (w := ticked) (l := l) py run c ticked.readings
      (hostFilter (startArgs "cs_agents" mode w) checkpoint run.mode
        (w.syncMeta crowdstrike).agentsSyncedAt) hpages rfl
  have hflush : Returns (flushRest l'.buffer) (scrolling ticked agents' checkpoint' readings) ()
      (scrolling ticked (w.agents.bulkReplace (hostsDocs py mode w)) checkpoint' readings) := by
    have hdone : agents'.bulkReplace l'.buffer = w.agents.bulkReplace (hostsDocs py mode w) :=
      hstored
    rw [← hdone]
    unfold flushRest
    by_cases hdocs : l'.buffer ≠ []
    · rw [if_pos hdocs]
      exact returns_lift.mpr rfl
    · rw [if_neg hdocs, not_not.mp hdocs]
      exact returns_pure.mpr ⟨rfl, rfl⟩
  have hexecute : Returns (syncAgents py pages (startArgs "cs_agents" mode w)) w ()
      { hostsDone py mode w readings with
        checkpoints := Function.update w.checkpoints "cs_agents" checkpoint' } :=
    returns_bind.mpr ⟨w.now, ticked, returns_lift.mpr rfl,
      returns_bind.mpr ⟨_, ticked, returns_lift.mpr rfl,
      returns_bind.mpr ⟨_, ticked, returns_lift.mpr rfl,
      returns_bind.mpr ⟨_, _, hcheck,
      returns_bind.mpr ⟨l', _, hloop,
      returns_bind.mpr ⟨(), _, hflush,
      returns_bind.mpr ⟨(), _, returns_removeHosts run, returns_lift.mpr rfl⟩⟩⟩⟩⟩⟩⟩
  refine ⟨readings, hle, ?_⟩
  unfold agentsPhase
  rw [returns_trigger]
  refine returns_bind.mpr ⟨(), _, hexecute, returns_lift.mpr ?_⟩
  simp [hostsDone, World.setCheckpoint]

end Whole

end Sentora.CrowdStrike
