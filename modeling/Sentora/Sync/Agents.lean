import Sentora.Sync.S1Client

/-!
# The agents phase

`AgentsPhaseRunner._sync_agents` of `domains/sync/phases/agents.py`.
-/

namespace Sentora.Sync

open Lib Process

structure AgentsLoop where
  buffer : List AgentDoc
  synced : Nat
  total : Nat

/-- What stays the same during the loop. -/
structure AgentsRun where
  groupNameMap : String → Option String
  startedAt : Nat
  mode : Mode

def flushAgents (docs : List AgentDoc) : Phase Unit :=
  liftM (Process.write (SyncOp.write .agents) fun w : World =>
    { w with agents := w.agents.bulkReplace docs })

def agentDoc (py : Python) (run : AgentsRun) (raw : S1Agent) : AgentDoc :=
  { normalizeAgent py raw run.groupNameMap with syncedAt := some run.startedAt }

def flushWhenFull (filled : List AgentDoc) : Phase (List AgentDoc) :=
  if 500 ≤ filled.length then do
    flushAgents filled
    pure []
  else pure filled

def saveEachHundredth (checkpoint : Checkpoint) : Phase Unit :=
  if checkpoint.synced % 100 = 0 then saveCheckpoint "agents" checkpoint else pure ()

def agentCheckpoint (run : AgentsRun) (l : AgentsLoop) (raw : S1Item S1Agent) : Checkpoint where
  lastId := some raw.item.id
  synced := l.synced + 1
  total := raw.total.getD l.total
  mode := some run.mode

def syncAgent (py : Python) (run : AgentsRun) (l : AgentsLoop) (raw : S1Item S1Agent) :
    Phase AgentsLoop := do
  let buffer ← flushWhenFull (l.buffer ++ [agentDoc py run raw.item])
  saveEachHundredth (agentCheckpoint run l raw)
  pure ⟨buffer, l.synced + 1, raw.total.getD l.total⟩

def S1Source.agentsSince (s1 : S1Source) (since : Option Nat) : List S1Agent :=
  s1.agents.filter fun raw => since.all fun t => decide (s1Dt t ≤ raw.updatedAt)

def getAgents (since : Option Nat) (pageSize : Nat) (cursor : Option Nat) :
    Phase (Page (S1Item S1Agent) Nat) :=
  liftM (Process.read (SyncOp.api "/agents") fun w : World =>
    s1Page S1Agent.id pageSize (w.s1.agentsSince since) cursor)

/-- The ids that `get_decommissioned_agent_ids` asks for. -/
def S1Source.decommissionedSince (s1 : S1Source) (since : Nat) : List (Nat × Nat) :=
  s1.decommissioned.filter fun d => decide (since ≤ d.2)

def getDecommissionedAgentIds (pages since : Nat) : Phase (List String) := do
  let found ← fetchAll "/agents?isDecommissioned" Prod.fst 100 pages fun w =>
    w.s1.decommissionedSince since
  pure (found.map fun d => toString d.1)

def removeStaleAgents (startedAt : Nat) : Phase Unit :=
  liftM (Process.write (SyncOp.write .agents) fun w : World =>
    { w with agents := w.agents.deleteMany fun d => d.syncedAt != some startedAt })

def removeDecommissioned (ids : List String) : Phase Unit := do
  liftM (Process.write (SyncOp.write .agents) fun w : World =>
    { w with agents := w.agents.deleteMany fun d => ids.contains d.sourceId })
  liftM (Process.write (SyncOp.write .installedApps) fun w : World =>
    { w with installedApps := w.installedApps.deleteMany fun d => ids.contains d.agentId })

def loadPageSize (field : World → Nat) : Phase Nat :=
  liftM (Process.read SyncOp.config field)

def loadGroupNameMap : Phase (String → Option String) :=
  liftM (Process.read (SyncOp.find .groups) fun w : World =>
    nameMap GroupDoc.sourceId GroupDoc.name w.groups.docs)

def flushRest (docs : List AgentDoc) : Phase Unit :=
  if docs ≠ [] then flushAgents docs else pure ()

def removeAgents (pages : Nat) (run : AgentsRun) (lastSyncAt : Option Nat) : Phase Unit :=
  if run.mode = .full then removeStaleAgents run.startedAt
  else
    match lastSyncAt with
    | none => pure ()
    | some since => do
      let decomIds ← getDecommissionedAgentIds pages since
      if decomIds ≠ [] then removeDecommissioned decomIds else pure ()

def finishAgents (pages : Nat) (run : AgentsRun) (lastSyncAt : Option Nat) (l : AgentsLoop) :
    Phase Unit := do
  flushRest l.buffer
  removeAgents pages run lastSyncAt
  updateMeta "global" fun m => { m with agentsSyncedAt := some run.startedAt }

/-- `_sync_agents`.  The number bounds the pages of a listing. -/
def syncAgents (py : Python) (pages : Nat) (args : RunArgs) : Phase Unit := do
  let startedAt ← utcNow
  let pageSize ← loadPageSize World.pageSizeAgents
  let groupNameMap ← loadGroupNameMap
  let syncMeta ← loadMeta "global"
  let mode := resolveMode args.mode syncMeta.agentsSyncedAt
  let checkpoint ← checkMode "agents" mode args
  let run : AgentsRun := ⟨groupNameMap, startedAt, mode⟩
  let since := if mode = .full then none else syncMeta.agentsSyncedAt
  let l ← scan (fun _ cursor => getAgents since pageSize cursor) (syncAgent py run)
    (fun _ => SyncError.unfinished) pages (checkpoint.bind Checkpoint.lastId)
    ⟨[], (checkpoint.map Checkpoint.synced).getD 0, (checkpoint.map Checkpoint.total).getD 0⟩
  finishAgents pages run syncMeta.agentsSyncedAt l

def agentsPhase (py : Python) (pages : Nat) (mode : Mode) : Phase Unit :=
  trigger "agents" (syncAgents py pages) mode

def agentsRun (mode : Mode) (w : World) : AgentsRun where
  groupNameMap := nameMap GroupDoc.sourceId GroupDoc.name w.groups.docs
  startedAt := w.now
  mode := resolveMode (startArgs "agents" mode w).mode (w.syncMeta "global").agentsSyncedAt

def agentsSince (mode : Mode) (w : World) : Option Nat :=
  if (agentsRun mode w).mode = .full then none else (w.syncMeta "global").agentsSyncedAt

def agentsCheckpoint (mode : Mode) (w : World) : Option Checkpoint :=
  (startArgs "agents" mode w).usable (agentsRun mode w).mode

def agentsFetched (mode : Mode) (w : World) : List S1Agent :=
  after S1Agent.id (w.s1.agentsSince (agentsSince mode w))
    ((agentsCheckpoint mode w).bind Checkpoint.lastId)

def agentsDocs (py : Python) (mode : Mode) (w : World) : List AgentDoc :=
  (agentsFetched mode w).map (agentDoc py (agentsRun mode w))

def S1Source.decommissionedIds (s1 : S1Source) : Option Nat → List String
  | none => []
  | some since => (s1.decommissionedSince since).map fun d => toString d.1

def AgentsRun.removes (run : AgentsRun) (decomIds : List String) (d : AgentDoc) : Bool :=
  if run.mode = .full then d.syncedAt != some run.startedAt else decomIds.contains d.sourceId

def agentsDone (py : Python) (mode : Mode) (w : World) : World :=
  let decomIds := w.s1.decommissionedIds (agentsSince mode w)
  { w.setCheckpoint "agents" none with
    agents := (w.agents.bulkReplace (agentsDocs py mode w)).deleteMany
      ((agentsRun mode w).removes decomIds)
    installedApps := w.installedApps.deleteMany fun d => decomIds.contains d.agentId
    syncMeta := Function.update w.syncMeta "global"
      { w.syncMeta "global" with agentsSyncedAt := some w.now }
    readings := w.readings + 1 }

def EnoughPages (pages : Nat) (w : World) : Prop :=
  w.s1.agents.length < pages ∧ w.s1.decommissioned.length < pages

section Loop

variable {py : Python} {run : AgentsRun} {w : World}

def World.looping (w : World) (agents : Collection AgentDoc.id) (checkpoint : Option Checkpoint) :
    World :=
  { w.setCheckpoint "agents" checkpoint with agents := agents }

/-- What is stored and what is in the buffer make up what has been handled, and
every hundredth agent has left a checkpoint. -/
structure AgentsLoop.Upto (py : Python) (run : AgentsRun) (w : World) (start : Nat)
    (done : List S1Agent) (l : AgentsLoop) (agents : Collection AgentDoc.id)
    (checkpoint : Option Checkpoint) : Prop where
  stored : agents.bulkReplace l.buffer = w.agents.bulkReplace (done.map (agentDoc py run))
  synced : l.synced = start + done.length
  saved : l.synced % 100 = 0 → ∀ raw, done.getLast? = some raw →
    ∃ c, checkpoint = some c ∧ c.lastId = some raw.id ∧ c.mode = some run.mode ∧ c.status = none

theorem returns_flushWhenFull (filled : List AgentDoc) (agents : Collection AgentDoc.id)
    (checkpoint : Option Checkpoint) :
    ∃ buffer agents', Returns (flushWhenFull filled) (w.looping agents checkpoint) buffer
        (w.looping agents' checkpoint) ∧
      agents'.bulkReplace buffer = agents.bulkReplace filled := by
  unfold flushWhenFull
  by_cases hfull : 500 ≤ filled.length
  · rw [if_pos hfull]
    refine ⟨[], agents.bulkReplace filled, ?_, rfl⟩
    exact returns_bind.mpr ⟨(), _, returns_lift.mpr rfl, returns_pure.mpr ⟨rfl, rfl⟩⟩
  · rw [if_neg hfull]
    exact ⟨filled, agents, returns_pure.mpr ⟨rfl, rfl⟩, rfl⟩

theorem returns_saveEachHundredth (c : Checkpoint) (agents : Collection AgentDoc.id)
    (checkpoint : Option Checkpoint) :
    Returns (saveEachHundredth c) (w.looping agents checkpoint) ()
      (w.looping agents (if c.synced % 100 = 0 then some c else checkpoint)) := by
  unfold saveEachHundredth
  by_cases hhundred : c.synced % 100 = 0
  · rw [if_pos hhundred, if_pos hhundred]
    refine returns_lift.mpr ?_
    simp [World.looping, World.setCheckpoint]
  · rw [if_neg hhundred, if_neg hhundred]
    exact returns_pure.mpr ⟨rfl, rfl⟩

theorem returns_syncAgent {start : Nat} {done : List S1Agent} {l : AgentsLoop}
    {agents : Collection AgentDoc.id} {checkpoint : Option Checkpoint}
    (h : l.Upto py run w start done agents checkpoint) (raw : S1Item S1Agent) :
    ∃ l' agents' checkpoint',
      Returns (syncAgent py run l raw) (w.looping agents checkpoint) l'
        (w.looping agents' checkpoint') ∧
      l'.Upto py run w start (done ++ [raw.item]) agents' checkpoint' := by
  obtain ⟨buffer, agents', hflush, hstored⟩ :=
    returns_flushWhenFull (w := w) (l.buffer ++ [agentDoc py run raw.item]) agents checkpoint
  have hsave := returns_saveEachHundredth (w := w) (agentCheckpoint run l raw) agents' checkpoint
  refine ⟨⟨buffer, l.synced + 1, raw.total.getD l.total⟩, agents',
    if (agentCheckpoint run l raw).synced % 100 = 0 then some (agentCheckpoint run l raw)
      else checkpoint, ?_, ?_, ?_, ?_⟩
  · exact returns_bind.mpr
      ⟨buffer, _, hflush, returns_bind.mpr ⟨(), _, hsave, returns_pure.mpr ⟨rfl, rfl⟩⟩⟩
  · rw [hstored, List.map_append, Collection.bulkReplace_append, Collection.bulkReplace_append,
      h.stored]
    rfl
  · show l.synced + 1 = start + (done ++ [raw.item]).length
    rw [h.synced, List.length_append, List.length_singleton]
    omega
  · intro hhundred x hx
    have hsaved : (agentCheckpoint run l raw).synced % 100 = 0 := hhundred
    rw [List.getLast?_append, List.getLast?_singleton, Option.some_or] at hx
    rw [if_pos hsaved, ← Option.some.inj hx]
    exact ⟨_, rfl, rfl, rfl, rfl⟩

theorem returns_scan_agents {pages start : Nat} {l : AgentsLoop} {checkpoint : Option Checkpoint}
    (since cursor : Option Nat) (hpages : w.s1.agents.length < pages)
    (hl : l.Upto py run w start [] w.agents checkpoint) :
    ∃ l' agents' checkpoint',
      Returns (scan (fun _ cursor => getAgents since w.pageSizeAgents cursor) (syncAgent py run)
        (fun _ => SyncError.unfinished) pages cursor l) (w.looping w.agents checkpoint) l'
        (w.looping agents' checkpoint') ∧
      l'.Upto py run w start (after S1Agent.id (w.s1.agentsSince since) cursor) agents'
        checkpoint' := by
  have hsorted : (w.s1.agentsSince since).Pairwise fun x y => x.id < y.id :=
    w.s1.agents_sorted.filter _
  have hlength : (after S1Agent.id (w.s1.agentsSince since) cursor).length < pages := by
    have hsince : (w.s1.agentsSince since).length ≤ w.s1.agents.length := List.length_filter_le _ _
    have hafter : (after S1Agent.id (w.s1.agentsSince since) cursor).length ≤
        (w.s1.agentsSince since).length := after_length_le cursor
    omega
  let Inv : List S1Agent → AgentsLoop → World → Prop := fun done l v =>
    ∃ agents checkpoint, v = w.looping agents checkpoint ∧
      l.Upto py run w start done agents checkpoint
  have hall : ∃ l' v, Returns (scan (fun _ cursor => getAgents since w.pageSizeAgents cursor)
      (syncAgent py run) (fun _ => SyncError.unfinished) pages cursor l)
      (w.looping w.agents checkpoint) l' v ∧
        Inv ([] ++ after S1Agent.id (w.s1.agentsSince since) cursor) l' v := by
    refine returns_scan S1Item.item (after S1Agent.id (w.s1.agentsSince since)) Inv ?_ ?_ hlength
      ⟨w.agents, checkpoint, rfl, hl⟩
    · rintro done l v cursor ⟨agents, checkpoint, rfl, hupto⟩
      refine ⟨_, _, returns_lift.mpr rfl, ⟨agents, checkpoint, rfl, hupto⟩, ?_, ?_⟩
      · exact s1Page_last w.pageSizeAgents_pos
      · exact fun c => s1Page_next hsorted
    · rintro done l v raw ⟨agents, checkpoint, rfl, hupto⟩
      obtain ⟨l', agents', checkpoint', hreturns, hupto'⟩ := returns_syncAgent hupto raw
      exact ⟨l', _, hreturns, agents', checkpoint', rfl, hupto'⟩
  obtain ⟨l', v, hreturns, agents', checkpoint', rfl, hupto⟩ := hall
  exact ⟨l', agents', checkpoint', hreturns, hupto⟩

theorem returns_flushRest (docs : List AgentDoc) (agents : Collection AgentDoc.id)
    (checkpoint : Option Checkpoint) :
    Returns (flushRest docs) (w.looping agents checkpoint) ()
      (w.looping (agents.bulkReplace docs) checkpoint) := by
  unfold flushRest
  by_cases hdocs : docs ≠ []
  · rw [if_pos hdocs]
    exact returns_lift.mpr rfl
  · rw [if_neg hdocs, not_not.mp hdocs]
    exact returns_pure.mpr ⟨rfl, rfl⟩

theorem returns_removeAgents {pages : Nat} (run : AgentsRun) (lastSyncAt : Option Nat)
    (hpages : w.s1.decommissioned.length < pages) :
    let decomIds := w.s1.decommissionedIds (if run.mode = .full then none else lastSyncAt)
    Returns (removeAgents pages run lastSyncAt) w ()
      { w with
        agents := w.agents.deleteMany (run.removes decomIds)
        installedApps := w.installedApps.deleteMany fun d => decomIds.contains d.agentId } := by
  have hnoApp : (w.installedApps.deleteMany fun _ => false) = w.installedApps :=
    Collection.deleteMany_eq_self fun _ _ => rfl
  have hnoAgent : (w.agents.deleteMany fun _ => false) = w.agents :=
    Collection.deleteMany_eq_self fun _ _ => rfl
  unfold removeAgents AgentsRun.removes
  by_cases hfull : run.mode = .full
  · simp only [if_pos hfull, S1Source.decommissionedIds, List.contains_nil, hnoApp]
    exact returns_lift.mpr rfl
  · simp only [if_neg hfull]
    cases lastSyncAt with
    | none =>
      simp only [S1Source.decommissionedIds, List.contains_nil, hnoApp, hnoAgent]
      exact returns_pure.mpr ⟨rfl, rfl⟩
    | some since =>
      have hsorted : (w.s1.decommissionedSince since).Pairwise fun x y => x.1 < y.1 :=
        w.s1.decommissioned_sorted.filter _
      have hlength : (w.s1.decommissionedSince since).length < pages :=
        Nat.lt_of_le_of_lt (List.length_filter_le _ _) hpages
      have hfound : Returns (getDecommissionedAgentIds pages since) w
          (w.s1.decommissionedIds (some since)) w :=
        returns_bind.mpr ⟨_, w, (returns_fetchAll (by omega) hsorted hlength).mpr ⟨rfl, rfl⟩,
          returns_pure.mpr ⟨rfl, rfl⟩⟩
      refine returns_bind.mpr ⟨_, w, hfound, ?_⟩
      by_cases hids : w.s1.decommissionedIds (some since) ≠ []
      · rw [if_pos hids]
        exact returns_bind.mpr ⟨(), _, returns_lift.mpr rfl, returns_lift.mpr rfl⟩
      · rw [if_neg hids, not_not.mp hids]
        simp only [List.contains_nil, hnoApp, hnoAgent]
        exact returns_pure.mpr ⟨rfl, rfl⟩

end Loop

section Whole

variable {py : Python} {pages : Nat} {mode : Mode} {w : World}

theorem returns_agentsPhase (py : Python) (mode : Mode) (hpages : EnoughPages pages w) :
    Returns (agentsPhase py pages mode) w () (agentsDone py mode w) := by
  let run := agentsRun mode w
  let ticked : World := { w with readings := w.readings + 1 }
  obtain ⟨c, hcheck⟩ := returns_checkMode "agents" run.mode (startArgs "agents" mode w) ticked
  let checkpoint := agentsCheckpoint mode w
  let l : AgentsLoop :=
    ⟨[], (checkpoint.map Checkpoint.synced).getD 0, (checkpoint.map Checkpoint.total).getD 0⟩
  have hl : l.Upto py run ticked l.synced [] ticked.agents c :=
    ⟨rfl, rfl, fun _ _ h => nomatch h⟩
  obtain ⟨l', agents', checkpoint', hloop, hupto⟩ :=
    returns_scan_agents (w := ticked) (agentsSince mode w) (checkpoint.bind Checkpoint.lastId)
      hpages.1 hl
  have hflush := returns_flushRest (w := ticked) l'.buffer agents' checkpoint'
  rw [hupto.stored] at hflush
  have hremove := returns_removeAgents run (w.syncMeta "global").agentsSyncedAt hpages.2
    (w := ticked.looping (w.agents.bulkReplace (agentsDocs py mode w)) checkpoint')
  have hexecute : Returns (syncAgents py pages (startArgs "agents" mode w)) w ()
      { agentsDone py mode w with
        checkpoints := Function.update w.checkpoints "agents" checkpoint' } :=
    returns_bind.mpr ⟨w.now, ticked, returns_lift.mpr rfl,
      returns_bind.mpr ⟨_, ticked, returns_lift.mpr rfl,
      returns_bind.mpr ⟨_, ticked, returns_lift.mpr rfl,
      returns_bind.mpr ⟨_, ticked, returns_lift.mpr rfl,
      returns_bind.mpr ⟨_, _, hcheck,
      returns_bind.mpr ⟨l', _, hloop,
      returns_bind.mpr ⟨(), _, hflush,
      returns_bind.mpr ⟨(), _, hremove, returns_lift.mpr rfl⟩⟩⟩⟩⟩⟩⟩⟩
  unfold agentsPhase
  rw [returns_trigger]
  refine returns_bind.mpr ⟨(), _, hexecute, returns_lift.mpr ?_⟩
  simp [agentsDone, World.setCheckpoint]

end Whole

end Sentora.Sync
