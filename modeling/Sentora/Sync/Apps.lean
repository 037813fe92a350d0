import Mathlib.Data.List.Dedup
import Sentora.Sync.Agents

/-!
# The apps phase

`AppsPhaseRunner._sync_apps` and `_denorm_agent_apps` of
`domains/sync/phases/apps.py`.
-/

namespace Sentora.Sync

open Lib Process

abbrev AgentNames := String × List String

def groupNames (isOf : AppDoc → Bool) (apps : List AppDoc) : List AgentNames :=
  let active := apps.filter fun d => isOf d && d.isActive
  (active.map AppDoc.agentId).dedup.map fun agentId =>
    (agentId, ((active.filter fun d => d.agentId == agentId).map AppDoc.normalizedName).dedup)

def AgentDoc.setNames (names : List String) (d : AgentDoc) : AgentDoc :=
  { d with installedAppNames := some (names.filter fun n => n ≠ "") }

def nameAgent (isOf : AgentDoc → Bool) (agents : Collection AgentDoc.id) (names : AgentNames) :
    Collection AgentDoc.id :=
  agents.updateOne (fun d => isOf d && d.sourceId == names.1) (AgentDoc.setNames names.2)
    fun _ => rfl

def updateNames (isOf : AgentDoc → Bool) (names : AgentNames) : Process World SyncOp Bool :=
  Process.atomic (SyncOp.write .agents) fun w =>
    ({ w with
      nameFaults := w.nameFaults.tail
      agents := if w.nameFaults.head?.getD false then w.agents else nameAgent isOf w.agents names },
      w.nameFaults.head?.getD false)

def updateAllNames (isOf : AgentDoc → Bool) : List AgentNames → Process World SyncOp Unit
  | [] => pure ()
  | names :: rest =>
    if names.1 = "" then updateAllNames isOf rest
    else do
      let failed ← updateNames isOf names
      if failed then pure () else updateAllNames isOf rest

/-- The names of the active applications of a kind, for the agents of a kind.  Each
update of a bulk is a step of its own. -/
def denormNames (isApp : AppDoc → Bool) (isAgent : AgentDoc → Bool) : Phase Unit := do
  let groups ← liftM (Process.read (SyncOp.find .installedApps) fun w : World =>
    groupNames isApp w.installedApps.docs)
  liftM (updateAllNames isAgent groups)

def denormAgentApps : Phase Unit := denormNames (fun _ => true) fun _ => true

def nameAgents (isOf : AgentDoc → Bool) (agents : Collection AgentDoc.id)
    (groups : List AgentNames) : Collection AgentDoc.id :=
  (groups.filter fun names => names.1 ≠ "").foldl (nameAgent isOf) agents

section NameAgents

variable {isOf : AgentDoc → Bool} {agents : Collection AgentDoc.id} {groups : List AgentNames}
variable {names : AgentNames}

theorem mem_nameAgent_of_mem {d : AgentDoc} (names : AgentNames) (h : d ∈ agents) :
    d ∈ nameAgent isOf agents names ∨ d.setNames names.2 ∈ nameAgent isOf agents names :=
  (Collection.mem_updateOne_of_mem h).imp_right And.right

theorem mem_nameAgent_of_not {d : AgentDoc} (h : d ∈ agents)
    (hnot : (isOf d && d.sourceId == names.1) = false) : d ∈ nameAgent isOf agents names :=
  Collection.mem_updateOne_of_not h hnot

theorem nameAgents_skip (h : names.1 = "") :
    nameAgents isOf agents (names :: groups) = nameAgents isOf agents groups := by
  unfold nameAgents
  rw [List.filter_cons_of_neg (by simpa using h)]

theorem nameAgents_cons (h : names.1 ≠ "") :
    nameAgents isOf agents (names :: groups) =
      nameAgents isOf (nameAgent isOf agents names) groups := by
  unfold nameAgents
  rw [List.filter_cons_of_pos (by simpa using h)]
  rfl

theorem mem_of_failed {faults : List Bool} (h : faults.head?.getD false = true) :
    true ∈ faults := by
  cases faults with
  | nil => cases h
  | cons b rest =>
    rw [show b = true from h]
    exact List.mem_cons_self

def World.nameOne (isOf : AgentDoc → Bool) (w : World) (failed : Bool) (names : AgentNames) :
    World :=
  { w with
    nameFaults := w.nameFaults.tail
    agents := if failed then w.agents else nameAgent isOf w.agents names }

/-- What the rebuilding of names has done: some of the groups, and all of them if
no update has failed. -/
structure NamesSet (isOf : AgentDoc → Bool) (groups : List AgentNames) (v t : World) : Prop where
  apps : t.installedApps = v.installedApps
  agents : ∃ done, done <+: groups ∧ t.agents = nameAgents isOf v.agents done ∧
    (true ∉ v.nameFaults → done = groups)

theorem endures_updateAllNames {I : World → Prop}
    (hI : ∀ v failed names, I v → I (v.nameOne isOf failed names)) (groups : List AgentNames)
    (v : World) :
    Endures Eq I (fun t _ => NamesSet isOf groups v t) v (updateAllNames isOf groups) := by
  induction groups generalizing v with
  | nil => exact ⟨rfl, [], List.nil_prefix, rfl, fun _ => rfl⟩
  | cons names groups ih =>
    rw [updateAllNames]
    by_cases hempty : names.1 = ""
    · rw [if_pos hempty]
      refine (ih v).mono fun t _ ht => ⟨ht.apps, ?_⟩
      obtain ⟨done, hdone, hagents, hall⟩ := ht.agents
      refine ⟨names :: done, (List.prefix_cons_inj names).mpr hdone, ?_, fun h => ?_⟩
      · rw [nameAgents_skip hempty, hagents]
      · rw [hall h]
    · rw [if_neg hempty]
      let failed := v.nameFaults.head?.getD false
      have hupdate : Endures Eq I
          (fun t answer => t = v.nameOne isOf failed names ∧ answer = failed) v
          (updateNames isOf names) := by
        refine endures_atomic ?_
        rintro _ rfl hv
        exact ⟨hI v failed names hv, rfl, rfl⟩
      refine hupdate.bind ?_
      rintro t answer ⟨rfl, hanswer⟩
      by_cases hfailed : failed = true
      · rw [hanswer, if_pos hfailed]
        refine ⟨rfl, [], List.nil_prefix, ?_, fun h => absurd ?_ h⟩
        · show (if failed then v.agents else _) = v.agents
          rw [if_pos hfailed]
        · exact mem_of_failed hfailed
      · rw [hanswer, if_neg hfailed]
        refine (ih (v.nameOne isOf failed names)).mono fun t _ ht => ⟨ht.apps, ?_⟩
        obtain ⟨done, hdone, hagents, hall⟩ := ht.agents
        refine ⟨names :: done, (List.prefix_cons_inj names).mpr hdone, ?_, fun h => ?_⟩
        · rw [nameAgents_cons hempty, hagents]
          show nameAgents isOf (if failed then v.agents else _) done = _
          rw [if_neg hfailed]
        · rw [hall fun hmem => h (List.mem_of_mem_tail hmem)]

theorem endures_denormNames {I : World → Prop} {E : World → SyncError → Prop}
    (isApp : AppDoc → Bool) (isOf : AgentDoc → Bool)
    (hI : ∀ v failed names, I v → I (v.nameOne isOf failed names)) (v : World) :
    EnduresOr Eq I (fun t _ => NamesSet isOf (groupNames isApp v.installedApps.docs) v t) E v
      (denormNames isApp isOf) := by
  let find : Phase (List AgentNames) :=
    liftM (Process.read (SyncOp.find .installedApps) fun w : World =>
      groupNames isApp w.installedApps.docs)
  have hread : EnduresOr Eq I
      (fun t groups => t = v ∧ groups = groupNames isApp v.installedApps.docs) E v find := by
    refine enduresOr_atomic ?_
    rintro _ rfl hv
    exact ⟨hv, rfl, rfl⟩
  refine hread.bind ?_
  rintro t groups ⟨rfl, rfl⟩
  exact enduresOr_lift (endures_updateAllNames hI _ t)

end NameAgents

/-- `UpdateOne({"_id": …}, {"$set": …}, upsert=True)`. -/
structure AppUpdate where
  id : String
  set : AppDoc

def AppUpdate.accepted (u : AppUpdate) : Bool := u.set.id == u.id

def bulkUpdateApps (updates : List AppUpdate) : Process World SyncOp Bool :=
  Process.atomic (SyncOp.write .installedApps) fun w =>
    ({ w with
      installedApps :=
        w.installedApps.bulkReplace ((updates.filter AppUpdate.accepted).map AppUpdate.set) },
      updates.all AppUpdate.accepted)

def deactivated (isOf : AppDoc → Bool) (startedAt : Nat) (apps : Collection AppDoc.id) :
    Collection AppDoc.id :=
  apps.updateMany
    (fun d => isOf d && d.lastSyncedAt.any (fun t => decide (t < startedAt)) && d.isActive)
    (fun d => { d with active := some false }) fun _ => rfl

def reactivated (isOf : AppDoc → Bool) (startedAt : Nat) (apps : Collection AppDoc.id) :
    Collection AppDoc.id :=
  apps.updateMany
    (fun d => isOf d && d.lastSyncedAt.any (fun t => decide (startedAt ≤ t)) && !d.isActive)
    (fun d => { d with active := some true }) fun _ => rfl

def markStale (mode : Mode) (isOf : AppDoc → Bool) (startedAt : Nat) : Phase Unit :=
  if mode = .full then do
    liftM (Process.write (SyncOp.write .installedApps) fun w : World =>
      { w with installedApps := deactivated isOf startedAt w.installedApps })
    liftM (Process.write (SyncOp.write .installedApps) fun w : World =>
      { w with installedApps := reactivated isOf startedAt w.installedApps })
  else pure ()

def marked (mode : Mode) (isOf : AppDoc → Bool) (startedAt : Nat) (apps : Collection AppDoc.id) :
    Collection AppDoc.id :=
  if mode = .full then reactivated isOf startedAt (deactivated isOf startedAt apps) else apps

section Marked

variable {isOf : AppDoc → Bool} {startedAt : Nat} {apps : Collection AppDoc.id} {d : AppDoc}

theorem mem_deactivated : d ∈ deactivated isOf startedAt apps ↔ ∃ e ∈ apps,
    (if isOf e && e.lastSyncedAt.any (fun t => decide (t < startedAt)) && e.isActive then
      { e with active := some false } else e) = d :=
  Collection.mem_updateMany

theorem mem_reactivated : d ∈ reactivated isOf startedAt apps ↔ ∃ e ∈ apps,
    (if isOf e && e.lastSyncedAt.any (fun t => decide (startedAt ≤ t)) && !e.isActive then
      { e with active := some true } else e) = d :=
  Collection.mem_updateMany

/-- What neither update asks for stays. -/
theorem mem_marked_of_not (mode : Mode) (h : d ∈ apps)
    (hstale : (isOf d && d.lastSyncedAt.any (fun t => decide (t < startedAt)) && d.isActive)
      = false)
    (hback : (isOf d && d.lastSyncedAt.any (fun t => decide (startedAt ≤ t)) && !d.isActive)
      = false) : d ∈ marked mode isOf startedAt apps := by
  unfold marked
  by_cases hfull : mode = .full
  · rw [if_pos hfull, mem_reactivated]
    refine ⟨d, mem_deactivated.mpr ⟨d, h, ?_⟩, ?_⟩
    · rw [hstale]
      rfl
    · rw [hback]
      rfl
  · rw [if_neg hfull]
    exact h

end Marked

theorem endures_markStale {I : World → Prop} {E : World → SyncError → Prop} {v : World}
    (mode : Mode)
    (isOf : AppDoc → Bool) (startedAt : Nat)
    (hdeactivated : ∀ u, I u →
      I { u with installedApps := deactivated isOf startedAt u.installedApps })
    (hreactivated : ∀ u, I u →
      I { u with installedApps := reactivated isOf startedAt u.installedApps }) :
    EnduresOr Eq I
      (fun t _ => t = { v with installedApps := marked mode isOf startedAt v.installedApps }) E v
      (markStale mode isOf startedAt) := by
  unfold markStale marked
  by_cases hfull : mode = .full
  · rw [if_pos hfull, if_pos hfull]
    let first : World := { v with installedApps := deactivated isOf startedAt v.installedApps }
    let deactivate : Phase Unit :=
      liftM (Process.write (SyncOp.write .installedApps) fun u : World =>
        { u with installedApps := deactivated isOf startedAt u.installedApps })
    have hfirst : EnduresOr Eq I (fun t (_ : Unit) => t = first) E v deactivate := by
      refine enduresOr_atomic ?_
      rintro _ rfl hv
      exact ⟨hdeactivated v hv, rfl⟩
    refine hfirst.bind ?_
    rintro t - rfl
    refine enduresOr_atomic ?_
    rintro _ rfl hv
    exact ⟨hreactivated first hv, rfl⟩
  · rw [if_neg hfull, if_neg hfull]
    exact enduresOr_pure rfl

structure AppsLoop where
  buf : List AppUpdate
  synced : Nat
  total : Nat
  cursor : Option Nat
  maxAppIdSeen : Nat

/-- What stays the same during the loop. -/
structure AppsRun where
  startedAt : Nat
  batch : Nat
  mode : Mode

/-- One try: where an error of the API stops it, the loop goes on from what it
carries. -/
abbrev AppsTry := ExceptT (Stop SyncError ApiError AppsLoop) (Process World SyncOp)

def getInstalledApplications (run : AppsRun) (l : AppsLoop) (cursor : Option Nat) :
    AppsTry (Page (S1Item S1App) Nat) := do
  let answer ← liftM (Process.atomic (SyncOp.api "/installed-applications") fun w : World =>
    ({ w with faults := w.faults.tail },
      (w.faults.head?.join, s1Page S1App.number run.batch w.s1.apps cursor)))
  match answer.1 with
  | some e => throw (.again e l)
  | none => pure answer.2

def appsCheckpoint (run : AppsRun) (l : AppsLoop) : Checkpoint where
  lastId := some l.maxAppIdSeen
  synced := l.synced + l.buf.length
  total := l.total
  mode := some run.mode

def AppsLoop.flushed (l : AppsLoop) (pageCursor : Option Nat) : AppsLoop :=
  { l with
    buf := []
    synced := l.synced + l.buf.length
    cursor := if l.maxAppIdSeen = 0 then pageCursor else some l.maxAppIdSeen }

def flushBatch (run : AppsRun) (l : AppsLoop) (pageCursor : Option Nat) : AppsTry AppsLoop := do
  let accepted ← liftM (bulkUpdateApps l.buf)
  throwIf (!accepted) (.failed .bulkWrite)
  liftM (Process.write SyncOp.saveCheckpoint
    (World.setCheckpoint "apps" (some (appsCheckpoint run l))))
  pure (l.flushed pageCursor)

def AppsLoop.add (l : AppsLoop) (py : Python) (run : AppsRun) (s1App : S1App) (id : Nat) :
    AppsLoop :=
  { l with
    maxAppIdSeen := max l.maxAppIdSeen id
    buf := l.buf ++ [⟨toString id, normalizeApp py s1App run.startedAt⟩] }

/-- One turn of the loop.  Applications without an id are passed over. -/
def syncApp (py : Python) (run : AppsRun) (l : AppsLoop) (raw : S1Item S1App) : AppsTry AppsLoop :=
  let l := { l with total := raw.total.getD l.total }
  match raw.item.id with
  | none => pure l
  | some id =>
    let filled := l.add py run raw.item id
    if run.batch ≤ filled.buf.length then flushBatch run filled raw.pageCursor else pure filled

def tryApps (py : Python) (pages : Nat) (run : AppsRun) (l : AppsLoop) : AppsTry AppsLoop :=
  scan (getInstalledApplications run) (syncApp py run) (fun _ => .failed .unfinished) pages l.cursor
    { l with buf := [] }

/-- Only `auto` looks at the highest id. -/
def resolveAppsMode (mode : Mode) : Phase Mode :=
  if mode = .auto then do
    let syncMeta ← loadMeta "global"
    pure (resolveMode .auto syncMeta.maxAppId)
  else pure mode

def startApps (mode : Mode) (checkpoint : Option Checkpoint) : Phase (Option AppsLoop) :=
  match checkpoint.bind fun c => c.lastId.map fun id => (c, id) with
  | some (c, id) => pure (some ⟨[], c.synced, c.total, some id, 0⟩)
  | none =>
    if mode = .full then pure (some ⟨[], 0, 0, none, 0⟩)
    else do
      let syncMeta ← loadMeta "global"
      pure (syncMeta.maxAppId.map fun id => ⟨[], 0, 0, some id, 0⟩)

def flushAppsRest (l : AppsLoop) : Phase Nat :=
  if l.buf ≠ [] then do
    let accepted ← liftM (bulkUpdateApps l.buf)
    throwIf (!accepted) .bulkWrite
    pure (l.synced + l.buf.length)
  else pure l.synced

def AppsLoop.record (l : AppsLoop) (run : AppsRun) (m : SyncMeta) : SyncMeta :=
  { m with
    appsSyncedAt := some run.startedAt
    maxAppId := if l.maxAppIdSeen = 0 then m.maxAppId else some l.maxAppIdSeen }

def finishApps (run : AppsRun) (l : AppsLoop) : Phase Unit := do
  let synced ← flushAppsRest l
  updateMeta "global" (l.record run)
  markStale run.mode (fun _ => true) run.startedAt
  if 0 < synced ∨ run.mode = .full then denormAgentApps else pure ()

def syncApps (py : Python) (pages : Nat) (args : RunArgs) : Phase Unit := do
  let startedAt ← utcNow
  let batch ← loadPageSize World.pageSizeApps
  let mode ← resolveAppsMode args.mode
  let checkpoint ← checkMode "apps" mode args
  let run : AppsRun := ⟨startedAt, batch, mode⟩
  match ← startApps mode checkpoint with
  | none => pure ()
  | some l => do
    let l' ← retrying (tryApps py pages run) SyncError.api 3 l
    finishApps run l'

def appsPhase (py : Python) (pages : Nat) (mode : Mode) : Phase Unit :=
  trigger "apps" (syncApps py pages) mode

/-- A step of a run of the apps phase that stores no application. -/
inductive AppsChange (startedAt : Nat) : World → World → Prop where
  | tick (v : World) : AppsChange startedAt v { v with readings := v.readings + 1 }
  | answer (v : World) : AppsChange startedAt v { v with faults := v.faults.tail }
  | clear (v : World) : AppsChange startedAt v (v.setCheckpoint "apps" none)
  | record (v : World) (update : SyncMeta → SyncMeta) :
    AppsChange startedAt v (v.updateMeta "global" update)
  | deactivate (v : World) :
    AppsChange startedAt v
      { v with installedApps := deactivated (fun _ => true) startedAt v.installedApps }
  | reactivate (v : World) :
    AppsChange startedAt v
      { v with installedApps := reactivated (fun _ => true) startedAt v.installedApps }
  | names (v : World) (failed : Bool) (names : AgentNames) :
    AppsChange startedAt v (v.nameOne (fun _ => true) failed names)

abbrev AppsChanges (w : World) : World → Prop := Relation.ReflTransGen (AppsChange w.now) w

abbrev AppsEndure {ε α : Type} (w : World) (Q : World → α → Prop) (E : World → ε → Prop) (v : World)
    (p : ExceptT ε (Process World SyncOp) α) : Prop :=
  EnduresOr Eq (AppsChanges w) Q E v p

section Steps

variable {ε α : Type} {w v : World} {Q : World → α → Prop} {E : World → ε → Prop} {op : SyncOp}

theorem appsEndure_change {f : World → World × α} (h : AppsChange w.now v (f v).1)
    (hQ : Q (f v).1 (f v).2) : AppsEndure w Q E v (liftM (Process.atomic op f)) := by
  refine enduresOr_atomic ?_
  rintro _ rfl hI
  exact ⟨hI.tail h, hQ⟩

theorem appsEndure_still {f : World → World × α} (h : (f v).1 = v) (hQ : Q v (f v).2) :
    AppsEndure w Q E v (liftM (Process.atomic op f)) := by
  refine enduresOr_atomic ?_
  rintro _ rfl hI
  rw [h]
  exact ⟨hI, hQ⟩

end Steps

def appsMode (mode : Mode) (w : World) : Mode :=
  resolveMode (startArgs "apps" mode w).mode (w.syncMeta "global").maxAppId

def startOf (mode : Mode) (checkpoint : Option Checkpoint) (maxAppId : Option Nat) :
    Option AppsLoop :=
  match checkpoint.bind fun c => c.lastId.map fun id => (c, id) with
  | some (c, id) => some ⟨[], c.synced, c.total, some id, 0⟩
  | none =>
    if mode = .full then some ⟨[], 0, 0, none, 0⟩ else maxAppId.map fun id => ⟨[], 0, 0, some id, 0⟩

def appsStart (mode : Mode) (w : World) : Option AppsLoop :=
  startOf (appsMode mode w) ((startArgs "apps" mode w).usable (appsMode mode w))
    (w.syncMeta "global").maxAppId

def appsToStore (mode : Mode) (w : World) : List S1App :=
  match appsStart mode w with
  | none => []
  | some l => (after S1App.number w.s1.apps l.cursor).filter fun raw => raw.id.isSome

/-- Whether it gives names where it stores nothing. -/
def NamesAgents (mode : Mode) (w : World) : Prop :=
  appsMode mode w = .full ∨ ∃ l, appsStart mode w = some l ∧ 0 < l.synced

/-- What a run that stores nothing leaves. -/
structure AppsCompleted (mode : Mode) (w t : World) : Prop where
  nothing : appsToStore mode w = []
  apps : t.installedApps = marked (appsMode mode w) (fun _ => true) w.now w.installedApps
  agents : ∃ groups, groups <+: groupNames (fun _ => true) t.installedApps.docs ∧
    t.agents = nameAgents (fun _ => true) w.agents groups ∧
    (NamesAgents mode w → true ∉ w.nameFaults →
      groups = groupNames (fun _ => true) t.installedApps.docs)

def NoNumerals (py : Python) : Prop := ∀ (name : String) (n : Nat), py.uuid5 name ≠ toString n

def World.errors (w : World) : Nat := w.faults.countP Option.isSome

/-- What a run has left as it was before it writes. -/
structure Unwritten (w v : World) : Prop where
  apps : v.installedApps = w.installedApps
  agents : v.agents = w.agents
  s1 : v.s1 = w.s1
  syncMeta : v.syncMeta = w.syncMeta
  nameFaults : v.nameFaults = w.nameFaults

section Try

variable {py : Python} {pages : Nat} {w v : World} {run : AppsRun} {start : Option Nat}
  {synced k n : Nat}
variable {l : AppsLoop} {rest : List S1App}

/-- What the loop knows of the applications after the cursor at which it started:
one of them is in the buffer, or none that has an id has been handled. -/
structure AppsLoop.Upto (w : World) (start : Option Nat) (synced : Nat) (rest : List S1App)
    (l : AppsLoop) : Prop where
  cursor : l.cursor = start
  synced : l.synced = synced
  rejected : ∀ u ∈ l.buf, u.accepted = false
  listed : ∀ raw ∈ rest, raw ∈ after S1App.number w.s1.apps start
  found : l.buf ≠ [] → ∃ raw ∈ after S1App.number w.s1.apps start, raw.id.isSome
  missed : l.buf = [] → ∀ raw ∈ after S1App.number w.s1.apps start, raw.id.isSome → raw ∈ rest

theorem AppsLoop.Upto.pass {raw : S1App} (total : Nat)
    (h : l.Upto w start synced (raw :: rest)) (hid : raw.id = none) :
    ({ l with total := total } : AppsLoop).Upto w start synced rest where
  cursor := h.cursor
  synced := h.synced
  rejected := h.rejected
  listed x hx := h.listed x (List.mem_cons_of_mem raw hx)
  found := h.found
  missed hnil x hx hsome := by
    rcases List.mem_cons.mp (h.missed hnil x hx hsome) with heq | hrest
    · rw [heq, hid] at hsome
      cases hsome
    · exact hrest

theorem AppsLoop.Upto.add (hpy : NoNumerals py) (run : AppsRun) {raw : S1App}
    {id : Nat} (total : Nat) (h : l.Upto w start synced (raw :: rest)) (hid : raw.id = some id) :
    (({ l with total := total } : AppsLoop).add py run raw id).Upto w start synced rest where
  cursor := h.cursor
  synced := h.synced
  rejected u hu := by
    rcases List.mem_append.mp hu with hold | hnew
    · exact h.rejected u hold
    · rw [List.mem_singleton.mp hnew]
      exact beq_eq_false_iff_ne.mpr (hpy _ id)
  listed x hx := h.listed x (List.mem_cons_of_mem raw hx)
  found _ := by
    refine ⟨raw, h.listed raw List.mem_cons_self, ?_⟩
    rw [hid]
    rfl
  missed hnil := absurd hnil (List.append_ne_nil_of_right_ne_nil _ (List.cons_ne_nil _ _))

theorem bulkUpdateApps_rejected {updates : List AppUpdate} (h : ∀ u ∈ updates, u.accepted = false)
    (hne : updates ≠ []) : (bulkUpdateApps updates).run v = (v, false) := by
  have hnone : updates.filter AppUpdate.accepted = [] := by
    rw [List.filter_eq_nil_iff]
    intro u hu
    rw [h u hu]
    exact Bool.false_ne_true
  have hall : updates.all AppUpdate.accepted = false := by
    obtain ⟨u, hu⟩ := List.exists_mem_of_ne_nil _ hne
    rw [List.all_eq_false]
    exact ⟨u, hu, by rw [h u hu]; exact Bool.false_ne_true⟩
  show ({ v with installedApps := v.installedApps.bulkReplace _ }, _) = _
  rw [hnone, hall]
  rfl

/-- So that neither a batch nor the rest is stored. -/
theorem endures_bulkUpdateApps {ε : Type} {E : World → ε → Prop} {updates : List AppUpdate}
    (h : ∀ u ∈ updates, u.accepted = false) (hne : updates ≠ []) :
    AppsEndure w (fun t accepted => t = v ∧ accepted = false) E v
      (liftM (bulkUpdateApps updates)) := by
  have hrun := bulkUpdateApps_rejected (v := v) h hne
  exact appsEndure_still (congrArg Prod.fst hrun) ⟨rfl, congrArg Prod.snd hrun⟩

def TryFails (w : World) (start : Option Nat) (synced k : Nat) (v : World) :
    Stop SyncError ApiError AppsLoop → Prop
  | .failed _ => ∃ raw ∈ after S1App.number w.s1.apps start, raw.id.isSome
  | .again _ l => l.cursor = start ∧ l.synced = synced ∧ Unwritten w v ∧
    v.errors + 4 ≤ w.errors + k

theorem endures_getInstalledApplications {cursor : Option Nat}
    {Q : World → Page (S1Item S1App) Nat → Prop}
    {E : World → Stop SyncError ApiError AppsLoop → Prop}
    (hpage : v.faults.head?.join = none →
      Q { v with faults := v.faults.tail } (s1Page S1App.number run.batch v.s1.apps cursor))
    (herror : ∀ e, v.faults.head?.join = some e →
      E { v with faults := v.faults.tail } (.again e l)) :
    AppsEndure w Q E v (getInstalledApplications run l cursor) := by
  unfold getInstalledApplications
  let answered : World → Option ApiError × Page (S1Item S1App) Nat → Prop := fun t answer =>
    t = { v with faults := v.faults.tail } ∧
      answer = (v.faults.head?.join, s1Page S1App.number run.batch v.s1.apps cursor)
  refine EnduresOr.bind (Q := answered) (appsEndure_change (.answer v) ⟨rfl, rfl⟩) ?_
  rintro t answer ⟨rfl, rfl⟩
  dsimp only
  cases hfault : v.faults.head?.join with
  | none => exact enduresOr_pure (hpage hfault)
  | some e => exact enduresOr_throw (herror e hfault)

theorem errors_tail (v : World) :
    World.errors { v with faults := v.faults.tail } +
        (if v.faults.head?.join = none then 0 else 1) =
      v.errors := by
  unfold World.errors
  dsimp only
  rcases v.faults with _ | ⟨_ | e, rest⟩
  · rfl
  · simp
  · simp

/-- One turn of the loop, where every update is rejected. -/
theorem endures_syncApp (hpy : NoNumerals py) {raw : S1Item S1App} (hv : Unwritten w v)
    (herrors : v.errors + 3 ≤ w.errors + k)
    (h : l.Upto w start synced (raw.item :: rest)) :
    AppsEndure w
      (fun t l' => Unwritten w t ∧ t.errors + 3 ≤ w.errors + k ∧ l'.Upto w start synced rest)
      (TryFails w start synced k) v (syncApp py run l raw) := by
  unfold syncApp
  dsimp only
  cases hid : raw.item.id with
  | none => exact enduresOr_pure ⟨hv, herrors, h.pass _ hid⟩
  | some id =>
    have hadd := h.add hpy run (raw.total.getD l.total) hid
    have hne : (({ l with total := raw.total.getD l.total } : AppsLoop).add py run raw.item id).buf
        ≠ [] := List.append_ne_nil_of_right_ne_nil _ (List.cons_ne_nil _ _)
    dsimp only
    generalize AppsLoop.add _ py run raw.item id = filled at hadd hne
    by_cases hfull : run.batch ≤ filled.buf.length
    · rw [if_pos hfull]
      unfold flushBatch
      refine EnduresOr.bind (endures_bulkUpdateApps hadd.rejected hne) ?_
      rintro t accepted ⟨rfl, rfl⟩
      exact EnduresOr.bind (Q := fun _ _ => False) (enduresOr_throw (hadd.found hne))
        fun _ _ hfalse => hfalse.elim
    · rw [if_neg hfull]
      exact enduresOr_pure ⟨hv, herrors, hadd⟩

theorem endures_tryApps (hpy : NoNumerals py) (hpages : w.s1.apps.length < pages)
    (hbatch : 0 < run.batch) (hv : Unwritten w v)
    (herrors : v.errors + 3 ≤ w.errors + k) (hcursor : l.cursor = start)
    (hsynced : l.synced = synced) :
    AppsEndure w (fun t l' => Unwritten w t ∧ l'.Upto w start synced [])
      (TryFails w start synced k) v
      (tryApps py pages run l) := by
  let rest : Option Nat → List S1App := after S1App.number w.s1.apps
  let J : Nat → Option Nat → AppsLoop → World → Prop := fun n cursor l t =>
    (Unwritten w t ∧ t.errors + 3 ≤ w.errors + k ∧ l.Upto w start synced (rest cursor)) ∧
      (rest cursor).length < n
  let K : Nat → List (S1Item S1App) → Option Nat → AppsLoop → World → Prop := fun n ys next l t =>
    (Unwritten w t ∧ t.errors + 3 ≤ w.errors + k ∧
      l.Upto w start synced (ys.map S1Item.item ++ (next.map fun c => rest (some c)).getD [])) ∧
      ∀ c, next = some c → (rest (some c)).length < n
  have hscan : AppsEndure w (fun t l' => ∃ n, K n [] none l' t) (TryFails w start synced k) v
      (tryApps py pages run l) := by
    unfold tryApps
    refine enduresOr_scan J K ?_ ?_ ?_ ?_ ⟨⟨hv, herrors, ?_⟩, ?_⟩
    · exact fun cursor l t h => absurd h.2 (Nat.not_lt_zero _)
    · rintro n cursor l t ⟨⟨ht, herr, hupto⟩, hlength⟩
      have htail := errors_tail t
      refine endures_getInstalledApplications (fun hnone => ?_) (fun e hsome => ?_)
      · obtain ⟨hpage, hnext⟩ := s1Page_rest cursor hbatch t.s1.apps_sorted
        have happs : t.s1.apps = w.s1.apps := by rw [ht.s1]
        rw [happs] at hpage hnext ⊢
        refine ⟨⟨⟨ht.apps, ht.agents, ht.s1, ht.syncMeta, ht.nameFaults⟩, ?_, ?_⟩, fun c hc => ?_⟩
        · omega
        · rw [hpage]
          exact hupto
        · exact Nat.lt_of_lt_of_le (hnext c hc) (Nat.le_of_lt_succ hlength)
      · rw [hsome, if_neg (by simp)] at htail
        exact ⟨hupto.cursor, hupto.synced, ⟨ht.apps, ht.agents, ht.s1, ht.syncMeta, ht.nameFaults⟩,
          by omega⟩
    · rintro n y ys next l t ⟨⟨ht, herr, hupto⟩, hlength⟩
      refine (endures_syncApp hpy ht herr hupto).mono ?_ fun _ _ he => he
      exact fun t' l' h => ⟨h, hlength⟩
    · rintro n c l t ⟨h, hlength⟩
      exact ⟨h, hlength c rfl⟩
    · exact ⟨hcursor, hsynced, List.forall_mem_nil _,
        fun raw hraw => hcursor ▸ hraw, fun hne => absurd rfl hne, fun _ raw hraw _ =>
          hcursor ▸ hraw⟩
    · exact Nat.lt_of_le_of_lt (after_length_le _) hpages
  refine hscan.mono ?_ fun _ _ he => he
  rintro t l' ⟨n, ⟨ht, -, hupto⟩, -⟩
  exact ⟨ht, hupto⟩

/-- How the phase fails: an update is rejected, or a page fails too often. -/
def AppsFail (w : World) (start : Option Nat) : Prop :=
  (∃ raw ∈ after S1App.number w.s1.apps start, raw.id.isSome) ∨ 3 < w.errors

/-- Four tries. -/
theorem endures_retrying_apps (run : AppsRun) (l : AppsLoop) (hpy : NoNumerals py)
    (hpages : w.s1.apps.length < pages)
    (hbatch : 0 < run.batch) (hv : Unwritten w v) (hfaults : v.faults = w.faults) :
    AppsEndure w (fun t l' => Unwritten w t ∧ l'.Upto w l.cursor l.synced [])
      (fun _ _ => AppsFail w l.cursor) v (retrying (tryApps py pages run) SyncError.api 3 l) := by
  let J : Nat → AppsLoop → World → Prop := fun n l' t =>
    l'.cursor = l.cursor ∧ l'.synced = l.synced ∧ Unwritten w t ∧ t.errors + 3 ≤ w.errors + n
  refine enduresOr_retrying J (TryFails w l.cursor l.synced) ?_ ?_ ?_ ?_ ⟨rfl, rfl, hv, ?_⟩
  · exact fun n l t h => endures_tryApps hpy hpages hbatch h.2.2.1 h.2.2.2 h.1 h.2.1
  · exact fun n t e h => Or.inl h
  · rintro n t e l ⟨hcur, hsyn, ht, herr⟩
    exact ⟨hcur, hsyn, ht, by omega⟩
  · rintro t e l ⟨-, -, -, herr⟩
    exact Or.inr (by omega)
  · have herr : v.errors = w.errors := congrArg (List.countP Option.isSome) hfaults
    rw [herr]

/-- What comes before the names are given. -/
structure Marked (mode : Mode) (w v : World) : Prop where
  apps : v.installedApps = marked mode (fun _ => true) w.now w.installedApps
  agents : v.agents = w.agents
  nameFaults : v.nameFaults = w.nameFaults

/-- What follows the loop. -/
theorem endures_finishApps (hstarted : run.startedAt = w.now) (hv : Unwritten w v)
    (h : l.Upto w start synced []) :
    AppsEndure w
      (fun t _ => (∀ raw ∈ after S1App.number w.s1.apps start, raw.id = none) ∧
        ∃ u, Marked run.mode w u ∧ t.installedApps = u.installedApps ∧
        ((0 < synced ∨ run.mode = .full) →
          NamesSet (fun _ => true) (groupNames (fun _ => true) u.installedApps.docs) u t) ∧
        (¬(0 < synced ∨ run.mode = .full) → t.agents = u.agents))
      (fun _ _ => AppsFail w start) v (finishApps run l) := by
  have hrest : AppsEndure w
      (fun t count => t = v ∧ count = synced ∧
        ∀ raw ∈ after S1App.number w.s1.apps start, raw.id = none)
      (fun _ _ => AppsFail w start) v (flushAppsRest l) := by
    unfold flushAppsRest
    by_cases hne : l.buf ≠ []
    · rw [if_pos hne]
      refine EnduresOr.bind (endures_bulkUpdateApps h.rejected hne) ?_
      rintro t accepted ⟨rfl, rfl⟩
      exact EnduresOr.bind (Q := fun _ _ => False) (enduresOr_throw (Or.inl (h.found hne)))
        fun _ _ hfalse => hfalse.elim
    · rw [if_neg hne]
      refine enduresOr_pure ⟨rfl, h.synced, fun raw hraw => ?_⟩
      rw [← Option.not_isSome_iff_eq_none]
      exact fun hsome => absurd (h.missed (not_not.mp hne) raw hraw hsome) List.not_mem_nil
  unfold finishApps
  refine hrest.bind ?_
  rintro t count ⟨rfl, rfl, hnone⟩
  let recorded := t.updateMeta "global" (l.record run)
  have hrecord : AppsEndure w (fun u (_ : Unit) => u = recorded) (fun _ _ => AppsFail w start) t
      (updateMeta "global" (l.record run)) :=
    appsEndure_change (.record t (l.record run)) rfl
  refine hrecord.bind ?_
  rintro t₁ - rfl
  rw [hstarted]
  have hmark := endures_markStale (I := AppsChanges w) (E := fun _ _ => AppsFail w start)
    (v := recorded) run.mode (fun _ => true) w.now (fun u hI => hI.tail (.deactivate u))
    fun u hI => hI.tail (.reactivate u)
  refine hmark.bind fun u _ h₁ => ?_
  have hu : Marked run.mode w u := by
    rw [h₁]
    exact ⟨congrArg (marked run.mode (fun _ => true) w.now) hv.apps, hv.agents, hv.nameFaults⟩
  by_cases hnames : 0 < count ∨ run.mode = .full
  · rw [if_pos hnames]
    have hdenorm := endures_denormNames (I := AppsChanges w) (E := fun _ _ => AppsFail w start)
      (fun _ => true) (fun _ => true) (fun v failed names hI => hI.tail (.names v failed names)) u
    refine hdenorm.mono ?_ fun _ _ he => he
    exact fun t' _ ht' => ⟨hnone, u, hu, ht'.apps, fun _ => ht', fun hnot => absurd hnames hnot⟩
  · rw [if_neg hnames]
    exact enduresOr_pure ⟨hnone, u, hu, rfl, fun hyes => absurd hyes hnames, fun _ => rfl⟩

end Try

section Whole

variable {py : Python} {pages : Nat} {mode : Mode} {w v : World}

def AppsPhaseFails (mode : Mode) (w : World) : Prop := appsToStore mode w ≠ [] ∨ 3 < w.errors

theorem appsToStore_eq_nil {l : AppsLoop} (h : appsStart mode w = some l) :
    appsToStore mode w = [] ↔ ∀ raw ∈ after S1App.number w.s1.apps l.cursor, raw.id = none := by
  unfold appsToStore
  rw [h]
  dsimp only
  rw [List.filter_eq_nil_iff]
  exact forall₂_congr fun raw _ => Option.not_isSome_iff_eq_none

theorem AppsFail.phase {l : AppsLoop} (h : appsStart mode w = some l)
    (hfail : AppsFail w l.cursor) :
    AppsPhaseFails mode w := by
  refine hfail.imp_left ?_
  rintro ⟨raw, hraw, hid⟩ hnil
  rw [(appsToStore_eq_nil h).mp hnil raw hraw] at hid
  cases hid

theorem endures_resolveAppsMode {E : World → SyncError → Prop} (args : Mode)
    (hmeta : v.syncMeta = w.syncMeta) :
    AppsEndure w (fun t m => t = v ∧ m = resolveMode args (w.syncMeta "global").maxAppId) E v
      (resolveAppsMode args) := by
  unfold resolveAppsMode
  by_cases hauto : args = .auto
  · rw [if_pos hauto]
    refine (endures_read (I := AppsChanges w) .loadMeta fun u => u.syncMeta "global").bind ?_
    rintro t m ⟨rfl, rfl⟩
    refine enduresOr_pure ⟨rfl, ?_⟩
    rw [hauto, hmeta]
  · rw [if_neg hauto]
    refine enduresOr_pure ⟨rfl, ?_⟩
    cases args with
    | auto => exact absurd rfl hauto
    | full => rfl
    | incremental => rfl

theorem endures_startApps {E : World → SyncError → Prop} (m : Mode) (checkpoint : Option Checkpoint)
    (hmeta : v.syncMeta = w.syncMeta) :
    AppsEndure w
      (fun t l => t = v ∧ l = startOf m checkpoint (w.syncMeta "global").maxAppId) E v
      (startApps m checkpoint) := by
  unfold startApps startOf
  cases (checkpoint.bind fun c => c.lastId.map fun id => (c, id)) with
  | some c => exact enduresOr_pure ⟨rfl, rfl⟩
  | none =>
    dsimp only
    by_cases hfull : m = .full
    · rw [if_pos hfull, if_pos hfull]
      exact enduresOr_pure ⟨rfl, rfl⟩
    · rw [if_neg hfull, if_neg hfull]
      refine (endures_read (I := AppsChanges w) .loadMeta fun u => u.syncMeta "global").bind ?_
      rintro t syncMeta ⟨rfl, rfl⟩
      refine enduresOr_pure ⟨rfl, ?_⟩
      rw [hmeta]

theorem startOf_eq_none {m : Mode} {checkpoint : Option Checkpoint} {maxAppId : Option Nat}
    (h : startOf m checkpoint maxAppId = none) : m ≠ .full := by
  intro hfull
  unfold startOf at h
  rw [if_pos hfull] at h
  split at h <;> cases h

theorem endures_appsPhase (mode : Mode) (hpy : NoNumerals py) (hpages : w.s1.apps.length < pages) :
    AppsEndure w (fun t _ => AppsCompleted mode w t) (fun _ _ => AppsPhaseFails mode w) w
      (appsPhase py pages mode) := by
  refine endures_trigger ?_
  have hclear : ∀ v, AppsCompleted mode w v →
      AppsEndure w (fun t _ => AppsCompleted mode w t) (fun _ _ => AppsPhaseFails mode w) v
        (clearCheckpoint "apps") :=
    fun v hv => appsEndure_change (.clear v) ⟨hv.nothing, hv.apps, hv.agents⟩
  refine EnduresOr.bind (Q := fun t _ => AppsCompleted mode w t) ?_ fun v _ hv => hclear v hv
  unfold syncApps
  refine (endures_utcNow fun hI => hI.tail (.tick w)).bind ?_
  rintro v startedAt ⟨hv, rfl⟩
  have hunwritten : Unwritten w v := by
    rw [hv]
    exact ⟨rfl, rfl, rfl, rfl, rfl⟩
  have hfaults : v.faults = w.faults := by rw [hv]
  refine (endures_read (I := AppsChanges w) .config World.pageSizeApps).bind ?_
  rintro t batch ⟨rfl, hbatch⟩
  have hpos : 0 < batch := by
    rw [hbatch]
    exact t.pageSizeApps_pos
  refine (endures_resolveAppsMode (startArgs "apps" mode w).mode hunwritten.syncMeta).bind ?_
  rintro t' m ⟨rfl, hm⟩
  have hmode : m = appsMode mode w := hm
  refine (endures_checkMode (fun hI => hI.tail (.clear t')) _).bind ?_
  rintro u checkpoint ⟨hu, rfl⟩
  have hunwritten' : Unwritten w u ∧ u.faults = w.faults := by
    rcases hu with rfl | rfl
    · exact ⟨hunwritten, hfaults⟩
    · exact ⟨⟨hunwritten.apps, hunwritten.agents, hunwritten.s1, hunwritten.syncMeta,
        hunwritten.nameFaults⟩, hfaults⟩
  refine (endures_startApps m _ hunwritten'.1.syncMeta).bind ?_
  rintro u' start ⟨rfl, hstart⟩
  rw [hmode] at hstart ⊢
  have hloop : start = appsStart mode w := hstart
  cases start with
  | none =>
    have hnotFull := startOf_eq_none hstart.symm
    refine enduresOr_pure ⟨?_, ?_, [], List.nil_prefix, hunwritten'.1.agents, fun hnames => ?_⟩
    · unfold appsToStore
      rw [← hloop]
    · unfold marked
      rw [if_neg hnotFull, hunwritten'.1.apps]
    · rcases hnames with hfull | ⟨l, hl, -⟩
      · exact absurd hfull hnotFull
      · rw [hl] at hloop
        cases hloop
  | some l =>
    have hnil := appsToStore_eq_nil hloop.symm
    have htries := endures_retrying_apps ⟨w.now, batch, appsMode mode w⟩ l hpy hpages hpos
      hunwritten'.1 hunwritten'.2
    refine EnduresOr.bind (htries.mono (fun _ _ h => h) fun _ _ h => h.phase hloop.symm) ?_
    rintro t₁ l' ⟨h₁, hupto⟩
    refine (endures_finishApps rfl h₁ hupto).mono ?_ fun _ _ h => h.phase hloop.symm
    rintro t₂ - ⟨hnone, u₂, hmarked, happs, hnamed, hnot⟩
    refine ⟨hnil.mpr hnone, happs.trans hmarked.apps, ?_⟩
    rw [happs]
    by_cases hnames : 0 < l.synced ∨ appsMode mode w = .full
    · obtain ⟨done, hdone, hagents, hall⟩ := (hnamed hnames).agents
      rw [hmarked.agents] at hagents
      rw [hmarked.nameFaults] at hall
      exact ⟨done, hdone, hagents, fun _ => hall⟩
    · refine ⟨[], List.nil_prefix, (hnot hnames).trans hmarked.agents, fun hyes => ?_⟩
      rcases hyes with hfull | ⟨l₂, hl₂, hpositive⟩
      · exact absurd (Or.inr hfull) hnames
      · rw [hl₂, Option.some.injEq] at hloop
        rw [hloop] at hnames
        exact absurd (Or.inl hpositive) hnames

end Whole

end Sentora.Sync
