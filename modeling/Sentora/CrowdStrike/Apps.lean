import Sentora.CrowdStrike.Agents
import Sentora.Sync.Apps

/-!
# The apps phase of CrowdStrike

`CSAppsPhaseRunner` of `domains/sources/crowdstrike/sync_apps.py`.
-/

namespace Sentora.CrowdStrike

open Lib Process Sync

def denormAgentApps : Phase Unit :=
  denormNames (fun d => isOfSource d.source) fun d => isOfSource d.source

/-- An application.  The total comes with the first one only. -/
structure AppItem where
  total : Nat
  app : CsApp

/-- What the loop carries along.  An update asks for the id that it sets, so that
the buffer is one of replacements. -/
structure CsAppsLoop where
  buf : List AppDoc
  synced : Nat
  total : Nat

/-- What stays the same during the loop. -/
structure CsAppsRun where
  startedAt : Nat
  mode : Mode
  since : Option Nat

abbrev CsAppsTry := ExceptT (Stop SyncError CsError CsAppsLoop) (Process World SyncOp)

/-- The applications updated after a time, where `last_updated_timestamp` is asked
for. -/
def appsSince (cs : CsSource) (since : Option Nat) : List CsApp :=
  cs.apps.filter fun raw => since.all fun t => decide (t < raw.lastUpdatedTimestamp)

def appItems (total : Nat) : List CsApp → List AppItem
  | [] => []
  | app :: rest => ⟨total, app⟩ :: rest.map fun app => ⟨0, app⟩

/-- A page of `scroll_all_applications`, or the error that comes instead. -/
def getApplications (since : Option Nat) (l : CsAppsLoop) (cursor : Option Nat) :
    CsAppsTry (Page AppItem Nat) := do
  let answer ← liftM (Process.atomic (SyncOp.api "/discover/applications") fun w : World =>
    ({ w with csFaults := w.csFaults.tail },
      (w.csFaults.head?.join, w.cs.appSplit.page (appsSince w.cs since) cursor,
        if cursor.isNone then (appsSince w.cs since).length else 0)))
  match answer.1 with
  | some .discoverNotLicensed => throw (.failed (.csApi .discoverNotLicensed))
  | some e => throw (.again e l)
  | none => pure ⟨appItems answer.2.2 answer.2.1.items.flatten, answer.2.1.next⟩

def bulkReplaceApps (docs : List AppDoc) : Process World SyncOp Unit :=
  Process.write (SyncOp.write .installedApps) fun w =>
    { w with installedApps := w.installedApps.bulkReplace docs }

def csAppsCheckpoint (run : CsAppsRun) (l : CsAppsLoop) : Checkpoint where
  synced := l.synced + l.buf.length
  total := l.total
  mode := some run.mode

def flushApps (run : CsAppsRun) (l : CsAppsLoop) : CsAppsTry CsAppsLoop :=
  if 500 ≤ l.buf.length then do
    liftM (bulkReplaceApps l.buf)
    liftM (Process.write SyncOp.saveCheckpoint
      (World.setCheckpoint "cs_apps" (some (csAppsCheckpoint run l))))
    pure { l with buf := [], synced := l.synced + l.buf.length }
  else pure l

def syncApp (py : Python) (run : CsAppsRun) (l : CsAppsLoop) (raw : AppItem) :
    CsAppsTry CsAppsLoop :=
  flushApps run
    { l with
      buf := l.buf ++ [normalizeApplication py raw.app run.startedAt]
      total := if 0 < raw.total ∧ l.total = 0 then raw.total else l.total }

def tryApps (py : Python) (pages : Nat) (run : CsAppsRun) (l : CsAppsLoop) : CsAppsTry CsAppsLoop :=
  scan (getApplications run.since) (syncApp py run) (fun _ => .failed .unfinished) pages none
    { l with buf := [] }

def flushAppsRest (l : CsAppsLoop) : Phase Nat :=
  if l.buf ≠ [] then do
    liftM (bulkReplaceApps l.buf)
    pure (l.synced + l.buf.length)
  else pure l.synced

def finishApps (run : CsAppsRun) (l : CsAppsLoop) : Phase Unit := do
  let synced ← flushAppsRest l
  markStale run.mode (fun d => isOfSource d.source) run.startedAt
  updateMeta crowdstrike fun m => { m with appsSyncedAt := some run.startedAt }
  if 0 < synced ∨ run.mode = .full then denormAgentApps else pure ()

def endApps (run : CsAppsRun) : Except SyncError CsAppsLoop → Phase Unit
  | .ok l => finishApps run l
  | .error (.csApi .discoverNotLicensed) => pure ()
  | .error e => throw e

def syncApps (py : Python) (pages : Nat) (args : RunArgs) : Phase Unit := do
  let startedAt ← utcNow
  let syncMeta ← loadMeta crowdstrike
  let mode := resolveMode args.mode syncMeta.appsSyncedAt
  let checkpoint ← checkMode "cs_apps" mode args
  let run : CsAppsRun :=
    ⟨startedAt, mode, if mode = .full then none else syncMeta.appsSyncedAt⟩
  let start : CsAppsLoop :=
    ⟨[], (checkpoint.map Checkpoint.synced).getD 0, (checkpoint.map Checkpoint.total).getD 0⟩
  let result ← liftM (retrying (tryApps py pages run) SyncError.csApi 3 start).run
  endApps run result

def appsPhase (py : Python) (pages : Nat) (mode : Mode) : Phase Unit :=
  trigger "cs_apps" (syncApps py pages) mode

/-- A step of a run of the phase. -/
inductive CsAppsChange (py : Python) (startedAt : Nat) : World → World → Prop where
  | tick (v : World) : CsAppsChange py startedAt v { v with readings := v.readings + 1 }
  | answer (v : World) : CsAppsChange py startedAt v { v with csFaults := v.csFaults.tail }
  | checkpoint (v : World) (c : Option Checkpoint) :
    CsAppsChange py startedAt v (v.setCheckpoint "cs_apps" c)
  | record (v : World) (update : SyncMeta → SyncMeta) :
    CsAppsChange py startedAt v (v.updateMeta crowdstrike update)
  | store (v : World) (apps : List CsApp) :
    CsAppsChange py startedAt v
      { v with
        installedApps := v.installedApps.bulkReplace
          (apps.map fun raw => normalizeApplication py raw startedAt) }
  | deactivate (v : World) :
    CsAppsChange py startedAt v
      { v with
        installedApps := deactivated (fun d => isOfSource d.source) startedAt v.installedApps }
  | reactivate (v : World) :
    CsAppsChange py startedAt v
      { v with
        installedApps := reactivated (fun d => isOfSource d.source) startedAt v.installedApps }
  | names (v : World) (failed : Bool) (names : AgentNames) :
    CsAppsChange py startedAt v (v.nameOne (fun d => isOfSource d.source) failed names)

abbrev CsAppsChanges (py : Python) (w : World) : World → Prop :=
  Relation.ReflTransGen (CsAppsChange py w.now) w

abbrev CsAppsEndure {ε α : Type} (py : Python) (w : World) (Q : World → α → Prop)
    (E : World → ε → Prop) (v : World) (p : ExceptT ε (Process World SyncOp) α) : Prop :=
  EnduresOr Eq (CsAppsChanges py w) Q E v p

theorem csAppsEndure_change {ε α : Type} {py : Python} {w v : World} {Q : World → α → Prop}
    {E : World → ε → Prop} {op : SyncOp} {f : World → World × α}
    (h : CsAppsChange py w.now v (f v).1) (hQ : Q (f v).1 (f v).2) :
    CsAppsEndure py w Q E v (liftM (Process.atomic op f)) := by
  refine enduresOr_atomic ?_
  rintro _ rfl hI
  exact ⟨hI.tail h, hQ⟩

def csAppsMode (mode : Mode) (w : World) : Mode :=
  resolveMode (startArgs "cs_apps" mode w).mode (w.syncMeta crowdstrike).appsSyncedAt

def appsFetched (mode : Mode) (w : World) : List CsApp :=
  appsSince w.cs
    (if csAppsMode mode w = .full then none else (w.syncMeta crowdstrike).appsSyncedAt)

def appDocs (py : Python) (mode : Mode) (w : World) : List AppDoc :=
  (appsFetched mode w).map fun raw => normalizeApplication py raw w.now

/-- How far the fetched applications have been stored. -/
structure Storing (docs : List AppDoc) (w v : World) : Prop where
  agents : v.agents = w.agents
  cs : v.cs = w.cs
  nameFaults : v.nameFaults = w.nameFaults
  csFaults : v.csFaults <:+ w.csFaults
  origin : ∀ d ∈ v.installedApps, d ∈ docs ∨ d ∈ w.installedApps
  kept : ∀ d ∈ w.installedApps, d.id ∉ docs.map AppDoc.id → d ∈ v.installedApps

def DistinctApps (docs : List AppDoc) : Prop := ∀ d ∈ docs, ∀ e ∈ docs, d.id = e.id → d = e

/-- What has been handled is stored or in the buffer. -/
structure CsAppsLoop.Upto (docs rest : List AppDoc) (v : World) (l : CsAppsLoop) : Prop where
  buffered : ∀ d ∈ l.buf, d ∈ docs
  listed : ∀ d ∈ rest, d ∈ docs
  handled : DistinctApps docs → ∀ d ∈ docs, d ∈ rest ∨ d ∈ l.buf ∨ d ∈ v.installedApps
  counted : docs = [] ∨ rest ≠ [] ∨ l.buf ≠ [] ∨ 0 < l.synced

section Store

variable {docs rest : List AppDoc} {w v : World} {l : CsAppsLoop}

/-- The buffer is written. -/
theorem Storing.store (h : Storing docs w v) (hbuf : ∀ d ∈ l.buf, d ∈ docs) :
    Storing docs w { v with installedApps := v.installedApps.bulkReplace l.buf } where
  agents := h.agents
  cs := h.cs
  nameFaults := h.nameFaults
  csFaults := h.csFaults
  origin d hd := by
    rcases Collection.mem_or_mem_of_bulkReplace hd with hnew | hold
    · exact Or.inl (hbuf d hnew)
    · exact h.origin d hold
  kept d hd hid := by
    refine Collection.mem_bulkReplace_of_other (h.kept d hd hid) fun hmem => hid ?_
    obtain ⟨e, he, hkey⟩ := List.mem_map.mp hmem
    rw [← hkey]
    exact List.mem_map_of_mem (hbuf e he)

theorem CsAppsLoop.Upto.store (h : l.Upto docs rest v) (hdocs : DistinctApps docs) {d : AppDoc}
    (hd : d ∈ docs) : d ∈ rest ∨ d ∈ v.installedApps.bulkReplace l.buf := by
  rcases h.handled hdocs d hd with hrest | hstored
  · exact Or.inl hrest
  · refine Or.inr (Collection.mem_bulkReplace_of_unique (fun e he hid => ?_) hstored)
    exact hdocs e (h.buffered e he) d hd hid

end Store

def CsTryFails (docs : List AppDoc) (w v : World) : Stop SyncError CsError CsAppsLoop → Prop
  | .failed e => e = .csApi .discoverNotLicensed → some CsError.discoverNotLicensed ∈ w.csFaults
  | .again reason _ => Storing docs w v ∧ reason ≠ .discoverNotLicensed

section Try

variable {py : Python} {pages : Nat} {w v : World} {run : CsAppsRun} {docs rest : List AppDoc}
variable {l : CsAppsLoop}

/-- A full buffer is written. -/
theorem endures_flushApps (happs : ∃ apps : List CsApp,
      l.buf = apps.map fun raw => normalizeApplication py raw w.now)
    (hv : Storing docs w v) (h : l.Upto docs rest v) :
    CsAppsEndure py w
      (fun t l' => (Storing docs w t ∧ l'.Upto docs rest t) ∧ ∃ apps : List CsApp,
        l'.buf = apps.map fun raw => normalizeApplication py raw w.now)
      (CsTryFails docs w) v (flushApps run l) := by
  unfold flushApps
  by_cases hfull : 500 ≤ l.buf.length
  · rw [if_pos hfull]
    obtain ⟨apps, happs⟩ := happs
    let stored : World := { v with installedApps := v.installedApps.bulkReplace l.buf }
    have hstore : CsAppsEndure py w (fun t (_ : Unit) => t = stored) (CsTryFails docs w) v
        (liftM (bulkReplaceApps l.buf)) := by
      refine csAppsEndure_change ?_ rfl
      rw [happs]
      exact .store v apps
    refine hstore.bind ?_
    rintro t - rfl
    have hsave : CsAppsEndure py w
        (fun t (_ : Unit) => t = stored.setCheckpoint "cs_apps" (some (csAppsCheckpoint run l)))
        (CsTryFails docs w) stored
        (liftM (Process.write SyncOp.saveCheckpoint
          (World.setCheckpoint "cs_apps" (some (csAppsCheckpoint run l))))) :=
      csAppsEndure_change (.checkpoint stored _) rfl
    refine hsave.bind ?_
    rintro t - rfl
    have hstoring := hv.store h.buffered
    refine enduresOr_pure ⟨⟨⟨hstoring.agents, hstoring.cs, hstoring.nameFaults, hstoring.csFaults,
      hstoring.origin, hstoring.kept⟩, ?_⟩, [], rfl⟩
    refine ⟨List.forall_mem_nil _, h.listed, fun hdocs d hd => ?_, ?_⟩
    · exact (h.store hdocs hd).imp_right Or.inr
    · show docs = [] ∨ rest ≠ [] ∨ [] ≠ [] ∨ 0 < l.synced + l.buf.length
      omega
  · rw [if_neg hfull]
    exact enduresOr_pure ⟨⟨hv, h⟩, happs⟩

def docsAfter (py : Python) (w : World) (since cursor : Option Nat) : List AppDoc :=
  (w.cs.appSplit.rest (appsSince w.cs since) cursor).flatten.map fun raw =>
    normalizeApplication py raw w.now

theorem appItems_map (total : Nat) (apps : List CsApp) :
    (appItems total apps).map AppItem.app = apps := by
  cases apps with
  | nil => rfl
  | cons app rest => simp [appItems, Function.comp_def]

theorem appItems_docs (total : Nat) (apps : List CsApp) :
    (appItems total apps).map (fun raw => normalizeApplication py raw.app w.now) =
      apps.map fun raw => normalizeApplication py raw w.now := by
  rw [← appItems_map total apps, List.map_map, appItems_map]
  rfl

theorem page_docs (since cursor : Option Nat) :
    ((w.cs.appSplit.page (appsSince w.cs since) cursor).items.flatten.map fun raw =>
        normalizeApplication py raw w.now) ++
      ((w.cs.appSplit.page (appsSince w.cs since) cursor).next.map fun c =>
        docsAfter py w since (some c)).getD [] = docsAfter py w since cursor := by
  cases hnext : (w.cs.appSplit.page (appsSince w.cs since) cursor).next with
  | none =>
    rw [Split.last_page hnext]
    exact List.append_nil _
  | some c =>
    unfold docsAfter
    rw [← (Split.next_page hnext).2, List.flatten_append, List.map_append]
    rfl

theorem mem_of_answer {faults : List (Option CsError)} {e : CsError}
    (h : faults.head?.join = some e) : some e ∈ faults := by
  cases faults with
  | nil => cases h
  | cons fault rest =>
    rw [show fault = some e from h]
    exact List.mem_cons_self

/-- One turn of the loop. -/
theorem endures_syncApp {raw : AppItem} (hstarted : run.startedAt = w.now)
    (happs : ∃ apps : List CsApp, l.buf = apps.map fun raw => normalizeApplication py raw w.now)
    (hv : Storing docs w v) (h : l.Upto docs (normalizeApplication py raw.app w.now :: rest) v) :
    CsAppsEndure py w
      (fun t l' => (Storing docs w t ∧ l'.Upto docs rest t) ∧ ∃ apps : List CsApp,
        l'.buf = apps.map fun raw => normalizeApplication py raw w.now)
      (CsTryFails docs w) v (syncApp py run l raw) := by
  unfold syncApp
  rw [hstarted]
  refine endures_flushApps ?_ hv ?_
  · obtain ⟨apps, happs⟩ := happs
    refine ⟨apps ++ [raw.app], ?_⟩
    rw [List.map_append, ← happs]
    rfl
  · refine ⟨fun d hd => ?_, fun d hd => h.listed d (List.mem_cons_of_mem _ hd),
      fun hdocs d hd => ?_, ?_⟩
    · rcases List.mem_append.mp hd with hold | hnew
      · exact h.buffered d hold
      · rw [List.mem_singleton.mp hnew]
        exact h.listed _ List.mem_cons_self
    · rcases h.handled hdocs d hd with hmem | hbuf | hstored
      · rcases List.mem_cons.mp hmem with heq | hrest
        · exact Or.inr (Or.inl (List.mem_append_right _ (List.mem_singleton.mpr heq)))
        · exact Or.inl hrest
      · exact Or.inr (Or.inl (List.mem_append_left _ hbuf))
      · exact Or.inr (Or.inr hstored)
    · exact Or.inr (Or.inr (Or.inl (List.append_ne_nil_of_right_ne_nil _ (List.cons_ne_nil _ _))))

theorem endures_tryApps (run : CsAppsRun) (l : CsAppsLoop) (hstarted : run.startedAt = w.now)
    (hv : Storing (docsAfter py w run.since none) w v) :
    CsAppsEndure py w
      (fun t l' => (Storing (docsAfter py w run.since none) w t ∧
        l'.Upto (docsAfter py w run.since none) [] t) ∧ ∃ apps : List CsApp,
          l'.buf = apps.map fun raw => normalizeApplication py raw w.now)
      (CsTryFails (docsAfter py w run.since none) w) v (tryApps py pages run l) := by
  let docs := docsAfter py w run.since none
  let J : Nat → Option Nat → CsAppsLoop → World → Prop := fun _ cursor l t =>
    (Storing docs w t ∧ l.Upto docs (docsAfter py w run.since cursor) t) ∧ ∃ apps : List CsApp,
      l.buf = apps.map fun raw => normalizeApplication py raw w.now
  let K : Nat → List AppItem → Option Nat → CsAppsLoop → World → Prop := fun _ ys next l t =>
    (Storing docs w t ∧ l.Upto docs
      (ys.map (fun raw => normalizeApplication py raw.app w.now) ++
        (next.map fun c => docsAfter py w run.since (some c)).getD []) t) ∧ ∃ apps : List CsApp,
      l.buf = apps.map fun raw => normalizeApplication py raw w.now
  unfold tryApps
  have hscan : CsAppsEndure py w (fun t l' => ∃ n, K n [] none l' t) (CsTryFails docs w) v
      (scan (getApplications run.since) (syncApp py run) (fun _ => .failed .unfinished) pages none
        { l with buf := [] }) := by
    refine enduresOr_scan J K ?_ ?_ ?_ (fun _ _ _ _ h => h) ⟨⟨hv, ?_⟩, [], rfl⟩
    · exact fun _ _ _ _ heq => nomatch heq
    · rintro n cursor l t ⟨⟨ht, hupto⟩, happs⟩
      let popped : World := { t with csFaults := t.csFaults.tail }
      have hpopped : Storing docs w popped :=
        ⟨ht.agents, ht.cs, ht.nameFaults, (List.tail_suffix _).trans ht.csFaults, ht.origin,
          ht.kept⟩
      have hanswer : CsAppsEndure py w (fun u answer => u = popped ∧
          answer = (t.csFaults.head?.join, t.cs.appSplit.page (appsSince t.cs run.since) cursor,
            if cursor.isNone then (appsSince t.cs run.since).length else 0)) (CsTryFails docs w) t
          (liftM (Process.atomic (SyncOp.api "/discover/applications") fun w : World =>
            ({ w with csFaults := w.csFaults.tail },
              (w.csFaults.head?.join, w.cs.appSplit.page (appsSince w.cs run.since) cursor,
                if cursor.isNone then (appsSince w.cs run.since).length else 0)))) :=
        csAppsEndure_change (.answer t) ⟨rfl, rfl⟩
      unfold getApplications
      refine hanswer.bind ?_
      rintro u answer ⟨rfl, rfl⟩
      dsimp only
      rw [ht.cs]
      match hfault : t.csFaults.head?.join with
      | none =>
        refine enduresOr_pure ⟨⟨hpopped, ?_⟩, happs⟩
        dsimp only
        rw [appItems_docs, page_docs]
        exact ⟨hupto.buffered, hupto.listed, hupto.handled, hupto.counted⟩
      | some .discoverNotLicensed =>
        exact enduresOr_throw fun _ => ht.csFaults.subset (mem_of_answer hfault)
      | some .rateLimit => exact enduresOr_throw ⟨hpopped, by decide⟩
      | some .api => exact enduresOr_throw ⟨hpopped, by decide⟩
    · rintro n y ys next l t ⟨⟨ht, hupto⟩, happs⟩
      exact endures_syncApp hstarted happs ht hupto
    · refine ⟨List.forall_mem_nil _, fun d hd => hd, fun _ d hd => Or.inl hd, ?_⟩
      exact or_iff_not_imp_left.mpr fun hne => Or.inl hne
  refine hscan.mono ?_ fun _ _ he => he
  rintro t l' ⟨_, h⟩
  exact h

/-- Four tries. -/
theorem endures_retrying_apps (run : CsAppsRun) (l : CsAppsLoop) (hstarted : run.startedAt = w.now)
    (hv : Storing (docsAfter py w run.since none) w v) :
    CsAppsEndure py w
      (fun t l' => (Storing (docsAfter py w run.since none) w t ∧
        l'.Upto (docsAfter py w run.since none) [] t) ∧ ∃ apps : List CsApp,
          l'.buf = apps.map fun raw => normalizeApplication py raw w.now)
      (fun _ e => e = .csApi .discoverNotLicensed → some CsError.discoverNotLicensed ∈ w.csFaults) v
      (retrying (tryApps py pages run) SyncError.csApi 3 l) := by
  let docs := docsAfter py w run.since none
  refine enduresOr_retrying (fun _ _ t => Storing docs w t) (fun _ => CsTryFails docs w)
    ?_ ?_ ?_ ?_ hv
  · exact fun n l t ht => endures_tryApps run l hstarted ht
  · exact fun n t e he => he
  · exact fun n t reason l h => h.1
  · rintro t reason l ⟨-, hreason⟩ heq
    exact absurd (SyncError.csApi.inj heq) hreason

/-- What is stored when the rest has been written. -/
structure Stored (docs : List AppDoc) (w t : World) : Prop extends Storing docs w t where
  listed : DistinctApps docs → ∀ d ∈ docs, d ∈ t.installedApps

theorem endures_flushAppsRest {E : World → SyncError → Prop}
    (happs : ∃ apps : List CsApp, l.buf = apps.map fun raw => normalizeApplication py raw w.now)
    (hv : Storing docs w v) (h : l.Upto docs [] v) :
    CsAppsEndure py w (fun t synced => Stored docs w t ∧ (docs = [] ∨ 0 < synced)) E v
      (flushAppsRest l) := by
  have hstored : DistinctApps docs → ∀ d ∈ docs, d ∈ v.installedApps.bulkReplace l.buf :=
    fun hdocs d hd => (h.store hdocs hd).resolve_left List.not_mem_nil
  unfold flushAppsRest
  by_cases hne : l.buf ≠ []
  · rw [if_pos hne]
    obtain ⟨apps, happs⟩ := happs
    let stored : World := { v with installedApps := v.installedApps.bulkReplace l.buf }
    have hstore : CsAppsEndure py w (fun t (_ : Unit) => t = stored) E v
        (liftM (bulkReplaceApps l.buf)) := by
      refine csAppsEndure_change ?_ rfl
      rw [happs]
      exact .store v apps
    refine hstore.bind ?_
    rintro t - rfl
    have hpos : 0 < l.buf.length := List.length_pos_iff.mpr hne
    exact enduresOr_pure ⟨⟨hv.store h.buffered, hstored⟩, Or.inr (by omega)⟩
  · rw [if_neg hne]
    rw [not_not] at hne
    rw [hne] at hstored
    refine enduresOr_pure ⟨⟨hv, hstored⟩, ?_⟩
    rcases h.counted with hnil | hrest | hbuf | hpos
    · exact Or.inl hnil
    · exact absurd rfl hrest
    · exact absurd hne hbuf
    · exact Or.inr hpos

/-- What a run of a mode leaves, where the licence is there. -/
structure Completed (docs : List AppDoc) (mode : Mode) (w t : World) : Prop where
  apps : ∃ u, Stored docs w u ∧
    t.installedApps = marked mode (fun d => isOfSource d.source) w.now u.installedApps
  agents : ∃ groups,
    groups <+: groupNames (fun d => isOfSource d.source) t.installedApps.docs ∧
    t.agents = nameAgents (fun d => isOfSource d.source) w.agents groups ∧
    (docs ≠ [] ∨ mode = .full → true ∉ w.nameFaults →
      groups = groupNames (fun d => isOfSource d.source) t.installedApps.docs)

theorem endures_finishApps {E : World → SyncError → Prop} (run : CsAppsRun)
    (hstarted : run.startedAt = w.now)
    (happs : ∃ apps : List CsApp, l.buf = apps.map fun raw => normalizeApplication py raw w.now)
    (hv : Storing docs w v) (h : l.Upto docs [] v) :
    CsAppsEndure py w (fun t _ => Completed docs run.mode w t) E v (finishApps run l) := by
  unfold finishApps
  refine (endures_flushAppsRest happs hv h).bind ?_
  rintro u synced ⟨hu, hsynced⟩
  rw [hstarted]
  have hmark := endures_markStale (I := CsAppsChanges py w) (E := E) (v := u) run.mode
    (fun d => isOfSource d.source) w.now (fun u hI => hI.tail (.deactivate u))
    fun u hI => hI.tail (.reactivate u)
  refine hmark.bind ?_
  rintro t₁ - rfl
  let final : World :=
    { u with
      installedApps := marked run.mode (fun d => isOfSource d.source) w.now u.installedApps }
  let recorded := final.updateMeta crowdstrike fun m => { m with appsSyncedAt := some w.now }
  have hrecord : CsAppsEndure py w (fun t (_ : Unit) => t = recorded) E final
      (updateMeta crowdstrike fun m => { m with appsSyncedAt := some w.now }) :=
    csAppsEndure_change (.record final fun m => { m with appsSyncedAt := some w.now }) rfl
  refine hrecord.bind ?_
  rintro t₂ - rfl
  by_cases hnames : 0 < synced ∨ run.mode = .full
  · rw [if_pos hnames]
    have hdenorm := endures_denormNames (I := CsAppsChanges py w) (E := E)
      (fun d => isOfSource d.source) (fun d => isOfSource d.source)
      (fun v failed names hI => hI.tail (.names v failed names)) recorded
    refine hdenorm.mono (fun t _ ht => ?_) fun _ _ he => he
    obtain ⟨groups, hprefix, hagents, hall⟩ := ht.agents
    refine ⟨⟨u, hu, ht.apps⟩, groups, ?_, ?_, fun _ => ?_⟩
    · rw [ht.apps]
      exact hprefix
    · rw [hagents]
      exact congrArg (fun agents => nameAgents _ agents groups) hu.agents
    · rw [ht.apps, ← hu.nameFaults]
      exact hall
  · rw [if_neg hnames]
    refine enduresOr_pure ⟨⟨u, hu, rfl⟩, [], List.nil_prefix, hu.agents, fun hyes => ?_⟩
    rcases hyes with hdocs | hfull
    · exact absurd (Or.inl (hsynced.resolve_left hdocs)) hnames
    · exact absurd (Or.inr hfull) hnames

end Try

section Whole

variable {py : Python} {pages : Nat} {w : World}

theorem docsAfter_none (since : Option Nat) :
    docsAfter py w since none =
      (appsSince w.cs since).map fun raw => normalizeApplication py raw w.now := by
  show ((w.cs.appSplit.batches _).drop 0).flatten.map _ = _
  rw [List.drop_zero, w.cs.appSplit.flatten_batches]

theorem endures_appsPhase (mode : Mode) :
    CsAppsEndure py w
      (fun t _ => Completed (appDocs py mode w) (csAppsMode mode w) w t ∨
        some CsError.discoverNotLicensed ∈ w.csFaults) (fun _ _ => True) w
      (appsPhase py pages mode) := by
  refine endures_trigger ?_
  refine EnduresOr.bind (Q := fun t _ => Completed (appDocs py mode w) (csAppsMode mode w) w t ∨
      some CsError.discoverNotLicensed ∈ w.csFaults) ?_ fun v _ hv =>
    csAppsEndure_change (.checkpoint v none) (hv.imp_left fun h => ⟨h.apps, h.agents⟩)
  unfold syncApps
  refine (endures_utcNow fun hI => hI.tail (.tick w)).bind ?_
  rintro v startedAt ⟨hv, rfl⟩
  refine (endures_read (I := CsAppsChanges py w) .loadMeta fun u => u.syncMeta crowdstrike).bind ?_
  rintro t syncMeta ⟨rfl, hmeta⟩
  refine (endures_checkMode (fun hI => hI.tail (.checkpoint t none)) _).bind ?_
  rintro u checkpoint ⟨hu, rfl⟩
  rw [show syncMeta = w.syncMeta crowdstrike by rw [hmeta, hv]]
  have hstoring : Storing (appDocs py mode w) w u := by
    rcases hu with rfl | rfl
    · rw [hv]
      exact ⟨rfl, rfl, rfl, List.suffix_rfl, fun d hd => Or.inr hd, fun d hd _ => hd⟩
    · rw [hv]
      exact ⟨rfl, rfl, rfl, List.suffix_rfl, fun d hd => Or.inr hd, fun d hd _ => hd⟩
  let run : CsAppsRun :=
    ⟨w.now, csAppsMode mode w,
      if csAppsMode mode w = .full then none else (w.syncMeta crowdstrike).appsSyncedAt⟩
  have hafter : appDocs py mode w = docsAfter py w run.since none :=
    (docsAfter_none run.since).symm
  rw [hafter] at hstoring ⊢
  refine (enduresOr_lift (endures_retrying_apps run _ rfl hstoring)).bind ?_
  rintro t' result hresult
  match result, hresult with
  | .ok l', ⟨⟨ht', hupto⟩, happs⟩ =>
    have hfinish := endures_finishApps (E := fun _ _ => True) run rfl happs ht' hupto
    exact hfinish.mono (fun _ _ h => Or.inl h) fun _ _ _ => trivial
  | .error (.csApi .discoverNotLicensed), hfault =>
    exact enduresOr_pure (Or.inr (hfault rfl))
  | .error (.csApi .rateLimit), _ => exact enduresOr_throw trivial
  | .error (.csApi .api), _ => exact enduresOr_throw trivial
  | .error .unfinished, _ => exact enduresOr_throw trivial
  | .error (.api _), _ => exact enduresOr_throw trivial
  | .error .bulkWrite, _ => exact enduresOr_throw trivial

end Whole

end Sentora.CrowdStrike
