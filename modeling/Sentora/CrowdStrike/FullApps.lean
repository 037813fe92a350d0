import Sentora.CrowdStrike.Apps
import Sentora.Sync.FullApps

/-!
# Full syncs of the CrowdStrike applications

Whether the active applications of CrowdStrike are those of the listing after a full sync with
retries and interruptions, and whether it reports as many.

A try that fails has counted the batches that it has stored, and the next try stores and counts
them again; a run that is resumed begins with the count of its checkpoint and with the first page.
-/

namespace Sentora.CrowdStrike

open Lib Process Sync

def renameAgents (run : CsAppsRun) (synced : Nat) : Phase Unit :=
  if 0 < synced ∨ run.mode = .full then denormAgentApps else pure ()

/-- `finishApps`, with the number that `_synced` is set to. -/
def reportApps (run : CsAppsRun) (l : CsAppsLoop) : Phase Nat := do
  let synced ← flushAppsRest l
  markStale run.mode (fun d => isOfSource d.source) run.startedAt
  updateMeta crowdstrike fun m => { m with appsSyncedAt := some run.startedAt }
  renameAgents run synced
  pure synced

def reportEnd (run : CsAppsRun) : Except SyncError CsAppsLoop → Phase Nat
  | .ok l => reportApps run l
  | .error (.csApi .discoverNotLicensed) => pure 0
  | .error e => throw e

/-- `_sync_apps` with another end. -/
def syncThen {α : Type} (ending : CsAppsRun → Except SyncError CsAppsLoop → Phase α) (py : Python)
    (pages : Nat) (args : RunArgs) : Phase α := do
  let startedAt ← utcNow
  let syncMeta ← loadMeta crowdstrike
  let mode := resolveMode args.mode syncMeta.appsSyncedAt
  let checkpoint ← checkMode "cs_apps" mode args
  let run : CsAppsRun :=
    ⟨startedAt, mode, if mode = .full then none else syncMeta.appsSyncedAt⟩
  let start : CsAppsLoop :=
    ⟨[], (checkpoint.map Checkpoint.synced).getD 0, (checkpoint.map Checkpoint.total).getD 0⟩
  let result ← liftM (retrying (tryApps py pages run) SyncError.csApi 3 start).run
  ending run result

theorem syncApps_eq (py : Python) (pages : Nat) (args : RunArgs) :
    syncApps py pages args = syncThen endApps py pages args := rfl

/-- `_sync_apps`, with the number that it reports. -/
def reportSync (py : Python) (pages : Nat) (args : RunArgs) : Phase Nat :=
  syncThen reportEnd py pages args

def reportRun (py : Python) (pages : Nat) (mode : Mode) (w : World) : Phase Nat := do
  let synced ← reportSync py pages (startArgs "cs_apps" mode w)
  clearCheckpoint "cs_apps"
  pure synced

section Reports

variable {py : Python} {pages : Nat} {mode : Mode} {w t : World} {run : CsAppsRun}

theorem returns_finishApps {l : CsAppsLoop} {v : World} :
    Returns (finishApps run l) v () t ↔ ∃ n, Returns (reportApps run l) v n t := by
  show Returns (do
    let synced ← flushAppsRest l
    markStale run.mode (fun d => isOfSource d.source) run.startedAt
    updateMeta crowdstrike fun m => { m with appsSyncedAt := some run.startedAt }
    renameAgents run synced) v () t ↔ _
  unfold reportApps
  simp only [returns_bind, returns_pure]
  constructor
  · rintro ⟨n, v₁, hflush, u₁, v₂, hmark, u₂, v₃, hmeta, hnames⟩
    exact ⟨n, n, v₁, hflush, u₁, v₂, hmark, u₂, v₃, hmeta, (), t, hnames, rfl, rfl⟩
  · rintro ⟨-, n, v₁, hflush, u₁, v₂, hmark, u₂, v₃, hmeta, u₃, v₄, hnames, -, rfl⟩
    exact ⟨n, v₁, hflush, u₁, v₂, hmark, u₂, v₃, hmeta, hnames⟩

theorem returns_endApps {result : Except SyncError CsAppsLoop} {v : World} :
    Returns (endApps run result) v () t ↔ ∃ n, Returns (reportEnd run result) v n t := by
  match result with
  | .ok l => exact returns_finishApps
  | .error (.csApi .discoverNotLicensed) => simp [endApps, reportEnd]
  | .error (.csApi .rateLimit) | .error (.csApi .api) | .error .unfinished | .error (.api _)
  | .error .bulkWrite => simp [endApps, reportEnd]

theorem returns_appsPhase :
    Returns (appsPhase py pages mode) w () t ↔ ∃ n, Returns (reportRun py pages mode w) w n t := by
  unfold appsPhase reportRun
  rw [returns_trigger]
  unfold safeRun
  have hsync : ∀ args v, Returns (syncApps py pages args) w () v ↔
      ∃ n, Returns (reportSync py pages args) w n v := by
    intro args v
    rw [syncApps_eq]
    unfold reportSync syncThen
    simp only [returns_bind, returns_endApps]
    constructor
    · rintro ⟨a, v₁, h₁, b, v₂, h₂, c, v₃, h₃, r, v₄, h₄, n, hn⟩
      exact ⟨n, a, v₁, h₁, b, v₂, h₂, c, v₃, h₃, r, v₄, h₄, hn⟩
    · rintro ⟨n, a, v₁, h₁, b, v₂, h₂, c, v₃, h₃, r, v₄, h₄, hn⟩
      exact ⟨a, v₁, h₁, b, v₂, h₂, c, v₃, h₃, r, v₄, h₄, n, hn⟩
  simp only [returns_bind, returns_pure]
  constructor
  · rintro ⟨⟨⟩, v, hv, hclear⟩
    obtain ⟨n, hn⟩ := (hsync _ v).mp hv
    exact ⟨n, n, v, hn, (), t, hclear, rfl, rfl⟩
  · rintro ⟨-, n, v, hn, u, v', hclear, -, rfl⟩
    exact ⟨(), v, (hsync _ v).mpr ⟨n, hn⟩, hclear⟩

end Reports

def positions {α : Type} : Nat → List (List α) → List Nat
  | k, [] | k, [_] => [k]
  | k, page :: next :: rest => k :: positions (k + page.length) (next :: rest)

def EarlyErrors {ε : Type} (all : List Nat) : List Nat → List (Option ε) → Prop
  | [], _ | _ :: _, [] => True
  | _ :: calls, none :: answers => EarlyErrors all calls answers
  | k :: _, some _ :: answers => k < 500 ∧ EarlyErrors all all answers

instance EarlyErrors.decidable {ε : Type} (all : List Nat) :
    ∀ (calls : List Nat) (answers : List (Option ε)), Decidable (EarlyErrors all calls answers)
  | [], [] | [], _ :: _ | _ :: _, [] => isTrue trivial
  | _ :: calls, none :: answers => decidable all calls answers
  | k :: _, some _ :: answers =>
    have := decidable all all answers
    inferInstanceAs (Decidable (k < 500 ∧ _))

section Early

variable {ε α : Type} {all calls : List Nat} {answers : List (Option ε)} {k : Nat}

theorem earlyErrors_nil : EarlyErrors all [] answers ↔ True := by
  cases answers <;> exact Iff.rfl

theorem earlyErrors_answered (h : answers.head?.join = none) :
    EarlyErrors all (k :: calls) answers ↔ EarlyErrors all calls answers.tail := by
  cases answers with
  | nil => cases calls <;> exact Iff.rfl
  | cons answer answers =>
    rw [show answer = none from h]
    exact Iff.rfl

theorem earlyErrors_failed {e : ε} (h : answers.head?.join = some e) :
    EarlyErrors all (k :: calls) answers ↔ k < 500 ∧ EarlyErrors all all answers.tail := by
  cases answers with
  | nil => cases h
  | cons answer answers =>
    rw [show answer = some e from h]
    exact Iff.rfl

theorem positions_page (split : Split α) (xs : List α) (cursor : Option Nat) :
    positions k (split.rest xs cursor) =
      k :: (((split.page xs cursor).next.map fun c =>
        positions (k + (split.page xs cursor).items.flatten.length)
          (split.rest xs (some c))).getD []) := by
  cases hnext : (split.page xs cursor).next with
  | none =>
    have hlast := Split.next_eq_none_iff.mp hnext
    match hrest : split.rest xs cursor with
    | [] | [_] => rfl
    | _ :: _ :: _ =>
      rw [hrest] at hlast
      exact absurd (by simp) hlast
  | some c =>
    obtain ⟨hne, hsplit⟩ := Split.next_page hnext
    have hmore : 1 < (split.rest xs cursor).length := by
      by_contra hlast
      rw [Split.next_eq_none_iff.mpr hlast] at hnext
      cases hnext
    have hitems : (split.page xs cursor).items = (split.rest xs cursor).take 1 := rfl
    match hrest : split.rest xs cursor with
    | [] | [_] =>
      rw [hrest] at hmore
      exact absurd hmore (by simp)
    | page :: next :: rest =>
      rw [hrest] at hitems hsplit
      rw [hitems] at hsplit ⊢
      have hbehind : split.rest xs (some c) = next :: rest := List.append_cancel_left hsplit
      show positions k (page :: next :: rest) =
        k :: positions (k + [page].flatten.length) (split.rest xs (some c))
      rw [hbehind, List.flatten_singleton]
      rfl

end Early

def appId (py : Python) (raw : CsApp) : String := canonicalId py crowdstrike ("app:" ++ raw.id)

def MirrorsCsApps (py : Python) (listing : List CsApp) (w : World) : Prop :=
  ((w.installedApps.docs.filter fun d => isOfSource d.source && d.isActive).map
    AppDoc.unstamped).Perm (listing.map fun raw => (normalizeApplication py raw 0).unstamped)

def StaleStamped (py : Python) (listing : List CsApp) (w : World) : Prop :=
  ∀ d ∈ w.installedApps, d.source = some crowdstrike → d.isActive = true →
    d.id ∉ listing.map (appId py) → d.lastSyncedAt ≠ none

/-- What holds between the attempts of a full sync. -/
structure AppsInterrupted (py : Python) (w₀ w : World) : Prop where
  cs : w.cs = w₀.cs
  faults : w.csFaults <:+ w₀.csFaults
  past : SyncedBefore w
  checkpoint : ∀ c, w.checkpoints "cs_apps" = some c →
    c.status = none ∧ c.mode = some .full ∧ 0 < c.synced
  unstamped : ∀ d : AppDoc, d.lastSyncedAt = none → d.id ∉ w₀.cs.apps.map (appId py) →
    (d ∈ w.installedApps ↔ d ∈ w₀.installedApps)

section Interrupted

variable {py : Python} {w₀ t : World}

theorem AppsInterrupted.tick (h : AppsInterrupted py w₀ t) :
    AppsInterrupted py w₀ { t with readings := t.readings + 1 } := by
  have hlt : t.now < World.now { t with readings := t.readings + 1 } :=
    t.clock.ticks (Nat.lt_succ_self _)
  exact ⟨h.cs, h.faults, fun d hd s hs => (h.past d hd s hs).trans hlt, h.checkpoint, h.unstamped⟩

theorem AppsInterrupted.answer (h : AppsInterrupted py w₀ t) :
    AppsInterrupted py w₀ { t with csFaults := t.csFaults.tail } :=
  ⟨h.cs, (List.tail_suffix _).trans h.faults, h.past, h.checkpoint, h.unstamped⟩

theorem AppsInterrupted.setCheckpoint (h : AppsInterrupted py w₀ t) {c : Option Checkpoint}
    (hc : ∀ d, c = some d → d.status = none ∧ d.mode = some .full ∧ 0 < d.synced) :
    AppsInterrupted py w₀ (t.setCheckpoint "cs_apps" c) := by
  refine ⟨h.cs, h.faults, h.past, fun d hd => hc d ?_, h.unstamped⟩
  have hsaved : (t.setCheckpoint "cs_apps" c).checkpoints "cs_apps" = some d := hd
  rw [World.setCheckpoint_checkpoints] at hsaved
  exact hsaved

theorem AppsInterrupted.store (h : AppsInterrupted py w₀ t) {docs : List AppDoc} {s : Nat}
    (hs : s < t.now) (hdocs : ∀ d ∈ docs, ∃ raw ∈ w₀.cs.apps, d = normalizeApplication py raw s) :
    AppsInterrupted py w₀ { t with installedApps := t.installedApps.bulkReplace docs } := by
  refine ⟨h.cs, h.faults, fun d hd u hu => ?_, h.checkpoint, fun d hnone hid => ?_⟩
  · rcases Collection.mem_or_mem_of_bulkReplace hd with hnew | hold
    · obtain ⟨raw, -, rfl⟩ := hdocs d hnew
      cases hu
      exact hs
    · exact h.past d hold u hu
  · rw [← h.unstamped d hnone hid]
    constructor
    · intro hd
      rcases Collection.mem_or_mem_of_bulkReplace hd with hnew | hold
      · obtain ⟨raw, -, rfl⟩ := hdocs d hnew
        cases hnone
      · exact hold
    · intro hd
      refine Collection.mem_bulkReplace_of_other hd fun hmem => hid ?_
      obtain ⟨e, he, heq⟩ := List.mem_map.mp hmem
      obtain ⟨raw, hraw, rfl⟩ := hdocs e he
      rw [← heq]
      exact List.mem_map_of_mem hraw

theorem AppsInterrupted.mark (h : AppsInterrupted py w₀ t) {apps : Collection AppDoc.id}
    {stale : AppDoc → Bool} {active : Option Bool}
    (hstale : ∀ d, stale d = true → d.lastSyncedAt ≠ none)
    (happs : ∀ d, d ∈ apps ↔ ∃ e ∈ t.installedApps,
      (if stale e then { e with active := active } else e) = d) :
    AppsInterrupted py w₀ { t with installedApps := apps } := by
  refine ⟨h.cs, h.faults, fun d hd u hu => ?_, h.checkpoint, fun d hnone hid => ?_⟩
  · obtain ⟨e, he, rfl⟩ := (happs d).mp hd
    refine h.past e he u ?_
    split at hu <;> exact hu
  · rw [← h.unstamped d hnone hid]
    refine (happs d).trans ⟨?_, fun hd => ⟨d, hd, if_neg fun hyes => hstale d hyes hnone⟩⟩
    rintro ⟨e, he, rfl⟩
    split at hnone
    · rename_i hyes
      exact absurd hnone (hstale e hyes)
    · rename_i hno
      rw [if_neg hno]
      exact he

theorem AppsInterrupted.deactivate (h : AppsInterrupted py w₀ t) (s : Nat) :
    AppsInterrupted py w₀
      { t with
        installedApps := deactivated (fun d => isOfSource d.source) s t.installedApps } := by
  refine h.mark (fun d hyes hnone => ?_) fun d => mem_deactivated
  rw [hnone] at hyes
  simp at hyes

theorem AppsInterrupted.reactivate (h : AppsInterrupted py w₀ t) (s : Nat) :
    AppsInterrupted py w₀
      { t with
        installedApps := reactivated (fun d => isOfSource d.source) s t.installedApps } := by
  refine h.mark (fun d hyes hnone => ?_) fun d => mem_reactivated
  rw [hnone] at hyes
  simp at hyes

theorem AppsInterrupted.record (h : AppsInterrupted py w₀ t) (key : String)
    (update : SyncMeta → SyncMeta) : AppsInterrupted py w₀ (t.updateMeta key update) :=
  ⟨h.cs, h.faults, h.past, h.checkpoint, h.unstamped⟩

theorem AppsInterrupted.names (h : AppsInterrupted py w₀ t) (isOf : AgentDoc → Bool)
    (failed : Bool) (names : AgentNames) : AppsInterrupted py w₀ (t.nameOne isOf failed names) :=
  ⟨h.cs, h.faults, h.past, h.checkpoint, h.unstamped⟩

/-- The arguments of the next attempt. -/
theorem AppsInterrupted.args (h : AppsInterrupted py w₀ t) :
    (startArgs "cs_apps" .full t).mode = .full ∧
      (startArgs "cs_apps" .full t).checkpoint = t.checkpoints "cs_apps" := by
  unfold startArgs
  cases hc : t.checkpoints "cs_apps" with
  | none => exact ⟨rfl, rfl⟩
  | some c =>
    obtain ⟨hstatus, hmode, -⟩ := h.checkpoint c hc
    dsimp only
    rw [hstatus, if_neg (by simp), hmode]
    exact ⟨rfl, rfl⟩

theorem AppsInterrupted.usable (h : AppsInterrupted py w₀ t) :
    (startArgs "cs_apps" .full t).usable .full = t.checkpoints "cs_apps" := by
  cases hc : t.checkpoints "cs_apps" with
  | none =>
    unfold RunArgs.usable
    rw [h.args.2, hc]
    rfl
  | some c => exact RunArgs.usable_eq_some (h.args.2.trans hc) (h.checkpoint c hc).2.1

end Interrupted

/-- What the loop has counted: batches of tries that have failed, and the applications that this
try has fetched.  With what is to come, nothing is counted twice exactly under the condition. -/
def Counted (condition early : Prop) (fetched : Nat) (l : CsAppsLoop) : Prop :=
  l.buf.length < 500 ∧ ∃ extra batches, l.synced = extra + 500 * batches ∧
    fetched = 500 * batches + l.buf.length ∧ (condition ↔ extra = 0 ∧ early)

section Count

variable {condition early early' : Prop} {fetched : Nat} {l l' : CsAppsLoop}

theorem Counted.congr (h : Counted condition early fetched l) (hearly : early ↔ early') :
    Counted condition early' fetched l := by
  rw [← propext hearly]
  exact h

/-- One more application, in the buffer or with it in the collection. -/
theorem Counted.item (h : Counted condition early fetched l)
    (hsum : l'.synced + l'.buf.length = l.synced + l.buf.length + 1)
    (hbuf : l'.buf.length = if 500 ≤ l.buf.length + 1 then 0 else l.buf.length + 1) :
    Counted condition early (fetched + 1) l' := by
  obtain ⟨hroom, extra, batches, hsynced, hfetched, hcondition⟩ := h
  by_cases hfull : 500 ≤ l.buf.length + 1
  · rw [if_pos hfull] at hbuf
    refine ⟨by omega, extra, batches + 1, ?_, ?_, hcondition⟩
    · omega
    · omega
  · rw [if_neg hfull] at hbuf
    refine ⟨by omega, extra, batches, ?_, ?_, hcondition⟩
    · omega
    · omega

theorem Counted.failed (h : Counted condition (fetched < 500 ∧ early) fetched l) :
    Counted condition early 0 { l with buf := [] } := by
  obtain ⟨hroom, extra, batches, hsynced, hfetched, hcondition⟩ := h
  refine ⟨by simp, extra + 500 * batches, 0, hsynced, rfl, hcondition.trans ?_⟩
  constructor
  · rintro ⟨hextra, hfew, hearly⟩
    exact ⟨by omega, hearly⟩
  · rintro ⟨hextra, hearly⟩
    exact ⟨by omega, by omega, hearly⟩

theorem Counted.last (h : Counted condition True fetched l) :
    l.synced + l.buf.length = fetched ↔ condition := by
  obtain ⟨hroom, extra, batches, hsynced, hfetched, hcondition⟩ := h
  rw [hcondition, and_true]
  omega

end Count

/-- The attempt runs in mode `full`, since a time that has passed. -/
structure Attempting (py : Python) (w₀ : World) (run : CsAppsRun) (l : CsAppsLoop) (t : World) :
    Prop where
  mode : run.mode = .full
  since : run.since = none
  now : run.startedAt < t.now
  buf : ∀ d ∈ l.buf, ∃ raw ∈ w₀.cs.apps, d = normalizeApplication py raw run.startedAt

abbrev FullAppsEndure {ε α : Type} (py : Python) (w₀ : World) (Q : World → α → Prop)
    (E : World → ε → Prop) (v : World) (p : ExceptT ε (Process World SyncOp) α) : Prop :=
  EnduresOr Eq (AppsInterrupted py w₀) Q E v p

def allPositions (w : World) : List Nat := positions 0 (w.cs.appSplit.batches w.cs.apps)

section Attempt

variable {py : Python} {pages : Nat} {w₀ v t : World} {run : CsAppsRun} {l : CsAppsLoop}
  {condition : Prop}
variable {E : World → SyncError → Prop}

def errors (answers : List (Option CsError)) : Nat := answers.countP Option.isSome

def Fails (w₀ : World) (pages : Nat) (answers : List (Option CsError)) : SyncError → Prop
  | .unfinished => pages ≤ w₀.cs.apps.length
  | .csApi .discoverNotLicensed => some CsError.discoverNotLicensed ∈ w₀.csFaults
  | .csApi .rateLimit | .csApi .api => 3 < errors answers
  | .api _ | .bulkWrite => False

def LeftToRetry (run : CsAppsRun) (w₀ : World) (pages bound : Nat) (condition : Prop) (t : World) :
    Stop SyncError CsError CsAppsLoop → Prop
  | .failed e => Fails w₀ pages [] e
  | .again reason l => reason ≠ .discoverNotLicensed ∧ errors t.csFaults < bound ∧
    run.startedAt < t.now ∧
    Counted condition (EarlyErrors (allPositions w₀) (allPositions w₀) t.csFaults) 0
      { l with buf := [] }

theorem errors_answered {answers : List (Option CsError)} (h : answers.head?.join = none) :
    errors answers.tail = errors answers := by
  cases answers with
  | nil => rfl
  | cons answer answers =>
    rw [show answer = none from h]
    rfl

theorem errors_failed {answers : List (Option CsError)} {e : CsError}
    (h : answers.head?.join = some e) : errors answers.tail < errors answers := by
  cases answers with
  | nil => cases h
  | cons answer answers =>
    rw [show answer = some e from h]
    show List.countP Option.isSome answers < List.countP Option.isSome (some e :: answers)
    rw [List.countP_cons_of_pos rfl]
    exact Nat.lt_succ_self _

theorem Attempting.syncApp {early : Prop} {fetched : Nat} {raw : AppItem}
    {E : World → Stop SyncError CsError CsAppsLoop → Prop}
    (h : Attempting py w₀ run l t) (hraw : raw.app ∈ w₀.cs.apps)
    (hcounted : Counted condition early fetched l) :
    FullAppsEndure py w₀ (fun u l' => Attempting py w₀ run l' u ∧
      Counted condition early (fetched + 1) l' ∧ u.csFaults = t.csFaults) E t
      (syncApp py run l raw) := by
  let doc := normalizeApplication py raw.app run.startedAt
  let total := if 0 < raw.total ∧ l.total = 0 then raw.total else l.total
  let full : CsAppsLoop := { l with buf := l.buf ++ [doc], total := total }
  have hlength : full.buf.length = l.buf.length + 1 := List.length_append
  have hbuf : ∀ d ∈ full.buf, ∃ raw ∈ w₀.cs.apps,
      d = normalizeApplication py raw run.startedAt := by
    intro d hd
    rcases List.mem_append.mp hd with hold | hnew
    · exact h.buf d hold
    · exact ⟨raw.app, hraw, List.mem_singleton.mp hnew⟩
  show FullAppsEndure py w₀ _ E t (flushApps run full)
  unfold flushApps
  by_cases hfull : 500 ≤ full.buf.length
  · rw [if_pos hfull]
    let stored : World := { t with installedApps := t.installedApps.bulkReplace full.buf }
    have hstore : FullAppsEndure py w₀ (fun u (_ : Unit) => u = stored) E t
        (liftM (bulkReplaceApps full.buf)) := by
      refine enduresOr_atomic ?_
      rintro _ rfl hI
      exact ⟨hI.store h.now hbuf, rfl⟩
    refine hstore.bind ?_
    rintro u - rfl
    have hsave : FullAppsEndure py w₀ (fun u (_ : Unit) =>
        u = stored.setCheckpoint "cs_apps" (some (csAppsCheckpoint run full))) E stored
        (liftM (Process.write SyncOp.saveCheckpoint
          (World.setCheckpoint "cs_apps" (some (csAppsCheckpoint run full))))) := by
      refine enduresOr_atomic ?_
      rintro _ rfl hI
      refine ⟨hI.setCheckpoint fun d hd => ?_, rfl⟩
      cases hd
      refine ⟨rfl, congrArg some h.mode, ?_⟩
      show 0 < full.synced + full.buf.length
      omega
    refine hsave.bind ?_
    rintro u - rfl
    refine enduresOr_pure ⟨⟨h.mode, h.since, h.now, List.forall_mem_nil _⟩,
      hcounted.item ?_ ?_, rfl⟩
    · show l.synced + full.buf.length + 0 = _
      omega
    · rw [if_pos (hlength ▸ hfull)]
      rfl
  · rw [if_neg hfull]
    refine enduresOr_pure ⟨⟨h.mode, h.since, h.now, hbuf⟩, hcounted.item ?_ ?_, rfl⟩
    · show l.synced + full.buf.length = _
      omega
    · rw [if_neg (hlength ▸ hfull)]
      exact hlength

theorem Attempting.getApplications {cursor : Option Nat} {fetched bound : Nat}
    (h : Attempting py w₀ run l t) (hbound : errors t.csFaults ≤ bound)
    (hcounted : Counted condition (EarlyErrors (allPositions w₀)
      (positions fetched (w₀.cs.appSplit.rest w₀.cs.apps cursor)) t.csFaults) fetched l) :
    FullAppsEndure py w₀ (fun u page => Attempting py w₀ run l u ∧ errors u.csFaults ≤ bound ∧
        (∃ total, page = ⟨appItems total (w₀.cs.appSplit.page w₀.cs.apps cursor).items.flatten,
          (w₀.cs.appSplit.page w₀.cs.apps cursor).next⟩) ∧
        Counted condition (EarlyErrors (allPositions w₀)
          (((w₀.cs.appSplit.page w₀.cs.apps cursor).next.map fun c =>
            positions (fetched + (w₀.cs.appSplit.page w₀.cs.apps cursor).items.flatten.length)
              (w₀.cs.appSplit.rest w₀.cs.apps (some c))).getD []) u.csFaults) fetched l)
      (LeftToRetry run w₀ pages bound condition) t (getApplications run.since l cursor) := by
  rw [positions_page] at hcounted
  let popped : World := { t with csFaults := t.csFaults.tail }
  have hanswer : FullAppsEndure py w₀ (fun u answer => u = popped ∧
      t.csFaults <:+ w₀.csFaults ∧ answer.1 = t.csFaults.head?.join ∧
      answer.2.1 = w₀.cs.appSplit.page w₀.cs.apps cursor)
      (LeftToRetry run w₀ pages bound condition) t
      (liftM (Process.atomic (SyncOp.api "/discover/applications") fun w : World =>
        ({ w with csFaults := w.csFaults.tail },
          (w.csFaults.head?.join, w.cs.appSplit.page (appsSince w.cs run.since) cursor,
            if cursor.isNone then (appsSince w.cs run.since).length else 0)))) := by
    refine enduresOr_atomic ?_
    rintro _ rfl hI
    refine ⟨hI.answer, rfl, hI.faults, rfl, ?_⟩
    show t.cs.appSplit.page (appsSince t.cs run.since) cursor = _
    rw [hI.cs, h.since]
    unfold appsSince
    simp
  unfold CrowdStrike.getApplications
  refine hanswer.bind ?_
  rintro u ⟨fault, page, total⟩ ⟨rfl, hsuffix, hfault, rfl⟩
  dsimp only at hfault ⊢
  have hagain : ∀ e : CsError, e ≠ .discoverNotLicensed → fault = some e →
      LeftToRetry run w₀ pages bound condition popped (.again e l) := by
    intro e hlicensed he
    have hfewer : errors popped.csFaults < bound :=
      Nat.lt_of_lt_of_le (errors_failed (hfault ▸ he)) hbound
    have hlate : Counted condition
        (fetched < 500 ∧ EarlyErrors (allPositions w₀) (allPositions w₀) popped.csFaults)
        fetched l :=
      hcounted.congr (earlyErrors_failed (hfault ▸ he))
    exact ⟨hlicensed, hfewer, h.now, hlate.failed⟩
  match hcase : fault with
  | none =>
    have hsame : errors popped.csFaults ≤ bound := (errors_answered hfault.symm).le.trans hbound
    refine enduresOr_pure ⟨⟨h.mode, h.since, h.now, h.buf⟩, hsame, ⟨total, rfl⟩, ?_⟩
    exact hcounted.congr (earlyErrors_answered hfault.symm)
  | some .discoverNotLicensed =>
    exact enduresOr_throw (hsuffix.subset (mem_of_answer hfault.symm))
  | some .rateLimit => exact enduresOr_throw (hagain .rateLimit (by decide) rfl)
  | some .api => exact enduresOr_throw (hagain .api (by decide) rfl)

def Done (py : Python) (w₀ : World) (run : CsAppsRun) (condition : Prop) (t : World)
    (l : CsAppsLoop) : Prop :=
  Attempting py w₀ run l t ∧ Counted condition True w₀.cs.apps.length l

theorem Attempting.tryApps {bound : Nat} (h : Attempting py w₀ run l t)
    (hbound : errors t.csFaults ≤ bound) (hcounted : Counted condition
      (EarlyErrors (allPositions w₀) (allPositions w₀) t.csFaults) 0 { l with buf := [] }) :
    FullAppsEndure py w₀ (fun u l' => Done py w₀ run condition u l')
      (LeftToRetry run w₀ pages bound condition) t (tryApps py pages run l) := by
  let apps := w₀.cs.apps
  let restAt := w₀.cs.appSplit.rest apps
  let J : Nat → Option Nat → CsAppsLoop → World → Prop := fun n cursor l u =>
    Attempting py w₀ run l u ∧ errors u.csFaults ≤ bound ∧
      ((restAt cursor).length < n ∨ pages ≤ apps.length) ∧ ∃ fetched,
      Counted condition
        (EarlyErrors (allPositions w₀) (positions fetched (restAt cursor)) u.csFaults) fetched l ∧
      fetched + (restAt cursor).flatten.length = apps.length
  let K : Nat → List AppItem → Option Nat → CsAppsLoop → World → Prop := fun n ys next l u =>
    Attempting py w₀ run l u ∧ errors u.csFaults ≤ bound ∧
      (∀ c, next = some c → (restAt (some c)).length < n ∨ pages ≤ apps.length) ∧
      (∀ y ∈ ys, y.app ∈ apps) ∧ ∃ fetched,
      Counted condition (EarlyErrors (allPositions w₀)
        ((next.map fun c => positions (fetched + ys.length) (restAt (some c))).getD [])
        u.csFaults) fetched l ∧
      fetched + ys.length + (next.map fun c => (restAt (some c)).flatten.length).getD 0 =
        apps.length
  have hscan : FullAppsEndure py w₀ (fun u l' => ∃ n, K n [] none l' u)
      (LeftToRetry run w₀ pages bound condition) t
      (scan (CrowdStrike.getApplications run.since) (CrowdStrike.syncApp py run)
        (fun _ => .failed .unfinished) pages none { l with buf := [] }) := by
    refine enduresOr_scan J K ?_ ?_ ?_ ?_ ?_
    · rintro cursor l u ⟨-, -, hfuel, -⟩
      exact hfuel.resolve_left (Nat.not_lt_zero _)
    · rintro n cursor l u ⟨hu, hbound, hfuel, fetched, hcounted, hsum⟩
      refine (hu.getApplications hbound hcounted).mono ?_ fun _ _ he => he
      rintro u' page ⟨hu', hbound', ⟨total, rfl⟩, hcounted'⟩
      let page := w₀.cs.appSplit.page apps cursor
      have hlength : (appItems total page.items.flatten).length = page.items.flatten.length := by
        rw [← List.length_map (f := AppItem.app), appItems_map]
      have hsplit : page.items.flatten.length +
          (page.next.map fun c => (restAt (some c)).flatten.length).getD 0 =
            (restAt cursor).flatten.length := Split.length_page_add_rest
      refine ⟨hu', hbound', fun c hnext => hfuel.imp_left fun hless => ?_, fun y hy => ?_, fetched,
        ?_, ?_⟩
      · have hshorter : (restAt (some c)).length < (restAt cursor).length :=
          Split.length_rest_lt hnext
        exact Nat.lt_of_lt_of_le hshorter (Nat.lt_succ_iff.mp hless)
      · have happ : y.app ∈ page.items.flatten := by
          rw [← appItems_map total page.items.flatten]
          exact List.mem_map_of_mem hy
        exact Split.page_subset happ
      · rw [hlength]
        exact hcounted'
      · rw [hlength]
        show fetched + page.items.flatten.length +
          (page.next.map fun c => (restAt (some c)).flatten.length).getD 0 = _
        omega
    · rintro n y ys next l u ⟨hu, hbound, hfuel, hlisted, fetched, hcounted, hsum⟩
      have hturn := hu.syncApp (E := LeftToRetry run w₀ pages bound condition)
        (hlisted y List.mem_cons_self) hcounted
      refine hturn.mono ?_ fun _ _ he => he
      rintro u' l' ⟨hu', hcounted', hfaults⟩
      refine ⟨hu', hfaults ▸ hbound, hfuel, fun z hz => hlisted z (List.mem_cons_of_mem y hz),
        fetched + 1, ?_, ?_⟩
      · rw [hfaults, show fetched + 1 + ys.length = fetched + (y :: ys).length by
          rw [List.length_cons]; omega]
        exact hcounted'
      · rw [List.length_cons] at hsum
        omega
    · rintro n c l u ⟨hu, hbound, hfuel, -, fetched, hcounted, hsum⟩
      exact ⟨hu, hbound, hfuel c rfl, fetched, hcounted, hsum⟩
    · refine ⟨⟨h.mode, h.since, h.now, List.forall_mem_nil _⟩, hbound, ?_, 0,
        hcounted, ?_⟩
      · have hbatches := w₀.cs.appSplit.length_le apps
        show ((w₀.cs.appSplit.batches apps).drop 0).length < pages ∨ _
        rw [List.drop_zero]
        omega
      show 0 + ((w₀.cs.appSplit.batches apps).drop 0).flatten.length = _
      rw [List.drop_zero, w₀.cs.appSplit.flatten_batches, Nat.zero_add]
  refine hscan.mono ?_ fun _ _ he => he
  rintro u l' ⟨_, hu, -, -, -, fetched, hcounted, hsum⟩
  have hall : fetched = apps.length := hsum
  exact ⟨hu, hall ▸ hcounted.congr earlyErrors_nil⟩

theorem Attempting.retrying (h : Attempting py w₀ run l t)
    (hcounted : Counted condition
      (EarlyErrors (allPositions w₀) (allPositions w₀) t.csFaults) 0 { l with buf := [] }) :
    FullAppsEndure py w₀ (fun u l' => Done py w₀ run condition u l')
      (fun _ e => Fails w₀ pages t.csFaults e) t
      (retrying (CrowdStrike.tryApps py pages run) SyncError.csApi 3 l) := by
  -- Each error costs one of the tries.
  let bound : Nat → Nat := fun n => errors t.csFaults + n - 3
  let J : Nat → CsAppsLoop → World → Prop := fun n l u => errors u.csFaults + 3 ≤
    errors t.csFaults + n ∧ run.startedAt < u.now ∧
    Counted condition (EarlyErrors (allPositions w₀) (allPositions w₀) u.csFaults) 0
      { l with buf := [] }
  refine enduresOr_retrying J (fun n => LeftToRetry run w₀ pages (bound n) condition) ?_ ?_ ?_ ?_
    ⟨Nat.le_refl _, h.now, hcounted⟩
  · rintro n l' u ⟨herrors, hnow, hcounted'⟩
    -- The buffer of a failed try is cleared before the next one.
    have hclear : CrowdStrike.tryApps py pages run l' =
        CrowdStrike.tryApps py pages run { l' with buf := [] } := rfl
    rw [hclear]
    have hbound : errors u.csFaults ≤ errors t.csFaults + n - 3 := by omega
    exact Attempting.tryApps ⟨h.mode, h.since, hnow, List.forall_mem_nil _⟩
      hbound hcounted'
  · intro n u e he
    match e, he with
    | .unfinished, he => exact he
    | .csApi .discoverNotLicensed, he => exact he
    | .csApi .rateLimit, he | .csApi .api, he => exact absurd he (Nat.not_lt_zero 3)
  · rintro n u reason l' ⟨-, hfewer, hnow, hcounted'⟩
    change errors u.csFaults < errors t.csFaults + (n + 1) - 3 at hfewer
    exact ⟨by omega, hnow, hcounted'⟩
  · rintro u reason l' ⟨hlicensed, hfewer, -⟩
    change errors u.csFaults < errors t.csFaults + 0 - 3 at hfewer
    have hmany : 3 < errors t.csFaults := by omega
    match reason with
    | .discoverNotLicensed => exact absurd rfl hlicensed
    | .rateLimit | .api => exact hmany

theorem Done.flushAppsRest (h : Done py w₀ run condition t l) :
    FullAppsEndure py w₀ (fun _ synced => synced = w₀.cs.apps.length ↔ condition) E t
      (flushAppsRest l) := by
  obtain ⟨hattempt, hcounted⟩ := h
  have hcount := hcounted.last
  unfold CrowdStrike.flushAppsRest
  by_cases hne : l.buf ≠ []
  · rw [if_pos hne]
    have hstore : FullAppsEndure py w₀ (fun _ (_ : Unit) => True) E t
        (liftM (bulkReplaceApps l.buf)) := by
      refine enduresOr_atomic ?_
      rintro _ rfl hI
      exact ⟨hI.store hattempt.now hattempt.buf, trivial⟩
    exact hstore.bind fun u _ _ => enduresOr_pure hcount
  · rw [if_neg hne]
    rw [not_not.mp hne] at hcount
    exact enduresOr_pure hcount

theorem endures_record (s : Nat) :
    FullAppsEndure py w₀ (fun _ _ => True) E t
      (updateMeta crowdstrike fun m => { m with appsSyncedAt := some s }) := by
  refine enduresOr_atomic ?_
  rintro _ rfl hI
  exact ⟨hI.record crowdstrike fun m => { m with appsSyncedAt := some s }, trivial⟩

theorem endures_renameAgents (run : CsAppsRun) (synced : Nat) :
    FullAppsEndure py w₀ (fun _ _ => True) E t (renameAgents run synced) := by
  unfold renameAgents
  by_cases hnames : 0 < synced ∨ run.mode = .full
  · rw [if_pos hnames]
    exact (endures_denormNames _ (fun d => isOfSource d.source)
      (fun v failed names hI => hI.names _ failed names) t).mono (fun _ _ _ => trivial)
        fun _ _ he => he
  · rw [if_neg hnames]
    exact enduresOr_pure trivial

theorem Done.finishApps (h : Done py w₀ run condition t l) :
    FullAppsEndure py w₀ (fun _ _ => True) E t (finishApps run l) := by
  refine h.flushAppsRest.bind fun t₁ synced _ => ?_
  refine (endures_markStale run.mode (fun d => isOfSource d.source) run.startedAt
    (fun _ hI => hI.deactivate _) fun _ hI => hI.reactivate _).bind fun t₂ _ _ => ?_
  exact (endures_record run.startedAt).bind fun t₃ _ _ => endures_renameAgents run synced

theorem Done.reportApps (h : Done py w₀ run condition t l) :
    FullAppsEndure py w₀ (fun _ synced => synced = w₀.cs.apps.length ↔ condition) E t
      (reportApps run l) := by
  refine h.flushAppsRest.bind fun t₁ synced hsynced => ?_
  refine (endures_markStale run.mode (fun d => isOfSource d.source) run.startedAt
    (fun _ hI => hI.deactivate _) fun _ hI => hI.reactivate _).bind fun t₂ _ _ => ?_
  refine (endures_record run.startedAt).bind fun t₃ _ _ => ?_
  exact (endures_renameAgents run synced).bind fun t₄ _ _ => enduresOr_pure hsynced

def CountsOnce (w₀ w : World) : Prop :=
  w.checkpoints "cs_apps" = none ∧ EarlyErrors (allPositions w₀) (allPositions w₀) w.csFaults

/-- An attempt up to its end. -/
theorem endures_syncThen {α : Type} {Q : World → α → Prop}
    {ending : CsAppsRun → Except SyncError CsAppsLoop → Phase α} (hv : AppsInterrupted py w₀ v)
    (hdone : ∀ run t l, Done py w₀ run (CountsOnce w₀ v) t l →
      FullAppsEndure py w₀ Q (fun _ e => Fails w₀ pages v.csFaults e) t (ending run (.ok l)))
    (hfailed : ∀ run t e, Fails w₀ pages v.csFaults e →
      FullAppsEndure py w₀ Q (fun _ e => Fails w₀ pages v.csFaults e) t (ending run (.error e))) :
    FullAppsEndure py w₀ Q (fun _ e => Fails w₀ pages v.csFaults e) v
      (syncThen ending py pages (startArgs "cs_apps" .full v)) := by
  unfold syncThen
  refine (endures_utcNow fun hI => hI.tick).bind ?_
  rintro t₁ startedAt ⟨h₁, rfl⟩
  refine (endures_read (I := AppsInterrupted py w₀) .loadMeta fun u => u.syncMeta crowdstrike).bind
    ?_
  rintro t₂ syncMeta ⟨rfl, -⟩
  have hmode : resolveMode (startArgs "cs_apps" .full v).mode syncMeta.appsSyncedAt = .full := by
    rw [hv.args.1]
    rfl
  dsimp only
  rw [hmode]
  refine (endures_checkMode (fun hI => hI.setCheckpoint fun d hd => nomatch hd) _).bind ?_
  rintro t₃ checkpoint ⟨h₃, rfl⟩
  rw [hv.usable, if_pos rfl]
  let run : CsAppsRun := ⟨v.now, .full, none⟩
  let start : CsAppsLoop := ⟨[], ((v.checkpoints "cs_apps").map Checkpoint.synced).getD 0,
    ((v.checkpoints "cs_apps").map Checkpoint.total).getD 0⟩
  have hstart : t₃.csFaults = v.csFaults ∧ v.now < t₃.now := by
    have hlt : v.now < World.now { v with readings := v.readings + 1 } :=
      v.clock.ticks (Nat.lt_succ_self _)
    rcases h₃ with rfl | rfl
    · rw [h₁]
      exact ⟨rfl, hlt⟩
    · rw [h₁]
      exact ⟨rfl, hlt⟩
  have hattempt : Attempting py w₀ run start t₃ :=
    ⟨rfl, rfl, hstart.2, List.forall_mem_nil _⟩
  have hfresh : start.synced = 0 ↔ v.checkpoints "cs_apps" = none := by
    show ((v.checkpoints "cs_apps").map Checkpoint.synced).getD 0 = 0 ↔ _
    cases hc : v.checkpoints "cs_apps" with
    | none => simp
    | some c =>
      have hpositive := (hv.checkpoint c hc).2.2
      simp
      omega
  have hcounted : Counted (CountsOnce w₀ v)
      (EarlyErrors (allPositions w₀) (allPositions w₀) t₃.csFaults) 0 start := by
    refine ⟨by simp [start], start.synced, 0, rfl, rfl, ?_⟩
    rw [hstart.1, hfresh]
    rfl
  refine (enduresOr_lift (hattempt.retrying hcounted)).bind ?_
  rintro t₄ result hresult
  match result, hresult with
  | .ok l, hl => exact hdone run t₄ l hl
  | .error e, he => exact hfailed run t₄ e (hstart.1 ▸ he)

theorem endures_clear :
    FullAppsEndure py w₀ (fun _ _ => True) E t (clearCheckpoint "cs_apps") := by
  refine enduresOr_atomic ?_
  rintro _ rfl hI
  exact ⟨hI.setCheckpoint (fun d hd => nomatch hd), trivial⟩

/-- An attempt keeps what holds between the attempts, wherever it is cut off. -/
theorem AppsInterrupted.endures (hv : AppsInterrupted py w₀ v) :
    FullAppsEndure py w₀ (fun _ _ => True) (fun _ e => Fails w₀ pages v.csFaults e) v
      (appsPhase py pages .full) := by
  refine endures_trigger ?_
  refine EnduresOr.bind (Q := fun _ _ => True) ?_ fun u _ _ => endures_clear
  refine endures_syncThen hv (fun run t l hl => hl.finishApps) fun run t e he => ?_
  match e with
  | .csApi .discoverNotLicensed => exact enduresOr_pure trivial
  | .csApi .rateLimit | .csApi .api | .unfinished | .api _ | .bulkWrite => exact enduresOr_throw he

theorem AppsInterrupted.endures_reportRun (hv : AppsInterrupted py w₀ v)
    (hlicensed : some CsError.discoverNotLicensed ∉ w₀.csFaults) :
    FullAppsEndure py w₀ (fun _ synced => synced = w₀.cs.apps.length ↔ CountsOnce w₀ v)
      (fun _ e => Fails w₀ pages v.csFaults e) v (reportRun py pages .full v) := by
  refine EnduresOr.bind (Q := fun _ synced => synced = w₀.cs.apps.length ↔ CountsOnce w₀ v) ?_
    fun u synced hsynced => endures_clear.bind fun _ _ _ => enduresOr_pure hsynced
  refine endures_syncThen hv (fun run t l hl => hl.reportApps) fun run t e he => ?_
  match e with
  | .csApi .discoverNotLicensed => exact absurd he hlicensed
  | .csApi .rateLimit | .csApi .api | .unfinished | .api _ | .bulkWrite => exact enduresOr_throw he

theorem AppsInterrupted.cuts (hv : AppsInterrupted py w₀ v) (cuts : List Nat) :
    AppsInterrupted py w₀ (interrupted (appsPhase py pages .full) cuts v) := by
  induction cuts generalizing v with
  | nil => exact hv
  | cons n cuts ih => exact ih (Endures.cut hv.endures hv n)

end Attempt

section Content

variable {py : Python} {w₀ w t u : World} {d : AppDoc}

theorem eq_of_mem_marked {apps : Collection AppDoc.id} {startedAt : Nat}
    (hrecent : ∀ e ∈ apps, ∀ s, e.lastSyncedAt = some s → startedAt ≤ s → e.isActive = true)
    (hd : d ∈ marked .full (fun d => isOfSource d.source) startedAt apps)
    (hsource : d.source = some crowdstrike) (hactive : d.isActive = true) :
    d ∈ apps ∧ ∀ s, d.lastSyncedAt = some s → startedAt ≤ s := by
  unfold Sync.marked at hd
  rw [if_pos rfl] at hd
  obtain ⟨e, he, hde⟩ := mem_reactivated.mp hd
  obtain ⟨f, hf, hef⟩ := mem_deactivated.mp he
  have hfields : d.source = e.source ∧ d.lastSyncedAt = e.lastSyncedAt := by
    rw [← hde]
    split <;> exact ⟨rfl, rfl⟩
  have hfields' : e.source = f.source ∧ e.lastSyncedAt = f.lastSyncedAt := by
    rw [← hef]
    split <;> exact ⟨rfl, rfl⟩
  have hof : isOfSource f.source = true := by
    rw [← hfields'.1, ← hfields.1, hsource]
    exact beq_self_eq_true _
  -- Without a new stamp nothing is reactivated.
  have hold : (∀ s, f.lastSyncedAt = some s → s < startedAt) → d = e := by
    intro hbefore
    rw [if_neg] at hde
    · exact hde.symm
    · rw [hfields'.2]
      cases hs : f.lastSyncedAt with
      | none => simp
      | some s =>
        have hlt := hbefore s hs
        simp only [Option.any_some, Bool.and_eq_true, decide_eq_true_eq]
        omega
  cases hs : f.lastSyncedAt with
  | none =>
    have hde' := hold fun s hs' => nomatch hs.symm.trans hs'
    rw [hs] at hef
    have hfe : f = e := by simpa using hef
    rw [hde', ← hfe]
    exact ⟨hf, fun s hs' => nomatch hs.symm.trans hs'⟩
  | some s =>
    by_cases hnew : startedAt ≤ s
    · have hfactive := hrecent f hf s hs hnew
      rw [if_neg] at hef
      · rw [hef] at hfactive hf hs
        rw [if_neg] at hde
        · rw [← hde]
          refine ⟨hf, fun s' hs' => ?_⟩
          rw [hs, Option.some.injEq] at hs'
          omega
        · rw [hfactive]
          simp
      · rw [hs]
        simp only [Option.any_some, Bool.and_eq_true, decide_eq_true_eq]
        omega
    · have hde' := hold fun s' hs' => by
        rw [hs, Option.some.injEq] at hs'
        omega
      rw [hde'] at hactive
      -- The old stamp has taken the document out of the active ones.
      by_cases hfactive : f.isActive = true
      · rw [if_pos] at hef
        · rw [← hef] at hactive
          cases hactive
        · rw [hof, hs, hfactive]
          simpa using hnew
      · rw [if_neg (by simp [hfactive])] at hef
        rw [← hef] at hactive
        exact absurd hactive hfactive

theorem mem_marked_of_new {apps : Collection AppDoc.id} {startedAt : Nat} (hd : d ∈ apps)
    (hactive : d.isActive = true) (hstamp : ∀ s, d.lastSyncedAt = some s → startedAt ≤ s) :
    d ∈ marked .full (fun d => isOfSource d.source) startedAt apps := by
  refine mem_marked_of_not .full hd ?_ ?_
  · cases hs : d.lastSyncedAt with
    | none => simp
    | some s =>
      have hle := hstamp s hs
      rw [hactive]
      simpa using fun _ => hle
  · rw [hactive]
    simp

theorem appDocs_full (hw : AppsInterrupted py w₀ w) :
    csAppsMode .full w = .full ∧
      appDocs py .full w = w₀.cs.apps.map fun raw => normalizeApplication py raw w.now := by
  have hmode : csAppsMode .full w = .full := by
    unfold csAppsMode
    rw [hw.args.1]
    rfl
  refine ⟨hmode, ?_⟩
  unfold appDocs appsFetched appsSince
  rw [hmode, if_pos rfl, hw.cs]
  simp

theorem Completed.active_iff (hids : (w₀.cs.apps.map (appId py)).Nodup)
    (hw : AppsInterrupted py w₀ w)
    (h : Completed (appDocs py .full w) (csAppsMode .full w) w t) :
    (d ∈ t.installedApps ∧ d.source = some crowdstrike ∧ d.isActive = true) ↔
      d ∈ appDocs py .full w ∨ (d ∈ w₀.installedApps ∧ d.source = some crowdstrike ∧
        d.isActive = true ∧ d.id ∉ w₀.cs.apps.map (appId py) ∧ d.lastSyncedAt = none) := by
  obtain ⟨hmode, hdocs⟩ := appDocs_full hw
  rw [hmode] at h
  obtain ⟨u, hstored, happs⟩ := h.apps
  have hkeys : (appDocs py .full w).map AppDoc.id = w₀.cs.apps.map (appId py) := by
    rw [hdocs, List.map_map]
    rfl
  have hdistinct : DistinctApps (appDocs py .full w) := fun x hx y hy heq =>
    List.inj_on_of_nodup_map (hkeys ▸ hids) hx hy heq
  have hlisted : ∀ x ∈ appDocs py .full w,
      x.source = some crowdstrike ∧ x.isActive = true ∧ x.lastSyncedAt = some w.now := by
    intro x hx
    rw [hdocs] at hx
    obtain ⟨raw, -, rfl⟩ := List.mem_map.mp hx
    exact ⟨rfl, rfl, rfl⟩
  rw [happs]
  constructor
  · rintro ⟨hd, hsource, hactive⟩
    have hrecent : ∀ e ∈ u.installedApps, ∀ s, e.lastSyncedAt = some s → w.now ≤ s →
        e.isActive = true := by
      intro e he s hs hle
      rcases hstored.origin e he with hnew | hold
      · exact (hlisted e hnew).2.1
      · have hlt := hw.past e hold s hs
        omega
    obtain ⟨hmem, hstamp⟩ := eq_of_mem_marked hrecent hd hsource hactive
    by_cases hin : d ∈ appDocs py .full w
    · exact Or.inl hin
    · have hold := (hstored.origin d hmem).resolve_left hin
      have hnone : d.lastSyncedAt = none := by
        cases hs : d.lastSyncedAt with
        | none => rfl
        | some s =>
          have hle := hstamp s hs
          have hlt := hw.past d hold s hs
          omega
      have hid : d.id ∉ w₀.cs.apps.map (appId py) := by
        intro hmem'
        rw [← hkeys] at hmem'
        obtain ⟨e, he, heq⟩ := List.mem_map.mp hmem'
        have hsame := u.installedApps.eq_of_key (hstored.listed hdistinct e he) hmem heq
        exact hin (hsame ▸ he)
      exact Or.inr ⟨(hw.unstamped d hnone hid).mp hold, hsource, hactive, hid, hnone⟩
  · rintro (hnew | ⟨hold, hsource, hactive, hid, hnone⟩)
    · obtain ⟨hsource, hactive, hstamp⟩ := hlisted d hnew
      refine ⟨mem_marked_of_new (hstored.listed hdistinct d hnew) hactive fun s hs => ?_, hsource,
        hactive⟩
      rw [hstamp, Option.some.injEq] at hs
      exact Nat.le_of_eq hs
    · have hmem := hstored.kept d ((hw.unstamped d hnone hid).mpr hold) (hkeys ▸ hid)
      refine ⟨mem_marked_of_new hmem hactive fun s hs => ?_, hsource, hactive⟩
      cases hnone.symm.trans hs

theorem Completed.mirrored_iff (hids : (w₀.cs.apps.map (appId py)).Nodup)
    (hw : AppsInterrupted py w₀ w)
    (h : Completed (appDocs py .full w) (csAppsMode .full w) w t) :
    MirrorsCsApps py w₀.cs.apps t ↔ StaleStamped py w₀.cs.apps w₀ := by
  have hdocs := (appDocs_full hw).2
  have hfilter : ∀ x, x ∈ t.installedApps.docs.filter (fun d =>
      isOfSource d.source && d.isActive) ↔
      x ∈ t.installedApps ∧ x.source = some crowdstrike ∧ x.isActive = true := by
    intro x
    rw [List.mem_filter, Bool.and_eq_true]
    exact and_congr_right fun _ => and_congr_left fun _ => beq_iff_eq
  have hunstamped : (appDocs py .full w).map AppDoc.unstamped =
      w₀.cs.apps.map fun raw => (normalizeApplication py raw 0).unstamped := by
    rw [hdocs, List.map_map]
    rfl
  constructor
  · intro hmirrors d hd hsource hactive hid hnone
    have hmem := (hfilter d).mpr
      ((h.active_iff hids hw).mpr (Or.inr ⟨hd, hsource, hactive, hid, hnone⟩))
    obtain ⟨raw, hraw, heq⟩ := List.mem_map.mp (hmirrors.subset (List.mem_map_of_mem hmem))
    have hsame : appId py raw = d.id := congrArg AppDoc.id heq
    exact hid (hsame ▸ List.mem_map_of_mem hraw)
  · intro hstale
    unfold MirrorsCsApps
    rw [← hunstamped]
    refine List.Perm.map _ ((List.perm_ext_iff_of_nodup ?_ ?_).mpr fun x => ?_)
    · exact (List.Nodup.of_map _ t.installedApps.distinct).filter _
    · refine List.Nodup.of_map AppDoc.id ?_
      rw [hdocs, List.map_map]
      exact hids
    · rw [hfilter, h.active_iff hids hw]
      refine or_iff_left ?_
      rintro ⟨hd, hsource, hactive, hid, hnone⟩
      exact hstale x hd hsource hactive hid hnone

end Content

/-- A full sync that was cut off completes unless its calls fail too often, and then it mirrors
the listing and reports its length if and only if the stale applications of the previous content
carry stamps, the attempt that completes starts without a checkpoint, and its errors come before a
batch is stored. -/
theorem full_cs_apps_sync_mirrors_iff (py : Python) (pages : Nat) (w₀ : World)
    (hpages : w₀.cs.apps.length < pages) (hids : (w₀.cs.apps.map (appId py)).Nodup)
    (hpast : SyncedBefore w₀) (hstart : w₀.checkpoints "cs_apps" = none)
    (hlicensed : some CsError.discoverNotLicensed ∉ w₀.csFaults) (cuts : List Nat) :
    let w := interrupted (appsPhase py pages .full) cuts w₀
    (errors w.csFaults ≤ 3 → ∃ synced t, Returns (reportRun py pages .full w) w synced t) ∧
      ∀ synced t, Returns (reportRun py pages .full w) w synced t →
        ((MirrorsCsApps py w₀.cs.apps t ∧ synced = w₀.cs.apps.length) ↔
          StaleStamped py w₀.cs.apps w₀ ∧ CountsOnce w₀ w) := by
  have hfirst : AppsInterrupted py w₀ w₀ :=
    ⟨rfl, List.suffix_rfl, hpast, fun c hc => (nomatch hstart.symm.trans hc),
      fun _ _ _ => Iff.rfl⟩
  have hw : AppsInterrupted py w₀ (interrupted (appsPhase py pages .full) cuts w₀) :=
    hfirst.cuts cuts
  dsimp only
  generalize interrupted (appsPhase py pages .full) cuts w₀ = w at hw
  have hreport : FullAppsEndure py w₀
      (fun _ synced => synced = w₀.cs.apps.length ↔ CountsOnce w₀ w)
      (fun _ e => Fails w₀ pages w.csFaults e) w (reportRun py pages .full w) :=
    hw.endures_reportRun hlicensed
  constructor
  · intro hfew
    refine hreport.returns hw fun t e hfails => ?_
    match e, hfails with
    | .unfinished, hmore => exact absurd hpages (Nat.not_lt.mpr hmore)
    | .csApi .discoverNotLicensed, hmem => exact hlicensed hmem
    | .csApi .rateLimit, hmany | .csApi .api, hmany => exact absurd hmany (Nat.not_lt.mpr hfew)
  · intro synced t ht
    have hcount := (hreport.of_returns hw ht).2
    have hreturns : Returns (appsPhase py pages .full) w () t := returns_appsPhase.mpr ⟨synced, ht⟩
    have hphase := (endures_appsPhase .full).of_returns .refl hreturns
    have hcompleted := hphase.2.resolve_right fun hmem => hlicensed (hw.faults.subset hmem)
    exact and_congr (hcompleted.mirrored_iff hids hw) hcount

def Split.ones {α : Type} : Split α where
  batches xs := xs.map fun x => [x]
  flatten_batches xs := by induction xs <;> simp_all
  nonempty xs := by simp

def appNumber (n : Nat) : CsApp := { id := String.ofList (List.replicate n 'a') }

def csListing (n : Nat) (answers : List (Option CsError)) : World :=
  { World.fresh .empty
      { CsSource.empty with apps := (List.range n).map appNumber, appSplit := Split.ones } with
    csFaults := answers }

theorem distinct_csListing (n : Nat) (answers : List (Option CsError)) :
    ((csListing n answers).cs.apps.map (appId plainPython)).Nodup := by
  show (((List.range n).map appNumber).map (appId plainPython)).Nodup
  rw [List.map_map]
  refine List.Nodup.map ?_ List.nodup_range
  intro a b heq
  have hlength := congrArg String.length heq
  simp only [Function.comp_apply, appId, canonicalId, plainPython, appNumber, String.length_append,
    String.length_ofList, List.length_replicate] at hlength
  omega

theorem syncedBefore_csListing (n : Nat) (answers : List (Option CsError)) :
    SyncedBefore (csListing n answers) :=
  fun _ hd => absurd hd Collection.not_mem_empty

/-- One application is mirrored and counted, although a call fails and the run is cut off. -/
theorem one_app_counted : ∃ synced t,
    Returns (reportRun plainPython 2 .full
        (interrupted (appsPhase plainPython 2 .full) [3] (csListing 1 [some .api])))
      (interrupted (appsPhase plainPython 2 .full) [3] (csListing 1 [some .api])) synced t ∧
    MirrorsCsApps plainPython (csListing 1 [some .api]).cs.apps t ∧ synced = 1 := by
  have hboth := full_cs_apps_sync_mirrors_iff plainPython 2 (csListing 1 [some .api]) (by decide)
    (distinct_csListing _ _) (syncedBefore_csListing _ _) rfl (by decide) [3]
  obtain ⟨synced, t, ht⟩ := hboth.1 (by decide +kernel)
  have hstale : StaleStamped plainPython (csListing 1 [some .api]).cs.apps
      (csListing 1 [some .api]) := fun _ hd => absurd hd Collection.not_mem_empty
  have hmirrors := (hboth.2 synced t ht).mpr ⟨hstale, by decide +kernel, by decide +kernel⟩
  exact ⟨synced, t, ht, hmirrors⟩

def lateError : World := csListing 501 (List.replicate 500 none ++ [some .rateLimit])

theorem CountsOnce.early {w₀ w : World} (h : CountsOnce w₀ w) :
    EarlyErrors (allPositions w₀) (allPositions w₀) w.csFaults := h.2

theorem interrupted_nil (program : Phase Unit) (w : World) : interrupted program [] w = w := rfl

/-- An error behind the first batch has its applications counted twice. -/
theorem batch_counted_twice : ∃ synced t,
    Returns (reportRun plainPython 502 .full lateError) lateError synced t ∧
    ¬(MirrorsCsApps plainPython lateError.cs.apps t ∧ synced = lateError.cs.apps.length) := by
  have hpages : lateError.cs.apps.length < 502 := by decide +kernel
  have hboth := full_cs_apps_sync_mirrors_iff plainPython 502 lateError hpages
    (distinct_csListing _ _) (syncedBefore_csListing _ _) rfl (by decide +kernel) []
  rw [interrupted_nil] at hboth
  obtain ⟨synced, t, ht⟩ := hboth.1 (by decide +kernel)
  refine ⟨synced, t, ht, fun hmirrors => ?_⟩
  have hcounts : CountsOnce lateError lateError := ((hboth.2 synced t ht).mp hmirrors).right
  have hlate : ¬EarlyErrors (allPositions lateError) (allPositions lateError)
      lateError.csFaults := by
    decide +kernel
  exact mt CountsOnce.early hlate hcounts

end Sentora.CrowdStrike
