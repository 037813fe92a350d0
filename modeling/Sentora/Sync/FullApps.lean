import Sentora.Sync.Apps

/-!
# Full syncs of the applications

Whether the active applications of SentinelOne are those of the listing after a
full sync with retries and interruptions.

An update asks for the id of the API and sets the canonical id, so that none is
accepted: the phase completes where it has nothing to store.
-/

namespace Sentora.Sync

open Lib Process

def AppDoc.unstamped (d : AppDoc) : AppDoc := { d with syncedAt := none, lastSyncedAt := none }

/-- The active applications of SentinelOne are the records of the listing that have
an id, one for each, up to the stamps, and the highest id is recorded. -/
structure MirrorsApps (py : Python) (listing : List S1App) (w : World) : Prop where
  docs : ((w.installedApps.docs.filter fun d => d.source == some sentinelone && d.isActive).map
    AppDoc.unstamped).Perm ((listing.filter fun raw => raw.id.isSome).map fun raw =>
      (normalizeApp py raw 0).unstamped)
  maxAppId : ∀ raw ∈ listing, raw.id.isSome → (∀ other ∈ listing, other.number ≤ raw.number) →
    (w.syncMeta "global").maxAppId = raw.id

def SyncedBefore (w : World) : Prop :=
  ∀ d ∈ w.installedApps, ∀ t, d.lastSyncedAt = some t → t < w.now

section Mark

variable {startedAt : Nat} {apps : Collection AppDoc.id} {d : AppDoc}

theorem exists_of_mem_deactivated (h : d ∈ deactivated (fun _ => true) startedAt apps) :
    ∃ e ∈ apps, d.source = e.source ∧ d.lastSyncedAt = e.lastSyncedAt ∧
      (d.isActive = true → e.isActive = true) ∧
      (d.isActive = true → ∀ t, d.lastSyncedAt = some t → startedAt ≤ t) := by
  obtain ⟨e, he, heq⟩ := mem_deactivated.mp h
  by_cases hstale : (true && e.lastSyncedAt.any (fun t => decide (t < startedAt)) && e.isActive)
      = true
  · rw [if_pos hstale] at heq
    rw [← heq]
    exact ⟨e, he, rfl, rfl, fun hactive => absurd hactive Bool.false_ne_true,
      fun hactive => absurd hactive Bool.false_ne_true⟩
  · rw [if_neg hstale] at heq
    rw [← heq]
    refine ⟨e, he, rfl, rfl, id, fun hactive t ht => ?_⟩
    rw [ht, hactive] at hstale
    simpa using hstale

theorem exists_of_mem_reactivated (h : d ∈ reactivated (fun _ => true) startedAt apps) :
    ∃ e ∈ apps, d.source = e.source ∧ d.lastSyncedAt = e.lastSyncedAt ∧
      (d.isActive = true → e.isActive = true ∨ ∃ t, d.lastSyncedAt = some t ∧ startedAt ≤ t) := by
  obtain ⟨e, he, heq⟩ := mem_reactivated.mp h
  by_cases hback : (true && e.lastSyncedAt.any (fun t => decide (startedAt ≤ t)) && !e.isActive)
      = true
  · rw [if_pos hback] at heq
    rw [← heq]
    refine ⟨e, he, rfl, rfl, fun _ => Or.inr ?_⟩
    simp only [Bool.true_and, Bool.and_eq_true, Option.any_eq_true, decide_eq_true_eq] at hback
    exact hback.1
  · rw [if_neg hback] at heq
    rw [← heq]
    exact ⟨e, he, rfl, rfl, Or.inl⟩

/-- A document without a stamp is left as it is. -/
theorem mem_deactivated_of_none (h : d ∈ apps) (hnone : d.lastSyncedAt = none) :
    d ∈ deactivated (fun _ => true) startedAt apps := by
  refine mem_deactivated.mpr ⟨d, h, ?_⟩
  rw [hnone]
  rfl

theorem mem_reactivated_of_none (h : d ∈ apps) (hnone : d.lastSyncedAt = none) :
    d ∈ reactivated (fun _ => true) startedAt apps := by
  refine mem_reactivated.mpr ⟨d, h, ?_⟩
  rw [hnone]
  rfl

theorem stamp_of_mem_marked (h : d ∈ marked .full (fun _ => true) startedAt apps)
    (hactive : d.isActive = true) {t : Nat} (ht : d.lastSyncedAt = some t) : startedAt ≤ t := by
  unfold marked at h
  rw [if_pos rfl] at h
  obtain ⟨e, he, -, hstamp, hback⟩ := exists_of_mem_reactivated h
  rcases hback hactive with hold | ⟨t', ht', hle⟩
  · obtain ⟨-, -, -, -, -, hfresh⟩ := exists_of_mem_deactivated he
    exact hfresh hold t (hstamp ▸ ht)
  · rw [ht, Option.some.injEq] at ht'
    rw [ht']
    exact hle

end Mark

/-- What holds between the runs of a full sync that stores nothing. -/
structure AppsLeft (w₀ v : World) : Prop where
  s1 : v.s1 = w₀.s1
  checkpoint : v.checkpoints "apps" = none
  now : w₀.now ≤ v.now
  kept : ∀ d ∈ w₀.installedApps, d.lastSyncedAt = none → d ∈ v.installedApps
  old : ∀ d ∈ v.installedApps, ∃ e ∈ w₀.installedApps, d.source = e.source ∧
    d.lastSyncedAt = e.lastSyncedAt ∧ (d.isActive = true → e.isActive = true)

section Left

variable {py : Python} {pages : Nat} {w₀ v v' : World} {startedAt : Nat}

theorem AppsLeft.step (hpast : SyncedBefore w₀) (hstarted : w₀.now ≤ startedAt) (h : AppsLeft w₀ v)
    (hchange : AppsChange startedAt v v') : AppsLeft w₀ v' := by
  cases hchange with
  | tick =>
    exact ⟨h.s1, h.checkpoint, h.now.trans (v.clock.ticks (Nat.lt_succ_self _)).le, h.kept, h.old⟩
  | answer => exact ⟨h.s1, h.checkpoint, h.now, h.kept, h.old⟩
  | clear =>
    exact ⟨h.s1, World.setCheckpoint_checkpoints none, h.now, h.kept, h.old⟩
  | record => exact ⟨h.s1, h.checkpoint, h.now, h.kept, h.old⟩
  | names => exact ⟨h.s1, h.checkpoint, h.now, h.kept, h.old⟩
  | deactivate =>
    refine ⟨h.s1, h.checkpoint, h.now, fun d hd hnone => ?_, fun d hd => ?_⟩
    · exact mem_deactivated_of_none (h.kept d hd hnone) hnone
    · obtain ⟨e, he, hsource, hstamp, hactive, -⟩ := exists_of_mem_deactivated hd
      obtain ⟨f, hf, hsource', hstamp', hactive'⟩ := h.old e he
      exact ⟨f, hf, hsource.trans hsource', hstamp.trans hstamp', hactive' ∘ hactive⟩
  | reactivate =>
    refine ⟨h.s1, h.checkpoint, h.now, fun d hd hnone => ?_, fun d hd => ?_⟩
    · exact mem_reactivated_of_none (h.kept d hd hnone) hnone
    · obtain ⟨e, he, hsource, hstamp, hactive⟩ := exists_of_mem_reactivated hd
      obtain ⟨f, hf, hsource', hstamp', hactive'⟩ := h.old e he
      refine ⟨f, hf, hsource.trans hsource', hstamp.trans hstamp', fun hyes => ?_⟩
      rcases hactive hyes with hold | ⟨t, ht, hle⟩
      · exact hactive' hold
      · have hlt := hpast f hf t ((hstamp.trans hstamp').symm.trans ht)
        omega

theorem AppsLeft.changes (hpast : SyncedBefore w₀) (h : AppsLeft w₀ v)
    (hchanges : AppsChanges v v') :
    AppsLeft w₀ v' := by
  induction hchanges with
  | refl => exact h
  | tail _ hchange ih => exact ih.step hpast h.now hchange

theorem AppsLeft.cuts (hpy : NoNumerals py) (hpages : w₀.s1.apps.length < pages)
    (hpast : SyncedBefore w₀) (h : AppsLeft w₀ v) (cuts : List Nat) :
    AppsLeft w₀ (interrupted (appsPhase py pages .full) cuts v) := by
  induction cuts generalizing v with
  | nil => exact h
  | cons n cuts ih =>
    have hlength : v.s1.apps.length < pages := by
      rw [h.s1]
      exact hpages
    exact ih (h.changes hpast
      (Endures.cut (endures_appsPhase .full hpy hlength) .refl n))

/-- A full run from such a state has the whole listing before it. -/
theorem AppsLeft.toStore (h : AppsLeft w₀ v) :
    appsToStore .full v = [] ↔ ∀ raw ∈ w₀.s1.apps, raw.id = none := by
  have hargs : startArgs "apps" .full v = { mode := .full } := by
    unfold startArgs
    rw [h.checkpoint]
  have hstart : appsStart .full v = some ⟨[], 0, 0, none, 0⟩ := by
    unfold appsStart appsMode
    rw [hargs]
    rfl
  rw [appsToStore_eq_nil hstart, h.s1]
  exact Iff.rfl

theorem AppsLeft.mode (h : AppsLeft w₀ v) : appsMode .full v = .full := by
  unfold appsMode startArgs
  rw [h.checkpoint]
  rfl

end Left

section Always

variable {py : Python} {pages : Nat} {w₀ : World}

theorem AppsLeft.start (hstart : w₀.checkpoints "apps" = none) (faults : List (Option ApiError)) :
    AppsLeft w₀ { w₀ with faults := faults } :=
  ⟨rfl, hstart, le_refl _, fun _ hd _ => hd, fun d hd => ⟨d, hd, rfl, rfl, id⟩⟩

theorem AppsLeft.nothing {v t : World} (hpy : NoNumerals py) (hpages : w₀.s1.apps.length < pages)
    (h : AppsLeft w₀ v) (ht : Returns (appsPhase py pages .full) v () t) :
    ∀ raw ∈ w₀.s1.apps, raw.id = none := by
  have hlength : v.s1.apps.length < pages := by
    rw [h.s1]
    exact hpages
  exact h.toStore.mp ((endures_appsPhase .full hpy hlength).of_returns .refl ht).2.nothing

theorem AppsLeft.keeps {v t : World} (hpy : NoNumerals py) (hpages : w₀.s1.apps.length < pages)
    (hpast : SyncedBefore w₀) (h : AppsLeft w₀ v) (ht : Returns (appsPhase py pages .full) v () t)
    {d : AppDoc} (hd : d ∈ w₀.installedApps) (hstamp : d.lastSyncedAt = none)
    (hsource : d.source = some sentinelone) (hactive : d.isActive = true) :
    ¬MirrorsApps py w₀.s1.apps t := by
  have hlength : v.s1.apps.length < pages := by
    rw [h.s1]
    exact hpages
  have hphase := endures_appsPhase .full hpy hlength
  have hkept := (h.changes hpast (hphase.of_returns .refl ht).1).kept d hd hstamp
  have hnone := h.nothing hpy hpages ht
  have hempty : (w₀.s1.apps.filter fun raw => raw.id.isSome) = [] := by
    rw [List.filter_eq_nil_iff]
    intro raw hraw
    rw [hnone raw hraw]
    exact Bool.false_ne_true
  intro hmirrors
  have hperm := hmirrors.docs
  rw [hempty, List.map_nil, List.perm_nil, List.map_eq_nil_iff, List.filter_eq_nil_iff] at hperm
  refine hperm d hkept ?_
  rw [hsource, hactive]
  rfl

end Always

theorem noNumerals_plainPython : NoNumerals plainPython := by
  intro name n heq
  have hchars : (plainPython.uuid5 name).toList = Nat.toDigits 10 n := by
    rw [heq]
    simp [toString, Nat.repr]
  have hdigit : 'u'.isDigit = true := by
    refine Nat.isDigit_of_mem_toDigits (b := 10) (n := n) (by decide) (by decide) ?_
    rw [← hchars]
    simp [plainPython]
  exact absurd hdigit (by decide)

end Sentora.Sync
