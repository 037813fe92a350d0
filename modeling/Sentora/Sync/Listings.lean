import Sentora.Sync.S1Client

/-!
# The sites, groups and tags phases

The phases that fetch a whole listing before they write
(`domains/sync/phases/sites.py`, `groups.py` and `tags.py`).
-/

namespace Sentora.Sync

open Lib Process

/-- A collection of the database. -/
structure Store {δ : Type} (key : δ → String) where
  name : CollectionName
  get : World → Collection key
  set : Collection key → World → World
  get_set : ∀ c w, get (set c w) = c
  set_get : ∀ w, set (get w) w = w
  set_set : ∀ c d w, set c (set d w) = set c w

def siteStore : Store SiteDoc.id where
  name := .sites
  get := World.sites
  set c w := { w with sites := c }
  get_set _ _ := rfl
  set_get _ := rfl
  set_set _ _ _ := rfl

def groupStore : Store GroupDoc.id where
  name := .groups
  get := World.groups
  set c w := { w with groups := c }
  get_set _ _ := rfl
  set_get _ := rfl
  set_set _ _ _ := rfl

def tagStore : Store TagDoc.id where
  name := .sourceTags
  get := World.sourceTags
  set c w := { w with sourceTags := c }
  get_set _ _ := rfl
  set_get _ := rfl
  set_set _ _ _ := rfl

section Store

variable {δ : Type} {key : δ → String}

def storeListing (store : Store key) (docs : List δ) : Phase Unit :=
  if docs ≠ [] then
    liftM (Process.write (SyncOp.write store.name) fun w : World =>
      store.set ((store.get w).bulkReplace docs) w)
  else pure ()

def removeUnlisted (store : Store key) (isOf : δ → Bool) (docs : List δ) : Phase Unit :=
  if docs ≠ [] then
    liftM (Process.write (SyncOp.write store.name) fun w : World =>
      store.set ((store.get w).deleteMany fun d => isOf d && !(docs.map key).contains (key d)) w)
  else pure ()

def removeWhenFull (mode : Mode) (store : Store key) (docs : List δ) : Phase Unit :=
  if mode = .full then removeUnlisted store (fun _ => true) docs else pure ()

def listed (isOf : δ → Bool) (docs : List δ) (c : Collection key) : Collection key :=
  if docs ≠ [] then
    (c.bulkReplace docs).deleteMany fun d => isOf d && !(docs.map key).contains (key d)
  else c

variable {store : Store key} {docs : List δ} {w : World}

theorem returns_storeListing :
    Returns (storeListing store docs) w () (store.set ((store.get w).bulkReplace docs) w) := by
  unfold storeListing
  by_cases hdocs : docs ≠ []
  · rw [if_pos hdocs]
    exact returns_lift.mpr rfl
  · rw [if_neg hdocs, not_not.mp hdocs, Collection.bulkReplace_nil, store.set_get]
    exact returns_pure.mpr ⟨rfl, rfl⟩

theorem returns_removeUnlisted {isOf : δ → Bool} :
    Returns (removeUnlisted store isOf docs) (store.set ((store.get w).bulkReplace docs) w) ()
      (store.set (listed isOf docs (store.get w)) w) := by
  unfold removeUnlisted listed
  by_cases hdocs : docs ≠ []
  · rw [if_pos hdocs, if_pos hdocs]
    refine returns_lift.mpr ?_
    rw [run_write, store.get_set, store.set_set]
  · rw [if_neg hdocs, if_neg hdocs, not_not.mp hdocs, Collection.bulkReplace_nil]
    exact returns_pure.mpr ⟨rfl, rfl⟩

theorem returns_removeWhenFull (mode : Mode) :
    Returns (removeWhenFull mode store docs) (store.set ((store.get w).bulkReplace docs) w) ()
      (store.set (if mode = .full then listed (fun _ => true) docs (store.get w)
        else (store.get w).bulkReplace docs) w) := by
  unfold removeWhenFull
  by_cases hfull : mode = .full
  · rw [if_pos hfull, if_pos hfull]
    exact returns_removeUnlisted
  · rw [if_neg hfull, if_neg hfull]
    exact returns_pure.mpr ⟨rfl, rfl⟩

end Store

def loadSiteNameMap : Phase (String → Option String) :=
  liftM (Process.read (SyncOp.find .sites) fun w : World =>
    nameMap SiteDoc.sourceId SiteDoc.name w.sites.docs)

def S1Source.groupsSince (s1 : S1Source) (since : Option Nat) : List S1Group :=
  s1.groups.filter fun raw => since.all fun t => decide (s1Dt t ≤ raw.updatedAt)

def syncSites (py : Python) (pages : Nat) : Phase Unit := do
  let startedAt ← utcNow
  let sites ← fetchAll "/sites" S1Site.id 200 pages fun w => w.s1.sites
  let docs := sites.map (normalizeSite py)
  storeListing siteStore docs
  removeUnlisted siteStore (fun _ => true) docs
  updateMeta "global" fun m => { m with sitesSyncedAt := some startedAt }

def syncTags (py : Python) (pages : Nat) : Phase Unit := do
  let startedAt ← utcNow
  let tags ← fetchAll "/agents/tags" S1Tag.id 200 pages fun w => w.s1.tags
  let docs := tags.map fun raw => normalizeTag py raw startedAt
  storeListing tagStore docs
  removeUnlisted tagStore (fun _ => true) docs
  updateMeta "global" fun m => { m with tagsSyncedAt := some startedAt }

def syncGroups (py : Python) (pages : Nat) (args : RunArgs) : Phase Unit := do
  let syncMeta ← loadMeta "global"
  let mode := resolveMode args.mode syncMeta.groupsSyncedAt
  let startedAt ← utcNow
  let siteNameMap ← loadSiteNameMap
  let since := if mode = .full then none else syncMeta.groupsSyncedAt
  let groups ← fetchAll "/groups" S1Group.id 200 pages fun w => w.s1.groupsSince since
  let docs := groups.map fun raw => normalizeGroup py raw siteNameMap
  storeListing groupStore docs
  removeWhenFull mode groupStore docs
  updateMeta "global" fun m => { m with groupsSyncedAt := some startedAt }

def sitesPhase (py : Python) (pages : Nat) (mode : Mode) : Phase Unit :=
  trigger "sites" (fun _ => syncSites py pages) mode

def tagsPhase (py : Python) (pages : Nat) (mode : Mode) : Phase Unit :=
  trigger "tags" (fun _ => syncTags py pages) mode

def groupsPhase (py : Python) (pages : Nat) (mode : Mode) : Phase Unit :=
  trigger "groups" (syncGroups py pages) mode

def sitesDone (py : Python) (w : World) : World :=
  { w.setCheckpoint "sites" none with
    sites := listed (fun _ => true) (w.s1.sites.map (normalizeSite py)) w.sites
    syncMeta := Function.update w.syncMeta "global"
      { w.syncMeta "global" with sitesSyncedAt := some w.now }
    readings := w.readings + 1 }

def tagsDone (py : Python) (w : World) : World :=
  { w.setCheckpoint "tags" none with
    sourceTags := listed (fun _ => true) (w.s1.tags.map fun raw => normalizeTag py raw w.now)
      w.sourceTags
    syncMeta := Function.update w.syncMeta "global"
      { w.syncMeta "global" with tagsSyncedAt := some w.now }
    readings := w.readings + 1 }

def groupsMode (mode : Mode) (w : World) : Mode :=
  resolveMode (startArgs "groups" mode w).mode (w.syncMeta "global").groupsSyncedAt

def groupsFetched (mode : Mode) (w : World) : List S1Group :=
  w.s1.groupsSince
    (if groupsMode mode w = .full then none else (w.syncMeta "global").groupsSyncedAt)

def groupsDocs (py : Python) (mode : Mode) (w : World) : List GroupDoc :=
  (groupsFetched mode w).map fun raw =>
    normalizeGroup py raw (nameMap SiteDoc.sourceId SiteDoc.name w.sites.docs)

def groupsDone (py : Python) (mode : Mode) (w : World) : World :=
  { w.setCheckpoint "groups" none with
    groups :=
      if groupsMode mode w = .full then listed (fun _ => true) (groupsDocs py mode w) w.groups
      else w.groups.bulkReplace (groupsDocs py mode w)
    syncMeta := Function.update w.syncMeta "global"
      { w.syncMeta "global" with groupsSyncedAt := some w.now }
    readings := w.readings + 1 }

section Done

variable {py : Python} {pages : Nat} {mode : Mode} {w : World}

theorem returns_sitesPhase (hpages : w.s1.sites.length < pages) :
    Returns (sitesPhase py pages mode) w () (sitesDone py w) := by
  let ticked : World := { w with readings := w.readings + 1 }
  unfold sitesPhase
  rw [returns_trigger]
  have hfetch : Returns (fetchAll "/sites" S1Site.id 200 pages fun w => w.s1.sites) ticked
      w.s1.sites ticked :=
    (returns_fetchAll (Nat.succ_pos 199) w.s1.sites_sorted hpages).mpr ⟨rfl, rfl⟩
  refine returns_bind.mpr ⟨(), _, returns_bind.mpr ⟨w.now, ticked, returns_lift.mpr rfl,
    returns_bind.mpr ⟨_, _, hfetch, returns_bind.mpr ⟨(), _, returns_storeListing,
    returns_bind.mpr ⟨(), _, returns_removeUnlisted, returns_lift.mpr rfl⟩⟩⟩⟩,
    returns_lift.mpr rfl⟩

theorem returns_tagsPhase (py : Python) (mode : Mode) (hpages : w.s1.tags.length < pages) :
    Returns (tagsPhase py pages mode) w () (tagsDone py w) := by
  let ticked : World := { w with readings := w.readings + 1 }
  unfold tagsPhase
  rw [returns_trigger]
  have hfetch : Returns (fetchAll "/agents/tags" S1Tag.id 200 pages fun w => w.s1.tags) ticked
      w.s1.tags ticked :=
    (returns_fetchAll (Nat.succ_pos 199) w.s1.tags_sorted hpages).mpr ⟨rfl, rfl⟩
  exact returns_bind.mpr ⟨(), _, returns_bind.mpr ⟨w.now, ticked, returns_lift.mpr rfl,
    returns_bind.mpr ⟨_, _, hfetch, returns_bind.mpr ⟨(), _, returns_storeListing,
    returns_bind.mpr ⟨(), _, returns_removeUnlisted, returns_lift.mpr rfl⟩⟩⟩⟩,
    returns_lift.mpr rfl⟩

theorem returns_groupsPhase (hpages : w.s1.groups.length < pages) :
    Returns (groupsPhase py pages mode) w () (groupsDone py mode w) := by
  let ticked : World := { w with readings := w.readings + 1 }
  unfold groupsPhase
  rw [returns_trigger]
  have hlength : (groupsFetched mode w).length < pages :=
    Nat.lt_of_le_of_lt (List.length_filter_le _ _) hpages
  have hsorted : (groupsFetched mode w).Pairwise fun x y => x.id < y.id :=
    w.s1.groups_sorted.filter _
  have hfetch : Returns (fetchAll "/groups" S1Group.id 200 pages fun w' =>
      w'.s1.groupsSince (if groupsMode mode w = .full then none
        else (w.syncMeta "global").groupsSyncedAt)) ticked (groupsFetched mode w) ticked := by
    refine (returns_fetchAll (Nat.succ_pos 199) ?_ ?_).mpr ⟨rfl, rfl⟩
    · exact hsorted
    · exact hlength
  exact returns_bind.mpr ⟨(), _, returns_bind.mpr ⟨_, w, returns_lift.mpr rfl,
    returns_bind.mpr ⟨w.now, ticked, returns_lift.mpr rfl,
    returns_bind.mpr ⟨_, ticked, returns_lift.mpr rfl,
    returns_bind.mpr ⟨_, _, hfetch, returns_bind.mpr ⟨(), _, returns_storeListing,
    returns_bind.mpr ⟨(), _, returns_removeWhenFull (groupsMode mode w), returns_lift.mpr rfl⟩⟩⟩⟩⟩⟩,
    returns_lift.mpr rfl⟩

end Done

end Sentora.Sync
