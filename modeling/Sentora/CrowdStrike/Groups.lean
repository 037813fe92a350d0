import Sentora.CrowdStrike.Agents

/-!
# What the groups phase of CrowdStrike mirrors

`_sync_groups` of `domains/sources/crowdstrike/sync_groups.py` with the scan of
`get_host_groups` that comes before it.  The scan goes through all pages, but the groups that
are stored come from one more call, which has a limit and no offset.
-/

namespace Sentora.CrowdStrike.Groups

open Lib Process Sync

/-- `query_combined_host_groups`, or the error that is left after the retries of `_call`. -/
def queryCombinedHostGroups (limit offset : Nat) : Phase (List CsGroup) := do
  let answer ← liftM (Process.atomic (SyncOp.api "/devices/combined/host-groups") fun w : World =>
    ({ w with csFaults := w.csFaults.tail },
      (w.csFaults.head?.join, (w.cs.groups.drop offset).take limit)))
  match answer.1 with
  | some e => throw (.csApi e)
  | none => pure answer.2

def fetchPage (cursor : Option Nat) : Phase (Page CsGroup Nat) := do
  let offset := cursor.getD 0
  let resources ← queryCombinedHostGroups 500 offset
  pure ⟨resources, if resources.length < 500 then none else some (offset + resources.length)⟩

abbrev GroupMap := List (String × String)

def recordGroup (groupMap : GroupMap) (grp : CsGroup) : GroupMap :=
  if grp.id ≠ "" then putDoc Prod.fst (grp.id, grp.name.getD "") groupMap else groupMap

def getHostGroups (pages : Nat) : Phase GroupMap :=
  scan (fun _ cursor => fetchPage cursor) (fun groupMap grp => pure (recordGroup groupMap grp))
    (fun _ => .unfinished) pages none []

/-- `_sync_groups`.  The map is what the log counts. -/
def syncGroups (py : Python) (pages : Nat) : Phase Unit := do
  let startedAt ← utcNow
  let _groupMap ← getHostGroups pages
  let rawGroups ← queryCombinedHostGroups 500 0
  let docs := rawGroups.map (normalizeGroup py)
  storeListing groupStore docs
  removeUnlisted groupStore (fun d => isOfSource d.source) docs
  updateMeta crowdstrike fun m => { m with groupsSyncedAt := some startedAt }

def groupsPhase (py : Python) (pages : Nat) (mode : Mode) : Phase Unit :=
  trigger "cs_groups" (fun _ => syncGroups py pages) mode

def MirrorsGroups (py : Python) (listing : List CsGroup) (w : World) : Prop :=
  (w.groups.docs.filter fun d => isOfSource d.source).Perm (listing.map (normalizeGroup py))

def DistinctGroups (py : Python) (listing : List CsGroup) : Prop :=
  ((listing.map (normalizeGroup py)).map GroupDoc.id).Nodup

/-- One page holds all groups, and where there are none, none is stored. -/
structure OnePage (w : World) : Prop where
  length : w.cs.groups.length ≤ 500
  empty : w.cs.groups = [] → ∀ d ∈ w.groups, d.source ≠ some crowdstrike

variable {py : Python} {pages : Nat} {mode : Mode} {w w' : World}

section Listing

variable {limit offset : Nat} {groups : List CsGroup}

def answered (w : World) : World := { w with csFaults := [] }

theorem returns_queryCombinedHostGroups :
    Returns (queryCombinedHostGroups limit offset) w groups w' ↔ w.csFaults.head?.join = none ∧
      groups = (w.cs.groups.drop offset).take limit ∧
      w' = { w with csFaults := w.csFaults.tail } := by
  unfold queryCombinedHostGroups
  rw [returns_bind]
  constructor
  · rintro ⟨answer, v, hfirst, hrest⟩
    obtain ⟨rfl, rfl⟩ := Prod.mk.inj (returns_lift.mp hfirst)
    rw [run_atomic] at hrest
    cases hfault : w.csFaults.head?.join with
    | some e =>
      simp only [hfault] at hrest
      exact absurd hrest returns_throw
    | none =>
      simp only [hfault] at hrest
      obtain ⟨rfl, rfl⟩ := returns_pure.mp hrest
      exact ⟨rfl, rfl, rfl⟩
  · rintro ⟨hfault, rfl, rfl⟩
    refine ⟨(none, _), _, returns_lift.mpr ?_, returns_pure.mpr ⟨rfl, rfl⟩⟩
    rw [← hfault]
    rfl

theorem leaves_query : Leaves answered (queryCombinedHostGroups limit offset) := by
  intro v groups v' h
  rw [(returns_queryCombinedHostGroups.mp h).2.2]
  rfl

theorem leaves_getHostGroups : Leaves answered (getHostGroups pages) :=
  leaves_scan (fun _ _ => leaves_query.bind fun _ => leaves_pure _) fun _ _ => leaves_pure _

/-- Without errors to come a call changes nothing. -/
theorem returns_query_of_no_faults (h : w.csFaults = []) :
    Returns (queryCombinedHostGroups limit offset) w ((w.cs.groups.drop offset).take limit) w := by
  refine returns_queryCombinedHostGroups.mpr ⟨by rw [h]; rfl, rfl, ?_⟩
  cases w
  subst h
  rfl

def groupsFrom (groups : List CsGroup) (cursor : Option Nat) : List CsGroup :=
  groups.drop (cursor.getD 0)

theorem returns_fetchPage (h : w.csFaults = []) (cursor : Option Nat) :
    ∃ page, Returns (fetchPage cursor) w page w ∧
      (page.next = none → page.items = groupsFrom w.cs.groups cursor) ∧
      ∀ c, page.next = some c → page.items ≠ [] ∧
        page.items ++ groupsFrom w.cs.groups (some c) = groupsFrom w.cs.groups cursor := by
  refine ⟨_, returns_bind.mpr ⟨_, w, returns_query_of_no_faults h, returns_pure.mpr ⟨rfl, rfl⟩⟩,
    fun hlast => ?_, fun c hnext => ?_⟩
  · dsimp only at hlast ⊢
    by_cases hfull : ((w.cs.groups.drop (cursor.getD 0)).take 500).length < 500
    · rw [List.length_take] at hfull
      exact List.take_of_length_le (by omega)
    · rw [if_neg hfull] at hlast
      cases hlast
  · dsimp only at hnext ⊢
    by_cases hfull : ((w.cs.groups.drop (cursor.getD 0)).take 500).length < 500
    · rw [if_pos hfull] at hnext
      cases hnext
    · rw [if_neg hfull] at hnext
      rw [List.length_take] at hfull hnext
      obtain rfl := Option.some.inj hnext
      refine ⟨fun hnil => ?_, ?_⟩
      · have hlength := congrArg List.length hnil
        rw [List.length_take, List.length_nil] at hlength
        omega
      · have hpage : min 500 (w.cs.groups.drop (cursor.getD 0)).length = 500 := by omega
        unfold groupsFrom
        rw [Option.getD_some, hpage, ← List.drop_drop]
        exact List.take_append_drop 500 _

theorem returns_getHostGroups (hfaults : w.csFaults = []) (hpages : w.cs.groups.length < pages) :
    Returns (getHostGroups pages) w (w.cs.groups.foldl recordGroup []) w := by
  have hstart : (groupsFrom w.cs.groups none).length < pages := hpages
  have hfirst : ([] : GroupMap) = ([] : List CsGroup).foldl recordGroup [] ∧ w = w := ⟨rfl, rfl⟩
  have hall : ∃ groupMap v, Returns (getHostGroups pages) w groupMap v ∧
      groupMap = w.cs.groups.foldl recordGroup [] ∧ v = w := by
    refine returns_scan id (groupsFrom w.cs.groups)
      (fun seen groupMap v => groupMap = seen.foldl recordGroup [] ∧ v = w) ?_ ?_ hstart hfirst
    · rintro seen groupMap v cursor ⟨rfl, rfl⟩
      obtain ⟨page, hpage, hlast, hnext⟩ := returns_fetchPage hfaults cursor
      refine ⟨page, v, hpage, ⟨rfl, rfl⟩, fun hend => ?_, fun c hc => ?_⟩
      · rw [List.map_id]
        exact hlast hend
      · rw [List.map_id]
        exact hnext c hc
    · rintro seen groupMap v grp ⟨rfl, rfl⟩
      exact ⟨_, v, returns_pure.mpr ⟨rfl, rfl⟩, List.foldl_concat .. |>.symm, rfl⟩
  obtain ⟨groupMap, v, hreturns, rfl, rfl⟩ := hall
  exact hreturns

end Listing

/-- What comes after the calls. -/
def store (py : Python) (startedAt : Nat) (rawGroups : List CsGroup) : Phase Unit := do
  let docs := rawGroups.map (normalizeGroup py)
  storeListing groupStore docs
  removeUnlisted groupStore (fun d => isOfSource d.source) docs
  updateMeta crowdstrike fun m => { m with groupsSyncedAt := some startedAt }

theorem returns_store {startedAt : Nat} {groups : List CsGroup} :
    Returns (store py startedAt groups) w () w' ↔
      w' = World.updateMeta crowdstrike (fun m => { m with groupsSyncedAt := some startedAt })
        (groupStore.set (listed (fun d => isOfSource d.source) (groups.map (normalizeGroup py))
          w.groups) w) := by
  have hreturns : Returns (store py startedAt groups) w ()
      (World.updateMeta crowdstrike (fun m => { m with groupsSyncedAt := some startedAt })
        (groupStore.set (listed (fun d => isOfSource d.source) (groups.map (normalizeGroup py))
          w.groups) w)) :=
    returns_bind.mpr ⟨(), _, returns_storeListing,
      returns_bind.mpr ⟨(), _, returns_removeUnlisted, returns_lift.mpr rfl⟩⟩
  constructor
  · exact fun h => (h.unique hreturns).2
  · rintro rfl
    exact hreturns

/-- What the run stores, whatever the scan has met. -/
theorem groups_of_returns (h : Returns (groupsPhase py pages mode) w () w') :
    w'.groups = (groupsDone py w).groups := by
  unfold groupsPhase at h
  rw [returns_trigger] at h
  obtain ⟨_, v, hrun, hclear⟩ := returns_bind.mp h
  obtain ⟨startedAt, w₁, hclock, hrun⟩ := returns_bind.mp hrun
  obtain ⟨groupMap, w₂, hscan, hrun⟩ := returns_bind.mp hrun
  obtain ⟨groups, w₃, hquery, hrun⟩ := returns_bind.mp hrun
  have hticked := Prod.mk.inj (returns_lift.mp hclock)
  have hscanned : answered w₂ = answered w₁ := leaves_getHostGroups _ _ _ hscan
  obtain ⟨-, rfl, rfl⟩ := returns_queryCombinedHostGroups.mp hquery
  have hstored := returns_store.mp hrun
  have hgroups : (answered w₂).groups = w.groups := by
    rw [hscanned, ← hticked.1]
    rfl
  have hlisting : (answered w₂).cs = w.cs := by
    rw [hscanned, ← hticked.1]
    rfl
  have hcleared : w'.groups = v.groups := by
    rw [← (Prod.mk.inj (returns_lift.mp hclear)).1]
    rfl
  rw [hcleared, hstored]
  show listed _ (List.map _ (List.take 500 (List.drop 0 (answered w₂).cs.groups)))
    (answered w₂).groups = _
  rw [hgroups, hlisting]
  rfl

/-- Where nothing fails the run completes. -/
theorem groupsPhase_returns (hfaults : w.csFaults = []) (hpages : w.cs.groups.length < pages) :
    ∃ w', Returns (groupsPhase py pages mode) w () w' := by
  let ticked : World := { w with readings := w.readings + 1 }
  unfold groupsPhase
  simp only [returns_trigger]
  exact ⟨_, returns_bind.mpr ⟨(), _, returns_bind.mpr ⟨w.now, ticked, returns_lift.mpr rfl,
    returns_bind.mpr ⟨_, ticked, returns_getHostGroups hfaults hpages,
    returns_bind.mpr ⟨_, ticked, returns_query_of_no_faults hfaults, returns_store.mpr rfl⟩⟩⟩,
    returns_lift.mpr rfl⟩⟩

theorem source_of_mem {listing : List CsGroup} {d : GroupDoc}
    (h : d ∈ listing.map (normalizeGroup py)) : isOfSource d.source = true := by
  obtain ⟨group, -, rfl⟩ := List.mem_map.mp h
  rfl

theorem filter_listed {docs : List GroupDoc} {c : Collection GroupDoc.id}
    (hdocs : docs ≠ []) (hids : (docs.map GroupDoc.id).Nodup)
    (hsource : ∀ d ∈ docs, isOfSource d.source = true) :
    ((listed (fun d => isOfSource d.source) docs c).docs.filter fun d =>
      isOfSource d.source).Perm docs := by
  refine (List.perm_ext_iff_of_nodup ((List.Nodup.of_map _ (listed _ docs c).distinct).filter _)
    (List.Nodup.of_map _ hids)).mpr fun d => ?_
  rw [List.mem_filter, ← Collection.mem_def, listed, if_pos hdocs, Collection.mem_deleteMany,
    Collection.mem_bulkReplace hids]
  constructor
  · rintro ⟨⟨hnew | ⟨-, hid⟩, hlisted⟩, hd⟩
    · exact hnew
    · rw [hd, Bool.true_and, Bool.not_eq_false', List.contains_iff_mem] at hlisted
      exact absurd hlisted hid
  · intro hnew
    have hid : d.id ∈ docs.map GroupDoc.id := List.mem_map_of_mem hnew
    refine ⟨⟨Or.inl hnew, ?_⟩, hsource d hnew⟩
    rw [List.contains_iff_mem.mpr hid]
    exact Bool.and_false _

theorem mirrorsGroups_iff (hids : DistinctGroups py w.cs.groups)
    (hgroups : w'.groups = (groupsDone py w).groups) :
    MirrorsGroups py w.cs.groups w' ↔ OnePage w := by
  unfold MirrorsGroups
  rw [hgroups]
  show ((listed _ ((w.cs.groups.take 500).map (normalizeGroup py)) w.groups).docs.filter _).Perm _ ↔
    _
  by_cases hnone : w.cs.groups = []
  · rw [hnone, List.take_nil, List.map_nil, listed, if_neg (not_not.mpr rfl), List.perm_nil,
      List.filter_eq_nil_iff]
    constructor
    · intro hempty
      exact ⟨by simp [hnone], fun _ d hd hsource => hempty d hd (beq_iff_eq.mpr hsource)⟩
    · exact fun hpage d hd hsource => hpage.empty hnone d hd (beq_iff_eq.mp hsource)
  · have hdocs : (w.cs.groups.take 500).map (normalizeGroup py) ≠ [] := by simp [hnone]
    have hsub : ((w.cs.groups.take 500).map (normalizeGroup py)).Sublist
        (w.cs.groups.map (normalizeGroup py)) := (List.take_sublist 500 _).map _
    have hleft := filter_listed (c := w.groups) hdocs (hids.sublist (hsub.map _))
      fun d hd => source_of_mem hd
    constructor
    · intro hmirrors
      have hlength := (hleft.symm.trans hmirrors).length_eq
      rw [List.length_map, List.length_map, List.length_take] at hlength
      exact ⟨by omega, fun hnil => absurd hnil hnone⟩
    · intro hpage
      rw [List.take_of_length_le hpage.length] at hleft ⊢
      exact hleft

/-- A run that completes mirrors the host groups if and only if one page holds them, and
none is stored where there are none.  Where nothing fails it completes. -/
theorem cs_groups_sync_mirrors_iff (py : Python) (pages : Nat) (mode : Mode) (w : World)
    (hids : DistinctGroups py w.cs.groups) :
    (∀ w', Returns (groupsPhase py pages mode) w () w' →
      (MirrorsGroups py w.cs.groups w' ↔ OnePage w)) ∧
    (w.csFaults = [] → w.cs.groups.length < pages →
      ∃ w', Returns (groupsPhase py pages mode) w () w') :=
  ⟨fun _ h => mirrorsGroups_iff hids (groups_of_returns h), groupsPhase_returns⟩

def numbered (n : Nat) : CsGroup := { id := toString n, name := some "group" }

/-- So many groups are listed, and none is stored. -/
def groupsUpTo (n : Nat) : World :=
  World.fresh .empty { CsSource.empty with groups := (List.range n).map numbered }

theorem length_groupsUpTo (n : Nat) : (groupsUpTo n).cs.groups.length = n := by
  show ((List.range n).map numbered).length = n
  rw [List.length_map, List.length_range]

theorem distinctGroups_groupsUpTo (n : Nat) :
    DistinctGroups plainPython (groupsUpTo n).cs.groups := by
  show ((((List.range n).map numbered).map (normalizeGroup plainPython)).map GroupDoc.id).Nodup
  rw [List.map_map, List.map_map]
  refine List.Nodup.map ?_ List.nodup_range
  intro a b heq
  have hchars := congrArg String.toList heq
  simp only [Function.comp_apply, normalizeGroup, numbered, canonicalId, plainPython,
    String.toList_append, List.append_cancel_left_eq] at hchars
  exact toString_nat_injective (String.toList_injective hchars)

theorem five_hundred_groups_are_mirrored :
    ∃ w', Returns (groupsPhase plainPython 501 .full) (groupsUpTo 500) () w' ∧
      MirrorsGroups plainPython (groupsUpTo 500).cs.groups w' := by
  have hboth := cs_groups_sync_mirrors_iff plainPython 501 .full (groupsUpTo 500)
    (distinctGroups_groupsUpTo 500)
  have hlength := length_groupsUpTo 500
  obtain ⟨w', hw'⟩ := hboth.2 rfl (by omega)
  exact ⟨w', hw', (hboth.1 w' hw').mpr
    ⟨hlength.le, fun _ d hd => absurd hd Collection.not_mem_empty⟩⟩

/-- The last group of a listing is on the second page. -/
theorem five_hundred_and_first_group_is_lost :
    ¬∀ (py : Python) (pages : Nat) (mode : Mode) (w w' : World), DistinctGroups py w.cs.groups →
      Returns (groupsPhase py pages mode) w () w' → MirrorsGroups py w.cs.groups w' := by
  intro hclaim
  have hlength := length_groupsUpTo 501
  have hcompletes : ∃ w', Returns (groupsPhase plainPython 502 .full) (groupsUpTo 501) () w' :=
    groupsPhase_returns rfl (by omega)
  obtain ⟨w', hw'⟩ := hcompletes
  have hids := distinctGroups_groupsUpTo 501
  have hpage := (mirrorsGroups_iff hids (groups_of_returns hw')).mp
    (hclaim plainPython 502 .full (groupsUpTo 501) w' hids hw')
  exact absurd hpage.length (by omega)

end Sentora.CrowdStrike.Groups
