import Sentora.CrowdStrike.Agents
import Sentora.Sync.FullAgents

/-!
# Full syncs of the hosts

Whether the agents of CrowdStrike are the hosts of the listing after a full sync
that was cut off any number of times, and which applications it has deleted.

A checkpoint carries a time, and a run that is resumed from it asks for the hosts
modified after that time alone.  Where a full sync removes an agent, it removes the
applications that do not carry its own stamp, which are those of all hosts.
-/

namespace Sentora.CrowdStrike

open Lib Process Sync

def MirrorsHosts (py : Python) (listing : List CsHost) (groupNameMap : String → Option String)
    (w : World) : Prop :=
  ((w.agents.docs.filter fun d => isOfSource d.source).map AgentDoc.unstamped).Perm
    (listing.map fun host => normalizeHost py host groupNameMap)

/-- The applications of the hosts of the listing that were there are still there. -/
def AppsSpared (w₀ w : World) : Prop :=
  ∀ d ∈ w₀.installedApps, (∃ host ∈ w₀.cs.hosts, d.agentId = host.deviceId) → d ∈ w.installedApps

def hostId (py : Python) (host : CsHost) : String :=
  canonicalId py crowdstrike ("agent:" ++ host.deviceId)

def DistinctHosts (py : Python) (listing : List CsHost) : Prop := (listing.map (hostId py)).Nodup

def AppsStampedBefore (w : World) : Prop :=
  ∀ d ∈ w.installedApps, ∀ t, d.syncedAt = some t → t < w.now

/-- Where an attempt fetches all hosts, and either removes no agent or finds no
application of a host. -/
structure SparesHosts (py : Python) (w : World) : Prop where
  fetched : ∀ c t, w.checkpoints "cs_agents" = some c → c.resumeTimestamp = some t →
    ∀ host ∈ w.cs.hosts, t < host.modifiedTimestamp
  apps : (∀ a ∈ w.agents, a.source = some crowdstrike → ∃ host ∈ w.cs.hosts,
    a.id = hostId py host) ∨
    ∀ d ∈ w.installedApps, d.source = some crowdstrike →
      ∀ host ∈ w.cs.hosts, d.agentId ≠ host.deviceId

/-- Every attempt that is cut off starts where a condition holds. -/
def StartsMeet (program : Phase Unit) (good : World → Prop) : List Nat → World → Prop
  | [], _ => True
  | n :: cuts, w => good w ∧ StartsMeet program good cuts (Process.cut n program.run w)

structure FullCheckpoint (c : Checkpoint) : Prop where
  status : c.status = none
  mode : c.mode = some .full
  time : c.resumeTimestamp.isSome

/-- What holds between the attempts of a full sync, and of the applications of the
listed hosts under an assumption. -/
structure HostsInterrupted (careful : Prop) (w₀ w : World) : Prop where
  cs : w.cs = w₀.cs
  groups : w.groups = w₀.groups
  past : StampedBefore w
  now : w₀.now ≤ w.now
  apps : ∀ d ∈ w.installedApps, d ∈ w₀.installedApps
  spared : careful → AppsSpared w₀ w
  checkpoint : ∀ c, w.checkpoints "cs_agents" = some c → FullCheckpoint c

section Run

variable {py : Python} {pages : Nat} {careful : Prop} {w₀ w : World}

theorem HostsInterrupted.args (h : HostsInterrupted careful w₀ w) :
    (startArgs "cs_agents" .full w).mode = .full ∧
      (startArgs "cs_agents" .full w).checkpoint = w.checkpoints "cs_agents" ∧
      ((w.checkpoints "cs_agents").isSome → (startArgs "cs_agents" .full w).isResume = true) := by
  unfold startArgs
  cases hc : w.checkpoints "cs_agents" with
  | none => exact ⟨rfl, rfl, fun hsome => nomatch hsome⟩
  | some c =>
    have hof := h.checkpoint c hc
    dsimp only
    rw [hof.status, if_neg (by simp), hof.mode]
    exact ⟨rfl, rfl, fun _ => rfl⟩

theorem HostsInterrupted.mode (h : HostsInterrupted careful w₀ w) :
    (hostsRun .full w).mode = .full := by
  unfold hostsRun
  rw [h.args.1]
  rfl

theorem HostsInterrupted.usable (h : HostsInterrupted careful w₀ w) :
    hostsCheckpoint .full w = w.checkpoints "cs_agents" := by
  unfold hostsCheckpoint
  rw [h.mode]
  cases hc : w.checkpoints "cs_agents" with
  | none =>
    unfold RunArgs.usable
    rw [h.args.2.1, hc]
    rfl
  | some c => exact RunArgs.usable_eq_some (h.args.2.1.trans hc) (h.checkpoint c hc).mode

theorem HostsInterrupted.mem_fetched (h : HostsInterrupted careful w₀ w) {host : CsHost} :
    host ∈ hostsFetched .full w ↔ host ∈ w.cs.hosts ∧ ∀ c t, w.checkpoints "cs_agents" = some c →
      c.resumeTimestamp = some t → t < host.modifiedTimestamp := by
  unfold hostsFetched hostsSince
  rw [h.mode, h.usable, List.mem_filter]
  refine and_congr_right fun _ => ?_
  unfold hostFilter
  cases hc : w.checkpoints "cs_agents" with
  | none => simp
  | some c =>
    have hresume : (startArgs "cs_agents" .full w).isResume = true := h.args.2.2 (by rw [hc]; rfl)
    have hone : (∀ d t, some c = some d → d.resumeTimestamp = some t → t < host.modifiedTimestamp) ↔
        ∀ t, c.resumeTimestamp = some t → t < host.modifiedTimestamp :=
      ⟨fun hall t ht => hall c t rfl ht, fun hall d t hd ht => hall t (Option.some.inj hd ▸ ht)⟩
    rw [hone]
    cases htime : c.resumeTimestamp with
    | none => simp [htime]
    | some t => simp [htime, hresume]

theorem SparesHosts.fetchesAll (hspares : SparesHosts py w) (h : HostsInterrupted careful w₀ w)
    {host : CsHost} (hhost : host ∈ w.cs.hosts) : host ∈ hostsFetched .full w :=
  h.mem_fetched.mpr ⟨hhost, fun c t hc ht => hspares.fetched c t hc ht host hhost⟩

theorem nodup_hostsDocs {mode : Mode} (hids : DistinctHosts py w.cs.hosts) :
    ((hostsDocs py mode w).map AgentDoc.id).Nodup := by
  have hsub : (hostsFetched mode w).Sublist w.cs.hosts := List.filter_sublist
  have heq : (hostsDocs py mode w).map AgentDoc.id = (hostsFetched mode w).map (hostId py) := by
    unfold hostsDocs
    rw [List.map_map]
    rfl
  rw [heq]
  exact hids.sublist (hsub.map _)

theorem stale_iff {mode : Mode} (hids : DistinctHosts py w.cs.hosts) (hpast : StampedBefore w)
    {d : AgentDoc} :
    (d ∈ w.agents.bulkReplace (hostsDocs py mode w) ∧ staleAgent w.now d = true) ↔
      d ∈ w.agents ∧ d.source = some crowdstrike ∧
        d.id ∉ (hostsDocs py mode w).map AgentDoc.id := by
  rw [Collection.mem_bulkReplace (nodup_hostsDocs hids)]
  have hstale : staleAgent w.now d = true ↔
    d.source = some crowdstrike ∧ d.syncedAt ≠ some w.now := by
    unfold staleAgent isOfSource
    rw [Bool.and_eq_true, beq_iff_eq, bne_iff_ne]
  rw [hstale]
  constructor
  · rintro ⟨hnew | ⟨hold, hid⟩, hsource, hstamp⟩
    · obtain ⟨host, -, rfl⟩ := List.mem_map.mp hnew
      exact absurd rfl hstamp
    · exact ⟨hold, hsource, hid⟩
  · rintro ⟨hold, hsource, hid⟩
    exact ⟨Or.inr ⟨hold, hid⟩, hsource, fun heq => lt_irrefl _ (hpast d hold _ heq)⟩

theorem mem_hostsDone_agents {readings : Nat} (hids : DistinctHosts py w.cs.hosts)
    (h : HostsInterrupted careful w₀ w) {d : AgentDoc} :
    (d ∈ (hostsDone py .full w readings).agents ∧ d.source = some crowdstrike) ↔
      d ∈ hostsDocs py .full w := by
  show d ∈ keptAgents _ _ ∧ _ ↔ _
  unfold keptAgents
  rw [if_pos h.mode, Collection.mem_deleteMany]
  constructor
  · rintro ⟨⟨hbulk, hfresh⟩, hsource⟩
    rcases (Collection.mem_bulkReplace (nodup_hostsDocs hids)).mp hbulk with hnew | hold
    · exact hnew
    · have hstale := (stale_iff hids h.past).mpr ⟨hold.1, hsource, hold.2⟩
      exact absurd (hfresh.symm.trans hstale.2) Bool.false_ne_true
  · intro hnew
    refine ⟨⟨(Collection.mem_bulkReplace (nodup_hostsDocs hids)).mpr (Or.inl hnew), ?_⟩, ?_⟩
    · obtain ⟨host, -, rfl⟩ := List.mem_map.mp hnew
      unfold staleAgent
      rw [Bool.and_eq_false_iff, bne_eq_false_iff_eq]
      exact Or.inr rfl
    · obtain ⟨host, -, rfl⟩ := List.mem_map.mp hnew
      rfl

theorem mirrorsHosts_hostsDone_iff (readings : Nat) (hids : DistinctHosts py w.cs.hosts)
    (h : HostsInterrupted careful w₀ w) :
    MirrorsHosts py w.cs.hosts (hostsRun .full w).groupNameMap (hostsDone py .full w readings) ↔
      ∀ host ∈ w.cs.hosts, host ∈ hostsFetched .full w := by
  let t := hostsDone py .full w readings
  have hmem : ∀ d, d ∈ t.agents.docs.filter (fun d => isOfSource d.source) ↔
      d ∈ hostsDocs py .full w := by
    intro d
    rw [List.mem_filter, ← mem_hostsDone_agents hids h]
    exact and_congr_right fun _ => beq_iff_eq
  have hperm : (t.agents.docs.filter fun d => isOfSource d.source).Perm (hostsDocs py .full w) :=
    (List.perm_ext_iff_of_nodup ((List.Nodup.of_map _ t.agents.distinct).filter _)
      (List.Nodup.of_map _ (nodup_hostsDocs hids))).mpr hmem
  have hunstamped : (hostsDocs py .full w).map AgentDoc.unstamped =
      (hostsFetched .full w).map fun host =>
        normalizeHost py host (hostsRun .full w).groupNameMap := by
    unfold hostsDocs
    rw [List.map_map]
    rfl
  have hdone : ((t.agents.docs.filter fun d => isOfSource d.source).map AgentDoc.unstamped).Perm
      ((hostsFetched .full w).map fun host =>
        normalizeHost py host (hostsRun .full w).groupNameMap) :=
    (hperm.map _).trans (List.Perm.of_eq hunstamped)
  unfold MirrorsHosts
  constructor
  · intro hmirrors host hhost
    have hnormal := (hmirrors.symm.trans hdone).subset (List.mem_map_of_mem hhost)
    obtain ⟨other, hother, heq⟩ := List.mem_map.mp hnormal
    -- The host that has been fetched has the identity of this one.
    have hlisted : other ∈ w.cs.hosts := (List.mem_filter.mp hother).1
    have hsame : other = host :=
      List.inj_on_of_nodup_map hids hlisted hhost (congrArg AgentDoc.id heq)
    rw [← hsame]
    exact hother
  · intro hall
    have hwhole : hostsFetched .full w = w.cs.hosts := by
      unfold hostsFetched hostsSince at hall ⊢
      rw [List.filter_eq_self]
      exact fun host hhost => (List.mem_filter.mp (hall host hhost)).2
    rw [hwhole] at hdone
    exact hdone

theorem appsSpared_hostsDone_iff (readings : Nat) (hids : DistinctHosts py w.cs.hosts)
    (hstamped : AppsStampedBefore w₀) (h : HostsInterrupted careful w₀ w)
    (hall : ∀ host ∈ w.cs.hosts, host ∈ hostsFetched .full w) :
    AppsSpared w₀ (hostsDone py .full w readings) ↔ AppsSpared w₀ w ∧
      ((∀ a ∈ w.agents, a.source = some crowdstrike → ∃ host ∈ w.cs.hosts, a.id = hostId py host) ∨
        ∀ d ∈ w.installedApps, d.source = some crowdstrike →
          ∀ host ∈ w.cs.hosts, d.agentId ≠ host.deviceId) := by
  let bulk := w.agents.bulkReplace (hostsDocs py .full w)
  have hkept : ∀ d, d ∈ (hostsDone py .full w readings).installedApps ↔ d ∈ w.installedApps ∧
      (bulk.docs.any (staleAgent w.now) = true → staleApp w.now d = false) := by
    intro d
    show d ∈ keptApps _ _ _ ↔ _
    unfold keptApps
    by_cases hany : bulk.docs.any (staleAgent w.now) = true
    · rw [if_pos ⟨h.mode, hany⟩, Collection.mem_deleteMany]
      exact and_congr_right fun _ => ⟨fun hstale _ => hstale, fun hstale => hstale hany⟩
    · rw [if_neg fun hboth => hany hboth.2]
      exact (and_iff_left fun hyes => absurd hyes hany).symm
  have hstaleApp : ∀ d ∈ w.installedApps, staleApp w.now d = false ↔
    d.source ≠ some crowdstrike := by
    intro d hd
    have hstamp : d.syncedAt ≠ some w.now := fun heq =>
      absurd ((hstamped d (h.apps d hd) _ heq).trans_le h.now) (lt_irrefl _)
    unfold staleApp isOfSource
    rw [bne_iff_ne.mpr hstamp, Bool.and_true, beq_eq_false_iff_ne]
  have hany : bulk.docs.any (staleAgent w.now) = true ↔ ∃ a ∈ w.agents,
      a.source = some crowdstrike ∧ ∀ host ∈ w.cs.hosts, a.id ≠ hostId py host := by
    rw [List.any_eq_true]
    refine exists_congr fun a => (stale_iff hids h.past).trans ?_
    refine and_congr_right fun _ => and_congr_right fun _ => ?_
    constructor
    · intro hid host hhost heq
      exact hid (heq ▸ List.mem_map_of_mem (List.mem_map_of_mem (hall host hhost)))
    · intro hother hid
      obtain ⟨d, hd, heq⟩ := List.mem_map.mp hid
      obtain ⟨host, hhost, rfl⟩ := List.mem_map.mp hd
      exact hother host (List.mem_filter.mp hhost).1 heq.symm
  constructor
  · intro hspared
    refine ⟨fun d hd hhost => ((hkept d).mp (hspared d hd hhost)).1, ?_⟩
    refine or_iff_not_imp_left.mpr fun hstale d hd hsource host hhost hagent => ?_
    simp only [not_forall, not_exists, not_and] at hstale
    obtain ⟨a, ha, hof, hother⟩ := hstale
    have hd₀ : d ∈ w₀.installedApps := h.apps d hd
    rw [h.cs] at hhost
    have hin := ((hkept d).mp (hspared d hd₀ ⟨host, hhost, hagent⟩)).2
    exact (hstaleApp d hd).mp (hin (hany.mpr ⟨a, ha, hof, hother⟩)) hsource
  · rintro ⟨hspared, hcondition⟩ d hd ⟨host, hhost, hagent⟩
    have hd' := hspared d hd ⟨host, hhost, hagent⟩
    refine (hkept d).mpr ⟨hd', fun hstale => ?_⟩
    rcases hcondition with hlisted | hnone
    · obtain ⟨a, ha, hof, hother⟩ := hany.mp hstale
      obtain ⟨host', hhost', heq⟩ := hlisted a ha hof
      exact absurd heq (hother host' hhost')
    · rw [← h.cs] at hhost
      exact (hstaleApp d hd').mpr fun hsource => hnone d hd' hsource host hhost hagent

end Run

section Cut

variable {py : Python} {pages : Nat} {careful : Prop} {w₀ v t : World} {run : AgentsRun}
  {since : Option Nat} {rest : List (List CsHost)} {l : HostsLoop}

theorem HostsInterrupted.tick (h : HostsInterrupted careful w₀ t) :
    HostsInterrupted careful w₀ { t with readings := t.readings + 1 } := by
  have hlt : t.now < World.now { t with readings := t.readings + 1 } :=
    t.clock.ticks (Nat.lt_succ_self _)
  exact ⟨h.cs, h.groups, fun d hd s hs => (h.past d hd s hs).trans hlt, h.now.trans hlt.le, h.apps,
    h.spared, h.checkpoint⟩

theorem HostsInterrupted.setCheckpoint (h : HostsInterrupted careful w₀ t) {c : Option Checkpoint}
    (hc : ∀ d, c = some d → FullCheckpoint d) :
    HostsInterrupted careful w₀ (t.setCheckpoint "cs_agents" c) := by
  refine ⟨h.cs, h.groups, h.past, h.now, h.apps, h.spared, fun d hd => hc d ?_⟩
  have hsaved : (t.setCheckpoint "cs_agents" c).checkpoints "cs_agents" = some d := hd
  rw [World.setCheckpoint_checkpoints] at hsaved
  exact hsaved

theorem HostsInterrupted.setAgents (h : HostsInterrupted careful w₀ t)
    {agents : Collection AgentDoc.id}
    (hagents : ∀ d ∈ agents, d ∈ t.agents ∨ ∃ s, d.syncedAt = some s ∧ s < t.now) :
    HostsInterrupted careful w₀ { t with agents := agents } := by
  refine ⟨h.cs, h.groups, fun d hd s hs => ?_, h.now, h.apps, h.spared, h.checkpoint⟩
  rcases hagents d hd with hold | ⟨s', hs', hlt⟩
  · exact h.past d hold s hs
  · rw [hs', Option.some.injEq] at hs
    rw [← hs]
    exact hlt

/-- What the loop has done of the batches of a listing. -/
structure Scrolling (py : Python) (run : AgentsRun) (v : World) (since : Option Nat)
    (rest : List (List CsHost)) (l : HostsLoop) (t : World) : Prop where
  stored : ∃ done, t.agents.bulkReplace l.buffer =
      v.agents.bulkReplace (done.flatten.map (hostDoc py run)) ∧
    done ++ rest = v.cs.hostSplit.batches (hostsSince v.cs since)
  apps : t.installedApps = v.installedApps
  cs : t.cs = v.cs
  now : run.startedAt < t.now
  stamped : ∀ d ∈ l.buffer, d.syncedAt = some run.startedAt

abbrev HostsEndure {α : Type} (careful : Prop) (w₀ : World) (Q : World → α → Prop) (t : World)
    (p : Phase α) : Prop :=
  EnduresOr Eq (HostsInterrupted careful w₀) Q (fun _ _ => True) t p

theorem Scrolling.flushAgents (h : Scrolling py run v since rest l t) :
    HostsEndure careful w₀
      (fun u _ => Scrolling py run v since rest { l with buffer := [] } u) t
      (flushAgents l.buffer) := by
  refine enduresOr_atomic ?_
  rintro _ rfl hI
  refine ⟨hI.setAgents fun d hd => ?_, h.stored, h.apps, h.cs, h.now,
    List.forall_mem_nil _⟩
  rcases Collection.mem_or_mem_of_bulkReplace hd with hnew | hold
  · exact Or.inr ⟨run.startedAt, h.stamped d hnew, h.now⟩
  · exact Or.inl hold

theorem Scrolling.flushHosts (hmode : run.mode = .full) (h : Scrolling py run v since rest l t) :
    HostsEndure careful w₀ (fun u l' => Scrolling py run v since rest l' u) t
      (flushHosts run l) := by
  unfold CrowdStrike.flushHosts
  by_cases hfull : 500 ≤ l.buffer.length
  · rw [if_pos hfull]
    refine h.flushAgents.bind fun t₁ _ h₁ => ?_
    have hclock : HostsEndure careful w₀
        (fun u _ => Scrolling py run v since rest { l with buffer := [] } u) t₁ utcNow := by
      refine enduresOr_atomic ?_
      rintro _ rfl hI
      exact ⟨hI.tick, h₁.stored, h₁.apps, h₁.cs,
        h₁.now.trans (t₁.clock.ticks (Nat.lt_succ_self _)), h₁.stamped⟩
    refine hclock.bind fun t₂ lastBatchAt h₂ => ?_
    have hsave : HostsEndure careful w₀
        (fun u _ => Scrolling py run v since rest { l with buffer := [] } u) t₂
        (saveCheckpoint "cs_agents"
          { synced := l.synced + l.buffer.length
            total := l.total
            mode := some run.mode
            resumeTimestamp := some lastBatchAt }) := by
      refine enduresOr_atomic ?_
      rintro _ rfl hI
      refine ⟨hI.setCheckpoint fun d hd => ?_, h₂.stored, h₂.apps, h₂.cs, h₂.now, h₂.stamped⟩
      rw [← Option.some.inj hd]
      exact ⟨rfl, congrArg some hmode, rfl⟩
    refine hsave.bind fun t₃ _ h₃ => ?_
    exact enduresOr_pure ⟨h₃.stored, h₃.apps, h₃.cs, h₃.now, h₃.stamped⟩
  · rw [if_neg hfull]
    exact enduresOr_pure h

/-- One turn of the loop. -/
theorem Scrolling.syncHosts {batch : HostBatch} (hmode : run.mode = .full)
    (h : Scrolling py run v since (batch.hosts :: rest) l t) :
    HostsEndure careful w₀ (fun u l' => Scrolling py run v since rest l' u) t
      (syncHosts py run l batch) := by
  unfold CrowdStrike.syncHosts
  refine Scrolling.flushHosts hmode ⟨?_, h.apps, h.cs, h.now, fun d hd => ?_⟩
  · obtain ⟨done, hstored, hsplit⟩ := h.stored
    refine ⟨done ++ [batch.hosts], ?_, ?_⟩
    · rw [Collection.bulkReplace_append, hstored, ← Collection.bulkReplace_append]
      simp
    · rw [List.append_assoc]
      exact hsplit
  · rcases List.mem_append.mp hd with hold | hnew
    · exact h.stamped d hold
    · obtain ⟨host, -, rfl⟩ := List.mem_map.mp hnew
      rfl

/-- The whole loop. -/
theorem Scrolling.scan (hmode : run.mode = .full)
    (h : Scrolling py run v since (v.cs.hostSplit.batches (hostsSince v.cs since)) l t) :
    HostsEndure careful w₀ (fun u l' => Scrolling py run v since [] l' u) t
      (Lib.scan (fun _ cursor => scrollHosts since cursor) (CrowdStrike.syncHosts py run)
        (fun _ => SyncError.unfinished) pages none l) := by
  let restAt := v.cs.hostSplit.rest (hostsSince v.cs since)
  let J : Nat → Option Nat → HostsLoop → World → Prop := fun _ cursor l u =>
    Scrolling py run v since (restAt cursor) l u
  let K : Nat → List HostBatch → Option Nat → HostsLoop → World → Prop := fun _ ys next l u =>
    Scrolling py run v since
      (ys.map HostBatch.hosts ++ (next.map fun c => restAt (some c)).getD []) l u
  have hscan : HostsEndure careful w₀ (fun u l' => ∃ n, K n [] none l' u) t
      (Lib.scan (fun _ cursor => scrollHosts since cursor) (CrowdStrike.syncHosts py run)
        (fun _ => SyncError.unfinished) pages none l) := by
    refine enduresOr_scan J K (fun _ _ _ _ => trivial) ?_ ?_ (fun _ _ _ _ hK => hK) ?_
    · intro n cursor l u hu
      refine enduresOr_atomic ?_
      rintro _ rfl hI
      refine ⟨hI, ?_⟩
      have hpage : (((v.cs.hostSplit.page (hostsSince v.cs since) cursor).items.map
            fun hosts => (⟨if cursor.isNone then (hostsSince v.cs since).length else 0, hosts⟩ :
              HostBatch)).map HostBatch.hosts) ++
          ((v.cs.hostSplit.page (hostsSince v.cs since) cursor).next.map
            fun c => restAt (some c)).getD [] = restAt cursor := by
        rw [List.map_map]
        exact (congrArg (· ++ _) (List.map_id _)).trans Split.page_append_rest
      show Scrolling py run v since _ l u
      dsimp only
      rw [Scrolling.cs hu, hpage]
      exact hu
    · exact fun n y ys next l u hu => Scrolling.syncHosts hmode hu
    · show Scrolling py run v since ((v.cs.hostSplit.batches _).drop 0) l t
      rw [List.drop_zero]
      exact h
  exact hscan.mono (fun u l' ⟨_, hK⟩ => hK) fun _ _ he => he

/-- What has been fetched is stored. -/
structure Flushed (py : Python) (v t : World) : Prop where
  agents : t.agents = v.agents.bulkReplace (hostsDocs py .full v)
  apps : t.installedApps = v.installedApps

theorem Scrolling.flushRest
    (h : Scrolling py (hostsRun .full v) v since [] l t)
    (hsince : hostsSince v.cs since = hostsFetched .full v) :
    HostsEndure careful w₀ (fun u _ => Flushed py v u) t (flushRest l.buffer) := by
  have hflushed : ∀ u l', Scrolling py (hostsRun .full v) v since [] l' u → l'.buffer = [] →
      Flushed py v u := by
    intro u l' hu hnil
    obtain ⟨done, hstored, hsplit⟩ := hu.stored
    rw [List.append_nil] at hsplit
    rw [hnil, Collection.bulkReplace_nil, hsplit, v.cs.hostSplit.flatten_batches, hsince] at hstored
    exact ⟨hstored, hu.apps⟩
  unfold Sync.flushRest
  by_cases hne : l.buffer ≠ []
  · rw [if_pos hne]
    exact h.flushAgents.mono (fun u _ hu => hflushed u _ hu rfl) fun _ _ _ => trivial
  · rw [if_neg hne]
    exact enduresOr_pure (hflushed t l h (not_not.mp hne))

theorem Flushed.removeHosts (hids : DistinctHosts py v.cs.hosts) (hstamped : AppsStampedBefore w₀)
    (hv : HostsInterrupted careful w₀ v) (hspares : careful → SparesHosts py v)
    (h : Flushed py v t) :
    HostsEndure careful w₀ (fun _ _ => True) t (removeHosts (hostsRun .full v)) := by
  let bulk := v.agents.bulkReplace (hostsDocs py .full v)
  unfold CrowdStrike.removeHosts
  rw [if_pos hv.mode]
  unfold removeStaleHosts
  let removeAgents : Phase Bool := liftM (Process.atomic (SyncOp.write .agents) fun w : World =>
    ({ w with agents := w.agents.deleteMany (staleAgent v.now) },
      w.agents.docs.any (staleAgent v.now)))
  have hfirst : HostsEndure careful w₀ (fun u deleted => u.installedApps = v.installedApps ∧
      deleted = bulk.docs.any (staleAgent v.now)) t removeAgents := by
    refine enduresOr_atomic ?_
    rintro _ rfl hI
    refine ⟨hI.setAgents fun d hd => Or.inl (Collection.mem_deleteMany.mp hd).1, h.apps, ?_⟩
    rw [h.agents]
  refine hfirst.bind ?_
  rintro u deleted ⟨happs, rfl⟩
  by_cases hany : bulk.docs.any (staleAgent v.now) = true
  · rw [if_pos hany]
    refine enduresOr_atomic ?_
    rintro _ rfl hI
    refine ⟨⟨hI.cs, hI.groups, hI.past, hI.now, fun d hd => ?_, fun hcareful => ?_, hI.checkpoint⟩,
      trivial⟩
    · exact hI.apps d (Collection.mem_deleteMany.mp hd).1
    · have hdone : AppsSpared w₀ (hostsDone py .full v v.readings) := by
        refine (appsSpared_hostsDone_iff v.readings hids hstamped hv fun host hhost => ?_).mpr
          ⟨hv.spared hcareful, (hspares hcareful).apps⟩
        exact (hspares hcareful).fetchesAll hv hhost
      have hkept : (hostsDone py .full v v.readings).installedApps =
          v.installedApps.deleteMany (staleApp v.now) := if_pos ⟨hv.mode, hany⟩
      unfold AppsSpared at hdone ⊢
      dsimp only
      rw [happs]
      rw [hkept] at hdone
      exact hdone
  · rw [if_neg hany]
    exact enduresOr_pure trivial

/-- An attempt keeps what holds between the attempts, wherever it is cut off. -/
theorem endures_hostsPhase (hids : DistinctHosts py v.cs.hosts) (hstamped : AppsStampedBefore w₀)
    (hv : HostsInterrupted careful w₀ v) (hspares : careful → SparesHosts py v) :
    HostsEndure careful w₀ (fun _ _ => True) v (agentsPhase py pages .full) := by
  have hclear : ∀ u, HostsEndure careful w₀ (fun _ _ => True) u (clearCheckpoint "cs_agents") := by
    intro u
    refine enduresOr_atomic ?_
    rintro _ rfl hI
    exact ⟨hI.setCheckpoint (fun d hd => nomatch hd), trivial⟩
  refine endures_trigger ?_
  refine EnduresOr.bind (Q := fun _ _ => True) ?_ fun u _ _ => hclear u
  unfold syncAgents
  refine (endures_utcNow fun hI => hI.tick).bind ?_
  rintro t₁ startedAt ⟨h₁, rfl⟩
  refine (endures_read (I := HostsInterrupted careful w₀) (.find .groups) _).bind ?_
  rintro t₂ groupNameMap ⟨rfl, hnames⟩
  refine (endures_read (I := HostsInterrupted careful w₀) .loadMeta fun u =>
    u.syncMeta crowdstrike).bind ?_
  rintro t₃ syncMeta ⟨rfl, hmeta⟩
  refine (endures_checkMode (fun hI => hI.setCheckpoint fun d hd => nomatch hd) _).bind ?_
  rintro t₄ checkpoint ⟨h₄, rfl⟩
  have hrun : (⟨groupNameMap, v.now, resolveMode (startArgs "cs_agents" .full v).mode
      syncMeta.agentsSyncedAt⟩ : AgentsRun) = hostsRun .full v := by
    rw [hnames, hmeta, h₁]
    rfl
  have hmode : resolveMode (startArgs "cs_agents" .full v).mode syncMeta.agentsSyncedAt =
      (hostsRun .full v).mode := by
    rw [← hrun]
  have hlastSync : syncMeta.agentsSyncedAt = (v.syncMeta crowdstrike).agentsSyncedAt := by
    rw [hmeta, h₁]
  have hstart : t₄.agents = v.agents ∧ t₄.installedApps = v.installedApps ∧ t₄.cs = v.cs ∧
      v.now < t₄.now := by
    have hlt : v.now < World.now { v with readings := v.readings + 1 } :=
      v.clock.ticks (Nat.lt_succ_self _)
    rcases h₄ with rfl | rfl
    · rw [h₁]
      exact ⟨rfl, rfl, rfl, hlt⟩
    · rw [h₁]
      exact ⟨rfl, rfl, rfl, hlt⟩
  dsimp only
  rw [hrun, hmode, hlastSync]
  have hscrolling : ∀ since synced total,
      Scrolling py (hostsRun .full v) v since (v.cs.hostSplit.batches (hostsSince v.cs since))
        ⟨[], synced, total⟩ t₄ := fun since synced total =>
    ⟨⟨[], hstart.1, rfl⟩, hstart.2.1, hstart.2.2.1, hstart.2.2.2,
      List.forall_mem_nil _⟩
  refine ((hscrolling _ _ _).scan hv.mode).bind fun t₅ l h₅ => ?_
  unfold finishHosts
  refine (h₅.flushRest rfl).bind fun t₆ _ h₆ => ?_
  refine (h₆.removeHosts hids hstamped hv hspares).bind fun t₇ _ _ => enduresOr_atomic ?_
  rintro _ rfl hI
  exact ⟨⟨hI.cs, hI.groups, hI.past, hI.now, hI.apps, hI.spared, hI.checkpoint⟩, trivial⟩

/-- The same for attempts that are cut off one after the other. -/
theorem HostsInterrupted.cuts (hids : DistinctHosts py w₀.cs.hosts)
    (hstamped : AppsStampedBefore w₀) (hv : HostsInterrupted careful w₀ v) {cuts : List Nat}
    (hspares : careful → StartsMeet (agentsPhase py pages .full) (SparesHosts py) cuts v) :
    HostsInterrupted careful w₀ (interrupted (agentsPhase py pages .full) cuts v) := by
  induction cuts generalizing v with
  | nil => exact hv
  | cons n cuts ih =>
    refine ih (Endures.cut (endures_hostsPhase ?_ hstamped hv fun h => (hspares h).1) hv n)
      fun h => (hspares h).2
    rw [hv.cs]
    exact hids

end Cut

/-- A full sync that was cut off mirrors the listing and spares the applications of
its hosts if and only if no attempt that was cut off has deleted one of them, and the
last attempt fetches all hosts and either removes no agent or finds no application of
a host.  An attempt that is cut off deletes none where it starts under the same
condition. -/
theorem full_hosts_sync_mirrors_iff (py : Python) (pages : Nat) (w₀ : World)
    (hpages : w₀.cs.hosts.length < pages) (hids : DistinctHosts py w₀.cs.hosts)
    (hpast : StampedBefore w₀) (hstamped : AppsStampedBefore w₀)
    (hstart : w₀.checkpoints "cs_agents" = none) (cuts : List Nat) :
    ((∃ t, Returns (agentsPhase py pages .full)
        (interrupted (agentsPhase py pages .full) cuts w₀) () t ∧
      MirrorsHosts py w₀.cs.hosts (hostsRun .full w₀).groupNameMap t ∧ AppsSpared w₀ t) ↔
      AppsSpared w₀ (interrupted (agentsPhase py pages .full) cuts w₀) ∧
        SparesHosts py (interrupted (agentsPhase py pages .full) cuts w₀)) ∧
    (StartsMeet (agentsPhase py pages .full) (SparesHosts py) cuts w₀ →
      AppsSpared w₀ (interrupted (agentsPhase py pages .full) cuts w₀)) := by
  have hfirst : ∀ careful, HostsInterrupted careful w₀ w₀ := fun careful =>
    ⟨rfl, rfl, hpast, le_refl _, fun d hd => hd, fun _ d hd _ => hd, fun c hc => by
      rw [hstart] at hc
      cases hc⟩
  constructor
  · have hcuts : HostsInterrupted False w₀ (interrupted (agentsPhase py pages .full) cuts w₀) :=
      (hfirst False).cuts hids hstamped False.elim
    generalize interrupted (agentsPhase py pages .full) cuts w₀ = w at hcuts
    have hlisted : w₀.cs.hosts = w.cs.hosts := by rw [hcuts.cs]
    have hnames : (hostsRun .full w₀).groupNameMap = (hostsRun .full w).groupNameMap := by
      unfold hostsRun
      rw [hcuts.groups]
    rw [hlisted] at hpages hids ⊢
    rw [hnames]
    obtain ⟨readings, -, hreturns⟩ := returns_agentsPhase py .full hpages
    have hmirrors := mirrorsHosts_hostsDone_iff readings hids hcuts
    have hspared := appsSpared_hostsDone_iff readings hids hstamped hcuts
    constructor
    · rintro ⟨t, ht, hmirror, happs⟩
      rw [(ht.unique hreturns).2] at hmirror happs
      have hall := hmirrors.mp hmirror
      obtain ⟨hbefore, hlast⟩ := (hspared hall).mp happs
      refine ⟨hbefore, fun c s hc hs host hhost => ?_, hlast⟩
      exact (hcuts.mem_fetched.mp (hall host hhost)).2 c s hc hs
    · rintro ⟨hbefore, hlast⟩
      have hall : ∀ host ∈ w.cs.hosts, host ∈ hostsFetched .full w :=
        fun host hhost => hlast.fetchesAll hcuts hhost
      exact ⟨_, hreturns, hmirrors.mpr hall, (hspared hall).mpr ⟨hbefore, hlast.apps⟩⟩
  · intro hmeet
    exact ((hfirst True).cuts hids hstamped fun _ => hmeet).spared trivial

def retiredAgent : AgentDoc :=
  { id := canonicalId plainPython crowdstrike "agent:b1", source := some crowdstrike
    sourceId := "b1", hostname := "retired" }

def appOf (agentId : String) : AppDoc :=
  { id := canonicalId plainPython crowdstrike "app:x1", source := some crowdstrike
    sourceId := "x1", agentId := agentId, name := "chrome", normalizedName := "chrome" }

/-- One host is listed, another one is still stored, and one of them has an
application. -/
def office (agentId : String) : World :=
  { World.fresh .empty { CsSource.empty with hosts := [{ deviceId := "a1" }] } with
    agents := Collection.empty.replaceOne retiredAgent
    installedApps := Collection.empty.replaceOne (appOf agentId) }

theorem stampedBefore_office (agentId : String) : StampedBefore (office agentId) := by
  intro d hd s hs
  have hretired : d = retiredAgent := by
    simpa using (show d ∈ Collection.empty.replaceOne retiredAgent from hd)
  rw [hretired] at hs
  cases hs

theorem mem_office_apps {agentId : String} {d : AppDoc} :
    d ∈ (office agentId).installedApps ↔ d = appOf agentId := by
  show d ∈ Collection.empty.replaceOne (appOf agentId) ↔ _
  simp

theorem appsStampedBefore_office (agentId : String) : AppsStampedBefore (office agentId) := by
  intro d hd s hs
  rw [mem_office_apps.mp hd] at hs
  cases hs

/-- Where the application is that of the retired host, a sync that is cut off before
it stores a host and runs once more mirrors the listing. -/
theorem office_mirrors : ∃ t, Returns (agentsPhase plainPython 2 .full)
      (interrupted (agentsPhase plainPython 2 .full) [5] (office "b1")) () t ∧
    MirrorsHosts plainPython (office "b1").cs.hosts (hostsRun .full (office "b1")).groupNameMap t ∧
    AppsSpared (office "b1") t := by
  let cutOff := interrupted (agentsPhase plainPython 2 .full) [5] (office "b1")
  have hboth := full_hosts_sync_mirrors_iff plainPython 2 (office "b1") (by decide)
    (List.nodup_singleton _) (stampedBefore_office "b1") (appsStampedBefore_office "b1") rfl [5]
  have hspares : ∀ w : World, w.cs.hosts.map CsHost.deviceId = ["a1"] →
      w.checkpoints "cs_agents" = none → w.installedApps.docs = [appOf "b1"] →
      SparesHosts plainPython w := by
    intro w hhosts hnone happs
    refine ⟨fun c s hc => ?_, Or.inr fun d hd _ host hhost hagent => ?_⟩
    · rw [hnone] at hc
      cases hc
    · have hid : host.deviceId ∈ ["a1"] := hhosts ▸ List.mem_map_of_mem hhost
      rw [Collection.mem_def, happs, List.mem_singleton] at hd
      have hother : "b1" = host.deviceId := by
        rw [← hagent, hd]
        rfl
      rw [← hother] at hid
      exact absurd hid (by decide)
  have hcutOff : SparesHosts plainPython cutOff :=
    hspares cutOff (by decide +kernel) (by decide +kernel) (by decide +kernel)
  have hbefore : AppsSpared (office "b1") cutOff :=
    hboth.2 ⟨hspares (office "b1") rfl rfl rfl, trivial⟩
  exact hboth.1.mpr ⟨hbefore, hcutOff⟩

/-- Where it is that of the listed host, the sync deletes it. -/
theorem office_loses_app : ¬∃ t, Returns (agentsPhase plainPython 2 .full)
      (interrupted (agentsPhase plainPython 2 .full) [] (office "a1")) () t ∧
    MirrorsHosts plainPython (office "a1").cs.hosts (hostsRun .full (office "a1")).groupNameMap t ∧
    AppsSpared (office "a1") t := by
  rintro ⟨t, ht, -, happs⟩
  have hpages : (office "a1").cs.hosts.length < 2 := by decide
  obtain ⟨readings, -, hreturns⟩ := returns_agentsPhase plainPython .full hpages
  rw [(ht.unique hreturns).2] at happs
  have happ := happs (appOf "a1") (mem_office_apps.mpr rfl) ⟨_, List.mem_cons_self, rfl⟩
  have hdeleted : (keptApps (hostsRun .full (office "a1"))
      ((office "a1").agents.bulkReplace (hostsDocs plainPython .full (office "a1")))
      (office "a1").installedApps).docs = [] := by
    decide +kernel
  have hkept : appOf "a1" ∈ (keptApps (hostsRun .full (office "a1"))
      ((office "a1").agents.bulkReplace (hostsDocs plainPython .full (office "a1")))
      (office "a1").installedApps).docs := happ
  rw [hdeleted] at hkept
  exact List.not_mem_nil hkept

end Sentora.CrowdStrike
