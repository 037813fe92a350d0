import Sentora.Sync.Agents

/-!
# Full syncs of the agents

Whether the agents of SentinelOne are those of the listing after a full sync that
was cut off any number of times.

A checkpoint is saved after every hundredth agent and the buffer is written after
every five hundredth, and the agents that were written before a checkpoint do not
carry the stamp of the run that is resumed from it.
-/

namespace Sentora.Sync

open Lib Process

def AgentDoc.unstamped (d : AgentDoc) : AgentDoc := { d with syncedAt := none }

/-- The agents of SentinelOne are the normalised agents of the listing, one for
each, up to the stamps. -/
def MirrorsAgents (py : Python) (listing : List S1Agent) (groupNameMap : String → Option String)
    (w : World) : Prop :=
  ((w.agents.docs.filter fun d => d.source == some sentinelone).map AgentDoc.unstamped).Perm
    (listing.map fun raw => normalizeAgent py raw groupNameMap)

def DistinctIds (py : Python) (listing : List S1Agent) : Prop :=
  ∀ x ∈ listing, ∀ y ∈ listing, canonicalId py sentinelone ("agent:" ++ toString x.id) =
    canonicalId py sentinelone ("agent:" ++ toString y.id) → x = y

def StampedBefore (w : World) : Prop := ∀ d ∈ w.agents, ∀ t, d.syncedAt = some t → t < w.now

section Mirror

variable {py : Python} {listing : List S1Agent} {run : AgentsRun}

theorem nodup_agentDocs_ids (hids : DistinctIds py listing)
    (hsorted : listing.Pairwise fun x y => x.id < y.id) :
    ((listing.map (agentDoc py run)).map AgentDoc.id).Nodup := by
  rw [List.map_map]
  have hnodup : listing.Nodup := hsorted.imp fun h heq => absurd h (by rw [heq]; exact lt_irrefl _)
  exact hnodup.map_on fun x hx y hy heq => hids x hx y hy heq

theorem mem_fresh {c : Collection AgentDoc.id} {docs : List AgentDoc} {t : Nat}
    (hdocs : (docs.map AgentDoc.id).Nodup) (hstamped : ∀ d ∈ docs, d.syncedAt = some t)
    (hfresh : ∀ d ∈ c, d.syncedAt ≠ some t) (d : AgentDoc) :
    d ∈ (c.bulkReplace docs).deleteMany (fun d => d.syncedAt != some t) ↔ d ∈ docs := by
  rw [Collection.mem_deleteMany, Collection.mem_bulkReplace hdocs, bne_eq_false_iff_eq]
  constructor
  · rintro ⟨hin | hold, hstamp⟩
    · exact hin
    · exact absurd hstamp (hfresh d hold.1)
  · exact fun h => ⟨Or.inl h, hstamped d h⟩

theorem mirrorsAgents_of_mem {w : World} (hnodup : ((listing.map (agentDoc py run)).map
    AgentDoc.id).Nodup) (h : ∀ d, d ∈ w.agents ↔ d ∈ listing.map (agentDoc py run)) :
    MirrorsAgents py listing run.groupNameMap w := by
  have hall : w.agents.docs.filter (fun d => d.source == some sentinelone) = w.agents.docs := by
    rw [List.filter_eq_self]
    intro d hd
    obtain ⟨raw, -, rfl⟩ := List.mem_map.mp ((h d).mp hd)
    rfl
  have hperm : w.agents.docs.Perm (listing.map (agentDoc py run)) :=
    (List.perm_ext_iff_of_nodup (List.Nodup.of_map _ w.agents.distinct)
      (List.Nodup.of_map _ hnodup)).mpr h
  unfold MirrorsAgents
  rw [hall]
  refine (hperm.map _).trans (List.Perm.of_eq ?_)
  rw [List.map_map]
  rfl

end Mirror

section Run

variable {py : Python} {pages : Nat} {w : World}

theorem agentsRun_full (hmode : (startArgs "agents" .full w).mode = .full) :
    (agentsRun .full w).mode = .full := by
  unfold agentsRun
  rw [hmode]
  rfl

theorem agentsDone_full (hmode : (startArgs "agents" .full w).mode = .full)
    (hids : DistinctIds py w.s1.agents) (hpast : StampedBefore w) (d : AgentDoc) :
    d ∈ (agentsDone py .full w).agents ↔ d ∈ agentsDocs py .full w := by
  have hfull := agentsRun_full hmode
  have hfetched : (agentsFetched .full w).Sublist w.s1.agents :=
    (after_sublist _).trans List.filter_sublist
  have hsorted : (agentsFetched .full w).Pairwise fun x y => x.id < y.id :=
    w.s1.agents_sorted.sublist hfetched
  have hdistinct : DistinctIds py (agentsFetched .full w) :=
    fun x hx y hy => hids x (hfetched.subset hx) y (hfetched.subset hy)
  have hstale : ∀ ids, (agentsRun .full w).removes ids = fun d => d.syncedAt != some w.now := by
    intro ids
    funext e
    unfold AgentsRun.removes
    rw [if_pos hfull]
    rfl
  show d ∈ Collection.deleteMany _ _ ↔ _
  rw [hstale]
  refine mem_fresh (nodup_agentDocs_ids hdistinct hsorted) (fun e he => ?_) (fun e he heq => ?_) d
  · obtain ⟨raw, -, rfl⟩ := List.mem_map.mp he
    rfl
  · exact absurd (hpast e he w.now heq) (lt_irrefl _)

theorem agentsFetched_fresh (hfresh : w.checkpoints "agents" = none) :
    agentsFetched .full w = w.s1.agents := by
  have hargs : startArgs "agents" .full w = { mode := .full } := by
    unfold startArgs
    rw [hfresh]
  have hmode : (agentsRun .full w).mode = .full := agentsRun_full (by rw [hargs])
  unfold agentsFetched agentsCheckpoint agentsSince
  rw [if_pos hmode, hargs]
  show w.s1.agentsSince none = w.s1.agents
  unfold S1Source.agentsSince
  rw [List.filter_eq_self]
  exact fun _ _ => rfl

theorem mirrorsAgents_fresh (hfresh : w.checkpoints "agents" = none)
    (hids : DistinctIds py w.s1.agents) (hpast : StampedBefore w) :
    MirrorsAgents py w.s1.agents (nameMap GroupDoc.sourceId GroupDoc.name w.groups.docs)
      (agentsDone py .full w) := by
  have hargs : (startArgs "agents" .full w).mode = .full := by
    unfold startArgs
    rw [hfresh]
  have hmem := agentsDone_full hargs hids hpast
  unfold agentsDocs at hmem
  rw [agentsFetched_fresh hfresh] at hmem
  exact mirrorsAgents_of_mem
    (nodup_agentDocs_ids hids w.s1.agents_sorted) hmem

/-- A checkpoint of a full sync that stopped at an agent of the listing. -/
structure CheckpointOf (listing : List S1Agent) (c : Checkpoint) : Prop where
  status : c.status = none
  mode : c.mode = some .full
  agent : ∃ raw ∈ listing, c.lastId = some raw.id

theorem not_mirrorsAgents_resumed {c : Checkpoint} (hc : w.checkpoints "agents" = some c)
    (hcheckpoint : CheckpointOf w.s1.agents c) (hids : DistinctIds py w.s1.agents)
    (hpast : StampedBefore w) (groupNameMap : String → Option String) :
    ¬MirrorsAgents py w.s1.agents groupNameMap (agentsDone py .full w) := by
  obtain ⟨raw, hraw, hlast⟩ := hcheckpoint.agent
  have hargs : startArgs "agents" .full w = ⟨.full, true, some c⟩ := by
    unfold startArgs
    rw [hc]
    dsimp only
    rw [hcheckpoint.status, if_neg (by simp), hcheckpoint.mode]
    rfl
  have hmode : (agentsRun .full w).mode = .full := agentsRun_full (by rw [hargs])
  have hcursor : (agentsCheckpoint .full w).bind Checkpoint.lastId = some raw.id := by
    unfold agentsCheckpoint
    rw [hargs, hmode, RunArgs.usable_eq_some rfl hcheckpoint.mode]
    exact hlast
  intro hmirrors
  have hnormal : normalizeAgent py raw groupNameMap ∈
      w.s1.agents.map fun raw => normalizeAgent py raw groupNameMap :=
    List.mem_map_of_mem hraw
  rw [← hmirrors.mem_iff] at hnormal
  obtain ⟨d, hd, hdoc⟩ := List.mem_map.mp hnormal
  have hmem : d ∈ (agentsDone py .full w).agents := (List.mem_filter.mp hd).1
  rw [agentsDone_full (by rw [hargs]) hids hpast] at hmem
  obtain ⟨other, hother, rfl⟩ := List.mem_map.mp hmem
  -- The agent was fetched after the cursor, and it has the identity of the lost one.
  unfold agentsFetched at hother
  rw [hcursor] at hother
  obtain ⟨hlisted, hafter⟩ := List.mem_filter.mp hother
  rw [decide_eq_true_eq] at hafter
  have hsame : other = raw :=
    hids other (List.mem_filter.mp hlisted).1 raw hraw (congrArg AgentDoc.id hdoc)
  rw [hsame] at hafter
  exact lt_irrefl _ hafter

end Run

/-- What holds between the runs of a full sync. -/
structure Interrupted (w₀ w : World) : Prop where
  s1 : w.s1 = w₀.s1
  groups : w.groups = w₀.groups
  past : StampedBefore w
  checkpoint : ∀ c, w.checkpoints "agents" = some c → CheckpointOf w₀.s1.agents c

section Cut

variable {py : Python} {pages : Nat} {w₀ w : World}
variable {startedAt : Nat} {run : AgentsRun} {l : AgentsLoop}

theorem Interrupted.tick (h : Interrupted w₀ w) :
    Interrupted w₀ { w with readings := w.readings + 1 } := by
  refine ⟨h.s1, h.groups, fun d hd t ht => ?_, h.checkpoint⟩
  exact lt_trans (h.past d hd t ht) (w.clock.ticks (Nat.lt_succ_self _))

theorem Interrupted.setCheckpoint (h : Interrupted w₀ w) {c : Option Checkpoint}
    (hc : ∀ d, c = some d → CheckpointOf w₀.s1.agents d) :
    Interrupted w₀ (w.setCheckpoint "agents" c) := by
  refine ⟨h.s1, h.groups, h.past, fun d hd => hc d ?_⟩
  unfold World.setCheckpoint at hd
  dsimp only at hd
  rw [Function.update_self] at hd
  exact hd

theorem Interrupted.setAgents (h : Interrupted w₀ w) {agents : Collection AgentDoc.id}
    (hagents : ∀ d ∈ agents, d ∈ w.agents ∨ ∃ t, d.syncedAt = some t ∧ t < w.now) :
    Interrupted w₀ { w with agents := agents } := by
  refine ⟨h.s1, h.groups, fun d hd t ht => ?_, h.checkpoint⟩
  rcases hagents d hd with hold | ⟨t', ht', hlt⟩
  · exact h.past d hold t ht
  · rw [ht', Option.some.injEq] at ht
    rw [← ht]
    exact hlt

def Stamped (startedAt : Nat) (buffer : List AgentDoc) (w : World) : Prop :=
  startedAt < w.now ∧ ∀ d ∈ buffer, d.syncedAt = some startedAt

abbrev AgentsEndure {α : Type} (w₀ : World) (Q : World → α → Prop) (w : World) (p : Phase α) :
    Prop :=
  EnduresOr Eq (Interrupted w₀) Q (fun _ _ => True) w p

theorem endures_flushAgents {docs : List AgentDoc}
    (h : Stamped startedAt docs w) :
    AgentsEndure w₀ (fun v _ => startedAt < v.now) w (flushAgents docs) := by
  refine enduresOr_atomic ?_
  rintro _ rfl hI
  refine ⟨hI.setAgents fun d hd => ?_, h.1⟩
  rcases Collection.mem_or_mem_of_bulkReplace hd with hnew | hold
  · exact Or.inr ⟨startedAt, h.2 d hnew, h.1⟩
  · exact Or.inl hold

theorem endures_flushWhenFull {filled : List AgentDoc}
    (h : Stamped startedAt filled w) :
    AgentsEndure w₀ (fun v buffer => Stamped startedAt buffer v) w (flushWhenFull filled) := by
  unfold flushWhenFull
  by_cases hfull : 500 ≤ filled.length
  · rw [if_pos hfull]
    exact (endures_flushAgents h).bind fun v _ hv =>
      enduresOr_pure ⟨hv, List.forall_mem_nil _⟩
  · rw [if_neg hfull]
    exact enduresOr_pure h

theorem endures_saveEachHundredth {buffer : List AgentDoc} {c : Checkpoint}
    (hc : CheckpointOf w₀.s1.agents c) (h : Stamped startedAt buffer w) :
    AgentsEndure w₀ (fun v _ => Stamped startedAt buffer v) w (saveEachHundredth c) := by
  unfold saveEachHundredth
  by_cases hhundred : c.synced % 100 = 0
  · rw [if_pos hhundred]
    refine enduresOr_atomic ?_
    rintro _ rfl hI
    refine ⟨hI.setCheckpoint fun d hd => ?_, h⟩
    rw [← Option.some.inj hd]
    exact hc
  · rw [if_neg hhundred]
    exact enduresOr_pure h

theorem endures_syncAgent (py : Python) {raw : S1Item S1Agent}
    (hmode : run.mode = .full) (hraw : raw.item ∈ w₀.s1.agents)
    (h : Stamped run.startedAt l.buffer w) :
    AgentsEndure w₀ (fun v l' => Stamped run.startedAt l'.buffer v) w (syncAgent py run l raw) := by
  have hfilled : Stamped run.startedAt (l.buffer ++ [agentDoc py run raw.item]) w := by
    refine ⟨h.1, fun d hd => ?_⟩
    rcases List.mem_append.mp hd with hold | hnew
    · exact h.2 d hold
    · rw [List.mem_singleton.mp hnew]
      rfl
  have hcheckpoint : CheckpointOf w₀.s1.agents (agentCheckpoint run l raw) :=
    ⟨rfl, congrArg some hmode, raw.item, hraw, rfl⟩
  refine (endures_flushWhenFull hfilled).bind fun v buffer hv => ?_
  exact (endures_saveEachHundredth hcheckpoint hv).bind fun v' _ hv' => enduresOr_pure hv'

theorem endures_scan_agents {since cursor : Option Nat} {pageSize : Nat} (hmode : run.mode = .full)
    (h : Stamped run.startedAt l.buffer w) :
    AgentsEndure w₀ (fun v l' => Stamped run.startedAt l'.buffer v) w
      (scan (fun _ cursor => getAgents since pageSize cursor) (syncAgent py run)
        (fun _ => SyncError.unfinished) pages cursor l) := by
  let K : Nat → List (S1Item S1Agent) → Option Nat → AgentsLoop → World → Prop := fun _ ys _ l v =>
    Stamped run.startedAt l.buffer v ∧ ∀ y ∈ ys, y.item ∈ w₀.s1.agents
  have hscan : AgentsEndure w₀ (fun v l' => ∃ n, K n [] none l' v) w
      (scan (fun _ cursor => getAgents since pageSize cursor) (syncAgent py run)
        (fun _ => SyncError.unfinished) pages cursor l) := by
    refine enduresOr_scan (fun _ _ l v => Stamped run.startedAt l.buffer v) K
      (fun _ _ _ _ => trivial) (fun n cursor l v hv => ?_) (fun n y ys next l v hv => ?_)
      (fun _ _ _ _ hK => hK.1) h
    · refine enduresOr_atomic ?_
      rintro _ rfl hI
      refine ⟨hI, hv, fun y hy => ?_⟩
      have hlisted := List.mem_filter.mp ((after_sublist _).subset (mem_s1Page hy))
      rw [← hI.s1]
      exact hlisted.1
    · have hitem := endures_syncAgent py hmode (hv.2 y List.mem_cons_self) hv.1
      exact hitem.mono (fun v' l' hv' => ⟨hv', fun z hz => hv.2 z (List.mem_cons_of_mem y hz)⟩)
        fun _ _ he => he
  exact hscan.mono (fun v l' ⟨_, hv⟩ => hv.1) fun _ _ he => he

theorem endures_finishAgents {lastSyncAt : Option Nat}
    (hmode : run.mode = .full) (h : Stamped run.startedAt l.buffer w) :
    AgentsEndure w₀ (fun _ _ => True) w (finishAgents pages run lastSyncAt l) := by
  have hflush : AgentsEndure w₀ (fun _ _ => True) w (flushRest l.buffer) := by
    unfold flushRest
    by_cases hdocs : l.buffer ≠ []
    · rw [if_pos hdocs]
      exact (endures_flushAgents h).mono (fun _ _ _ => trivial) fun _ _ he => he
    · rw [if_neg hdocs]
      exact enduresOr_pure trivial
  have hremove : ∀ v, AgentsEndure w₀ (fun _ _ => True) v (removeAgents pages run lastSyncAt) := by
    intro v
    unfold removeAgents
    rw [if_pos hmode]
    refine enduresOr_atomic ?_
    rintro _ rfl hI
    exact ⟨hI.setAgents fun d hd => Or.inl (Collection.mem_deleteMany.mp hd).1, trivial⟩
  refine hflush.bind fun v _ _ => (hremove v).bind fun v' _ _ => enduresOr_atomic ?_
  rintro _ rfl hI
  exact ⟨⟨hI.s1, hI.groups, hI.past, hI.checkpoint⟩, trivial⟩

theorem endures_syncAgents {args : RunArgs} (hmode : args.mode = .full) :
    AgentsEndure w₀ (fun _ _ => True) w (syncAgents py pages args) := by
  have hmode' : ∀ lastSyncAt, resolveMode args.mode lastSyncAt = .full := by
    intro lastSyncAt
    rw [hmode]
    rfl
  -- The clock is read, and what is read after it changes nothing.
  have hclock : AgentsEndure w₀ (fun v startedAt => startedAt < v.now) w utcNow := by
    refine enduresOr_atomic ?_
    rintro _ rfl hI
    exact ⟨hI.tick, w.clock.ticks (Nat.lt_succ_self _)⟩
  have hread : ∀ {α : Type} (startedAt : Nat) (v : World) (op : SyncOp) (f : World → α),
      startedAt < v.now → AgentsEndure w₀ (fun v' _ => startedAt < v'.now) v
        (liftM (Process.read op f)) := by
    intro α startedAt v op f hv
    refine enduresOr_atomic ?_
    rintro _ rfl hI
    exact ⟨hI, hv⟩
  have hcheck : ∀ (startedAt : Nat) (v : World) (mode : Mode), startedAt < v.now →
      AgentsEndure w₀ (fun v' _ => startedAt < v'.now) v (checkMode "agents" mode args) := by
    intro startedAt v mode hv
    unfold checkMode
    cases args.checkpoint with
    | none => exact enduresOr_pure hv
    | some c =>
      dsimp only
      by_cases hother : args.mismatch mode c = true
      · rw [if_pos hother]
        have hclear : AgentsEndure w₀ (fun v' _ => startedAt < v'.now) v
            (clearCheckpoint "agents") := by
          refine enduresOr_atomic ?_
          rintro _ rfl hI
          exact ⟨hI.setCheckpoint (fun d hd => nomatch hd), hv⟩
        exact hclear.bind fun v' _ hv' => enduresOr_pure hv'
      · rw [if_neg hother]
        exact enduresOr_pure hv
  unfold syncAgents
  refine hclock.bind fun v₁ startedAt h₁ => ?_
  refine (hread startedAt v₁ _ _ h₁).bind fun v₂ pageSize h₂ => ?_
  refine (hread startedAt v₂ _ _ h₂).bind fun v₃ groupNameMap h₃ => ?_
  refine (hread startedAt v₃ _ _ h₃).bind fun v₄ syncMeta h₄ => ?_
  refine (hcheck startedAt v₄ _ h₄).bind fun v₅ checkpoint h₅ => ?_
  refine (endures_scan_agents (hmode' _) ⟨h₅, List.forall_mem_nil _⟩).bind ?_
  exact fun v₆ l h₆ => endures_finishAgents (hmode' _) h₆

/-- A run in mode full keeps what holds between the runs, wherever it is cut off. -/
theorem endures_agentsPhase :
    AgentsEndure w₀ (fun _ _ => True) w (agentsPhase py pages .full) := by
  have hclear : ∀ v, AgentsEndure w₀ (fun _ _ => True) v (clearCheckpoint "agents") := by
    intro v
    refine enduresOr_atomic ?_
    rintro _ rfl hI
    exact ⟨hI.setCheckpoint (fun d hd => nomatch hd), trivial⟩
  have hrun : ∀ v args, args.mode = .full →
      AgentsEndure w₀ (fun _ _ => True) v (safeRun "agents" (syncAgents py pages) args) :=
    fun v args hmode => (endures_syncAgents hmode).bind fun v' _ _ => hclear v'
  have hload : ∀ v, AgentsEndure w₀
      (fun _ checkpoint => ∀ c, checkpoint = some c → CheckpointOf w₀.s1.agents c) v
      (loadCheckpoint "agents") := by
    intro v
    refine enduresOr_atomic ?_
    rintro _ rfl hI
    exact ⟨hI, hI.checkpoint⟩
  have hresume : ∀ v, AgentsEndure w₀ (fun _ _ => True) v
      (resume "agents" (syncAgents py pages)) := by
    intro v
    refine (hload v).bind fun v' checkpoint hc => ?_
    cases checkpoint with
    | none => exact enduresOr_pure trivial
    | some c =>
      have hof := hc c rfl
      dsimp only
      rw [hof.status, if_neg (by simp)]
      refine hrun v' _ ?_
      rw [hof.mode]
      rfl
  refine (hload w).bind fun v checkpoint hc => ?_
  cases checkpoint with
  | none => exact hrun v _ rfl
  | some c =>
    have hof := hc c rfl
    dsimp only
    rw [hof.status, if_neg (by simp)]
    exact hresume v

theorem Interrupted.cut (h : Interrupted w₀ w) (n : Nat) :
    Interrupted w₀ (Process.cut n (agentsPhase py pages .full).run w) :=
  Endures.cut endures_agentsPhase h n

theorem Interrupted.cuts (h : Interrupted w₀ w) (cuts : List Nat) :
    Interrupted w₀ (interrupted (agentsPhase py pages .full) cuts w) := by
  induction cuts generalizing w with
  | nil => exact h
  | cons n cuts ih => exact ih (h.cut n)

end Cut

/-- A full sync that was cut off mirrors the listing if and only if no attempt that
was cut off has left a checkpoint. -/
theorem full_sync_mirrors_iff (py : Python) (pages : Nat) (w₀ : World)
    (hpages : EnoughPages pages w₀) (hids : DistinctIds py w₀.s1.agents)
    (hpast : StampedBefore w₀) (hstart : w₀.checkpoints "agents" = none) (cuts : List Nat) :
    (∃ w, Returns (agentsPhase py pages .full)
        (interrupted (agentsPhase py pages .full) cuts w₀) () w ∧
      MirrorsAgents py w₀.s1.agents (nameMap GroupDoc.sourceId GroupDoc.name w₀.groups.docs) w) ↔
      (interrupted (agentsPhase py pages .full) cuts w₀).checkpoints "agents" = none := by
  have hcuts : Interrupted w₀ (interrupted (agentsPhase py pages .full) cuts w₀) := by
    refine Interrupted.cuts ⟨rfl, rfl, hpast, fun c hc => ?_⟩ cuts
    rw [hstart] at hc
    cases hc
  generalize interrupted (agentsPhase py pages .full) cuts w₀ = w at hcuts
  unfold EnoughPages at hpages
  rw [← hcuts.s1] at hpages hids ⊢
  rw [← hcuts.groups]
  have hreturns := returns_agentsPhase py .full hpages
  constructor
  · rintro ⟨w', hw', hmirrors⟩
    rw [(hw'.unique hreturns).2] at hmirrors
    cases hc : w.checkpoints "agents" with
    | none => rfl
    | some c =>
      have hof := hcuts.checkpoint c hc
      rw [← hcuts.s1] at hof
      exact absurd hmirrors (not_mirrorsAgents_resumed hc hof hids hcuts.past _)
  · intro hfresh
    exact ⟨_, hreturns, mirrorsAgents_fresh hfresh hids hcuts.past⟩

def hundredAgents : S1Source :=
  { S1Source.empty with
    agents := (List.range 100).map fun n => { id := n }
    agents_sorted := List.pairwise_map.mpr List.pairwise_lt_range }

def hundredWorld : World := World.fresh hundredAgents .empty

theorem distinctIds_hundredAgents : DistinctIds plainPython hundredAgents.agents := by
  intro x hx y hy heq
  have hid : toString x.id = toString y.id := by
    have hchars := congrArg String.toList heq
    simp only [canonicalId, plainPython, String.toList_append, List.append_cancel_left_eq] at hchars
    exact String.toList_injective hchars
  obtain ⟨m, -, rfl⟩ := List.mem_map.mp hx
  obtain ⟨n, -, rfl⟩ := List.mem_map.mp hy
  rw [show m = n from toString_nat_injective hid]

theorem stampedBefore_hundredWorld : StampedBefore hundredWorld :=
  fun _ hd => absurd hd Collection.not_mem_empty

/-- Cut off before the first page, the sync is complete at the second attempt. -/
theorem hundredWorld_mirrors :
    ∃ w, Returns (agentsPhase plainPython 101 .full)
        (interrupted (agentsPhase plainPython 101 .full) [5] hundredWorld) () w ∧
      MirrorsAgents plainPython hundredAgents.agents
        (nameMap GroupDoc.sourceId GroupDoc.name hundredWorld.groups.docs) w := by
  refine (full_sync_mirrors_iff plainPython 101 hundredWorld ⟨?_, ?_⟩ distinctIds_hundredAgents
    stampedBefore_hundredWorld rfl [5]).mpr ?_
  · decide +kernel
  · decide
  · decide +kernel

/-- Cut off after the hundredth agent, when its checkpoint is saved and the buffer
is not, the sync goes on with nothing and completes. -/
theorem hundredWorld_loses :
    ¬∃ w, Returns (agentsPhase plainPython 101 .full)
        (interrupted (agentsPhase plainPython 101 .full) [7] hundredWorld) () w ∧
      MirrorsAgents plainPython hundredAgents.agents
        (nameMap GroupDoc.sourceId GroupDoc.name hundredWorld.groups.docs) w := by
  let w := interrupted (agentsPhase plainPython 101 .full) [7] hundredWorld
  have hleft : Interrupted hundredWorld w :=
    Interrupted.cuts ⟨rfl, rfl, stampedBefore_hundredWorld, fun c hc => nomatch hc⟩ [7]
  have hsaved : w.checkpoints "agents" =
      some { lastId := some 99, synced := 100, total := 100, mode := some .full } := by
    decide +kernel
  have hids := distinctIds_hundredAgents
  rintro ⟨w', hw', hmirrors⟩
  have hpages : EnoughPages 101 w := by
    unfold EnoughPages
    rw [hleft.s1]
    exact ⟨by decide +kernel, by decide⟩
  rw [(hw'.unique (returns_agentsPhase _ _ hpages)).2] at hmirrors
  have hof := hleft.checkpoint _ hsaved
  have hs1 : hundredAgents = w.s1 := hleft.s1.symm
  rw [hs1] at hmirrors hids
  rw [← hleft.s1] at hof
  exact not_mirrorsAgents_resumed hsaved hof hids hleft.past _ hmirrors

end Sentora.Sync
