import Sentora.Sync.FullAgents

/-!
# The watermark of the agents

What an incremental sync of the agents may miss while the agents change at the
source, where its attempts are cut off and resumed.

The watermark is the time at which the last attempt started.  What was updated later
is fetched by the next run, so that everything older has to be in the collection.
-/

namespace Sentora.Sync

open Lib Process

/-- The document of an agent, whatever its stamp and the names it has been given. -/
def Reflects (py : Python) (raw : S1Agent) (d : AgentDoc) : Prop :=
  ∃ groupNameMap names stamp, d =
    { normalizeAgent py raw groupNameMap with installedAppNames := names, syncedAt := stamp }

def Reflected (py : Python) (w : World) (raw : S1Agent) : Prop := ∃ d ∈ w.agents, Reflects py raw d

/-- It is in the collection, or the next incremental run fetches it. -/
def UpdateKept (py : Python) (w : World) (raw : S1Agent) : Prop :=
  Reflected py w raw ∨ ∀ since, (w.syncMeta "global").agentsSyncedAt = some since →
    since ≤ raw.updatedAt

def UpdatesKept (py : Python) (w : World) : Prop := ∀ raw ∈ w.s1.agents, UpdateKept py w raw

/-- What the source lists at a time: an agent that has been updated carries that
time, and no agent is both listed and decommissioned. -/
structure Updated (w : World) (s1 : S1Source) : Prop where
  agents : ∀ raw ∈ s1.agents, raw ∈ w.s1.agents ∨ raw.updatedAt = w.now
  apart : ∀ raw ∈ s1.agents, ∀ d ∈ s1.decommissioned, d.1 ≠ raw.id

def changeSource (s1 : S1Source) (w : World) : World :=
  { w with s1 := s1, readings := w.readings + 1 }

def UpToCheckpoint (py : Python) (w : World) : Prop :=
  ∀ c id, w.checkpoints "agents" = some c → c.lastId = some id →
    ∀ raw ∈ w.s1.agents, raw.id ≤ id → Reflected py w raw

/-- Runs of the phase while the source changes.  Where an attempt reads the clock, a
condition holds. -/
def SourceActs (atStart : World → Prop) (c : Attempts World SyncOp (Except SyncError Unit)) :
    Attempts.Act S1Source → Prop
  | .turn => c.current.next? = some .clock → atStart c.state
  | .env s1 => Updated c.state s1
  | .start => True

def AgentsApart (py : Python) : Prop := ∀ m n : Nat,
  canonicalId py sentinelone ("agent:" ++ toString m) =
    canonicalId py sentinelone ("agent:" ++ toString n) → m = n

/-- What the environment does between two steps. -/
structure SourceMoves (s t : World) : Prop where
  rest : t = { s with s1 := t.s1, readings := t.readings }
  readings : s.readings ≤ t.readings
  agents : ∀ raw ∈ t.s1.agents, raw ∈ s.s1.agents ∨ s.now ≤ raw.updatedAt

/-- What every step keeps. -/
structure Synced (py : Python) (w : World) : Prop where
  kept : UpdatesKept py w
  apart : ∀ raw ∈ w.s1.agents, ∀ d ∈ w.s1.decommissioned, d.1 ≠ raw.id
  mode : ∀ c, w.checkpoints "agents" = some c → c.mode = some .incremental
  past : ∀ since, (w.syncMeta "global").agentsSyncedAt = some since → since ≤ w.now

section Moves

variable {py : Python} {s t u w v : World}

theorem now_le_of_ticks {readings : Nat} (h : w.readings ≤ readings) :
    w.now ≤ World.now { w with readings := readings } :=
  w.clock.ticks.monotone h

theorem SourceMoves.now (h : SourceMoves s t) : s.now ≤ t.now := by
  unfold World.now
  rw [h.rest]
  exact s.clock.ticks.monotone h.readings

theorem SourceMoves.refl (s : World) : SourceMoves s s :=
  ⟨rfl, le_refl _, fun _ hraw => Or.inl hraw⟩

theorem SourceMoves.trans (h : SourceMoves s t) (h' : SourceMoves t u) : SourceMoves s u where
  rest := by
    rw [h'.rest, h.rest]
  readings := h.readings.trans h'.readings
  agents raw hraw := by
    rcases h'.agents raw hraw with hold | hnew
    · exact h.agents raw hold
    · exact Or.inr (h.now.trans hnew)

theorem sourceMoves_changeSource {s1 : S1Source} (h : Updated w s1) :
    SourceMoves w (changeSource s1 w) := by
  refine ⟨rfl, Nat.le_succ _, fun raw hraw => ?_⟩
  exact (h.agents raw hraw).imp_right fun htime => htime.ge

theorem Synced.changeSource {s1 : S1Source} (h : Synced py w) (hs1 : Updated w s1) :
    Synced py (changeSource s1 w) where
  kept raw hraw := by
    rcases hs1.agents raw hraw with hold | htime
    · exact h.kept raw hold
    · refine Or.inr fun since hsince => ?_
      rw [htime]
      exact h.past since hsince
  apart := hs1.apart
  mode := h.mode
  past since hsince := (h.past since hsince).trans (sourceMoves_changeSource hs1).now

end Moves

/-- An agent as it was read: it is still the same, or has been updated since. -/
def Latest (startedAt : Nat) (v : World) (old : S1Agent) : Prop :=
  ∀ raw ∈ v.s1.agents, raw.id = old.id → raw = old ∨ startedAt ≤ raw.updatedAt

def Gone (startedAt : Nat) (v : World) (id : Nat) : Prop :=
  ∀ raw ∈ v.s1.agents, raw.id = id → startedAt ≤ raw.updatedAt

/-- Every agent that has not been updated since the start is in the collection or in
the buffer, or is still to come: in the page, or after it. -/
structure Covers (py : Python) (startedAt : Nat) (since : Option Nat) (page : List S1Agent)
    (rest : S1Agent → Prop) (buffer : List AgentDoc) (v : World) : Prop where
  watermark : (v.syncMeta "global").agentsSyncedAt = since
  past : ∀ s, since = some s → s ≤ startedAt
  now : startedAt ≤ v.now
  seen : ∀ raw ∈ v.s1.agents, startedAt ≤ raw.updatedAt ∨ Reflected py v raw ∨
    (∃ d ∈ buffer, Reflects py raw d) ∨ raw ∈ page ∨ rest raw
  page : ∀ old ∈ page, Latest startedAt v old
  buffer : ∀ d ∈ buffer, ∃ old, Reflects py old d ∧ Latest startedAt v old

def Due (since cursor : Option Nat) (raw : S1Agent) : Prop :=
  (∀ s, since = some s → s1Dt s ≤ raw.updatedAt) ∧ ∀ c, cursor = some c → c < raw.id

section Covers

variable {py : Python} {startedAt : Nat} {since : Option Nat} {page : List S1Agent}
  {rest : S1Agent → Prop} {buffer : List AgentDoc} {v t : World}

theorem Latest.moves {old : S1Agent} (h : Latest startedAt v old) (hnow : startedAt ≤ v.now)
    (hmoves : SourceMoves v t) : Latest startedAt t old := by
  intro raw hraw hid
  rcases hmoves.agents raw hraw with hold | hnew
  · exact h raw hold hid
  · exact Or.inr (hnow.trans hnew)

theorem Gone.moves {id : Nat} (h : Gone startedAt v id) (hnow : startedAt ≤ v.now)
    (hmoves : SourceMoves v t) : Gone startedAt t id := by
  intro raw hraw hid
  rcases hmoves.agents raw hraw with hold | hnew
  · exact h raw hold hid
  · exact hnow.trans hnew

theorem reflected_moves {raw : S1Agent} (hmoves : SourceMoves v t) :
    Reflected py t raw ↔ Reflected py v raw := by
  unfold Reflected
  rw [hmoves.rest]

theorem Covers.moves (h : Covers py startedAt since page rest buffer v) (hmoves : SourceMoves v t) :
    Covers py startedAt since page rest buffer t where
  watermark := by
    rw [hmoves.rest]
    exact h.watermark
  past := h.past
  now := h.now.trans hmoves.now
  seen raw hraw := by
    rw [reflected_moves hmoves]
    rcases hmoves.agents raw hraw with hold | hnew
    · exact h.seen raw hold
    · exact Or.inl (h.now.trans hnew)
  page old hold := (h.page old hold).moves h.now hmoves
  buffer d hd := by
    obtain ⟨old, hreflects, hlatest⟩ := h.buffer d hd
    exact ⟨old, hreflects, hlatest.moves h.now hmoves⟩

theorem Reflects.id_eq (hpy : AgentsApart py) {raw old : S1Agent} {d e : AgentDoc}
    (hd : Reflects py raw d) (he : Reflects py old e) (hid : d.id = e.id) : raw.id = old.id := by
  obtain ⟨_, _, _, rfl⟩ := hd
  obtain ⟨_, _, _, rfl⟩ := he
  exact hpy raw.id old.id hid

theorem Reflects.sourceId {raw : S1Agent} {d : AgentDoc} (h : Reflects py raw d) :
    d.sourceId = toString raw.id := by
  obtain ⟨_, _, _, rfl⟩ := h
  rfl

theorem Covers.stored (hpy : AgentsApart py) (h : Covers py startedAt since page rest buffer v)
    {raw : S1Agent} (hraw : raw ∈ v.s1.agents)
    (hkept : Reflected py v raw ∨ ∃ d ∈ buffer, Reflects py raw d) :
    startedAt ≤ raw.updatedAt ∨ ∃ d ∈ v.agents.bulkReplace buffer, Reflects py raw d := by
  have hwritten : ∀ d, Reflects py raw d → d.id ∈ buffer.map AgentDoc.id →
      startedAt ≤ raw.updatedAt ∨ ∃ d ∈ v.agents.bulkReplace buffer, Reflects py raw d := by
    intro d hd hmem
    obtain ⟨e, he, heid⟩ := List.mem_map.mp hmem
    obtain ⟨f, hf, hfid, hin⟩ := Collection.exists_mem_bulkReplace (c := v.agents) he
    obtain ⟨old, hold, hlatest⟩ := h.buffer f hf
    have hid : raw.id = old.id := hd.id_eq hpy hold (heid.symm.trans hfid.symm)
    rcases hlatest raw hraw hid with heq | hlater
    · rw [heq]
      exact Or.inr ⟨f, hin, hold⟩
    · exact Or.inl hlater
  rcases hkept with ⟨d, hd, hreflects⟩ | ⟨d, hd, hreflects⟩
  · by_cases hmem : d.id ∈ buffer.map AgentDoc.id
    · exact hwritten d hreflects hmem
    · exact Or.inr ⟨d, Collection.mem_bulkReplace_of_other hd hmem, hreflects⟩
  · exact hwritten d hreflects (List.mem_map_of_mem hd)

theorem Covers.mono {rest' : S1Agent → Prop} (h : Covers py startedAt since page rest buffer v)
    (hrest : ∀ raw, rest raw → rest' raw) : Covers py startedAt since page rest' buffer v where
  watermark := h.watermark
  past := h.past
  now := h.now
  seen raw hraw := by
    rcases h.seen raw hraw with hlater | hstored | hbuf | hpage | hmore
    · exact Or.inl hlater
    · exact Or.inr (Or.inl hstored)
    · exact Or.inr (Or.inr (Or.inl hbuf))
    · exact Or.inr (Or.inr (Or.inr (Or.inl hpage)))
    · exact Or.inr (Or.inr (Or.inr (Or.inr (hrest raw hmore))))
  page := h.page
  buffer := h.buffer

theorem Covers.flush (hpy : AgentsApart py) (h : Covers py startedAt since page rest buffer v)
    (hv : Synced py v) :
    Synced py { v with agents := v.agents.bulkReplace buffer } ∧
      Covers py startedAt since page rest [] { v with agents := v.agents.bulkReplace buffer } := by
  refine ⟨⟨fun raw hraw => ?_, hv.apart, hv.mode, hv.past⟩, h.watermark, h.past, h.now,
    fun raw hraw => ?_, h.page, List.forall_mem_nil _⟩
  · rcases hv.kept raw hraw with hreflected | hlater
    · rcases h.stored hpy hraw (Or.inl hreflected) with hnew | hin
      · refine Or.inr fun s hs => (h.past s ?_).trans hnew
        rw [← h.watermark]
        exact hs
      · exact Or.inl hin
    · exact Or.inr hlater
  · have hstored := h.stored hpy hraw
    rcases h.seen raw hraw with hnew | hold | hbuf | hpage | hrest
    · exact Or.inl hnew
    · exact (hstored (Or.inl hold)).imp_right Or.inl
    · exact (hstored (Or.inr hbuf)).imp_right Or.inl
    · exact Or.inr (Or.inr (Or.inr (Or.inl hpage)))
    · exact Or.inr (Or.inr (Or.inr (Or.inr hrest)))

theorem Covers.add {old : S1Agent} (run : AgentsRun)
    (h : Covers py startedAt since (old :: page) rest buffer v) :
    Covers py startedAt since page rest (buffer ++ [agentDoc py run old]) v where
  watermark := h.watermark
  past := h.past
  now := h.now
  seen raw hraw := by
    have hnew : Reflects py old (agentDoc py run old) := ⟨run.groupNameMap, none, _, rfl⟩
    rcases h.seen raw hraw with hlater | hold | ⟨d, hd, hreflects⟩ | hpage | hrest
    · exact Or.inl hlater
    · exact Or.inr (Or.inl hold)
    · exact Or.inr (Or.inr (Or.inl ⟨d, List.mem_append_left _ hd, hreflects⟩))
    · rcases List.mem_cons.mp hpage with rfl | hin
      · exact Or.inr (Or.inr (Or.inl ⟨_, List.mem_append_right _ List.mem_cons_self, hnew⟩))
      · exact Or.inr (Or.inr (Or.inr (Or.inl hin)))
    · exact Or.inr (Or.inr (Or.inr (Or.inr hrest)))
  page old' hold' := h.page old' (List.mem_cons_of_mem old hold')
  buffer d hd := by
    rcases List.mem_append.mp hd with hin | hnew
    · exact h.buffer d hin
    · rw [List.mem_singleton.mp hnew]
      exact ⟨old, ⟨run.groupNameMap, none, _, rfl⟩, h.page old List.mem_cons_self⟩

end Covers

abbrev SyncEndures {α : Type} (py : Python) (Q : World → α → Prop) (v : World) (p : Phase α) :
    Prop :=
  EnduresOr SourceMoves (Synced py) Q (fun _ _ => True) v p

section Attempt

variable {py : Python} {startedAt : Nat} {since : Option Nat} {page : List S1Agent}
  {rest : S1Agent → Prop} {buffer : List AgentDoc} {v t : World} {run : AgentsRun} {α : Type}
variable {cursor : Option Nat} {l : AgentsLoop} {pages : Nat}

theorem syncEndures_atomic {P : World → Prop} {Q : World → α → Prop} {op : SyncOp}
    {f : World → World × α} (hmoves : ∀ s t, SourceMoves s t → P s → P t) (hv : P v)
    (hstep : ∀ t, P t → Synced py t → Synced py (f t).1 ∧ Q (f t).1 (f t).2) :
    SyncEndures py Q v (liftM (Process.atomic op f)) :=
  enduresOr_atomic fun t hvt ht => hstep t (hmoves v t hvt hv) ht

theorem Covers.read {Q : World → α → Prop} {op : SyncOp} {f : World → α}
    (h : Covers py startedAt since page rest buffer v)
    (hQ : ∀ t, Covers py startedAt since page rest buffer t → Synced py t → Q t (f t)) :
    SyncEndures py Q v (liftM (Process.read op f)) :=
  syncEndures_atomic (fun _ _ hmoves ht => Covers.moves ht hmoves) h fun t ht hsynced =>
    ⟨hsynced, hQ t ht hsynced⟩

theorem Covers.flushAgents (hpy : AgentsApart py)
    (h : Covers py startedAt since page rest buffer v) :
    SyncEndures py (fun t _ => Covers py startedAt since page rest [] t) v (flushAgents buffer) :=
  syncEndures_atomic (fun _ _ hmoves ht => Covers.moves ht hmoves) h fun _ ht hsynced =>
    ht.flush hpy hsynced

theorem Covers.flushWhenFull (hpy : AgentsApart py)
    (h : Covers py startedAt since page rest buffer v) :
    SyncEndures py (fun t buffer' => Covers py startedAt since page rest buffer' t) v
      (flushWhenFull buffer) := by
  unfold Sync.flushWhenFull
  by_cases hfull : 500 ≤ buffer.length
  · rw [if_pos hfull]
    exact (h.flushAgents hpy).bind fun t _ ht => enduresOr_pure ht
  · rw [if_neg hfull]
    exact enduresOr_pure h

theorem Covers.saveEachHundredth {c : Checkpoint} (hmode : c.mode = some .incremental)
    (h : Covers py startedAt since page rest buffer v) :
    SyncEndures py (fun t _ => Covers py startedAt since page rest buffer t) v
      (saveEachHundredth c) := by
  unfold Sync.saveEachHundredth
  by_cases hhundred : c.synced % 100 = 0
  · rw [if_pos hhundred]
    refine syncEndures_atomic (fun _ _ hmoves ht => Covers.moves ht hmoves) h fun t ht hsynced => ?_
    refine ⟨⟨hsynced.kept, hsynced.apart, fun d hd => ?_, hsynced.past⟩,
      ht.watermark, ht.past, ht.now, ht.seen, ht.page, ht.buffer⟩
    have hsaved : (t.setCheckpoint "agents" (some c)).checkpoints "agents" = some d := hd
    rw [World.setCheckpoint_checkpoints, Option.some.injEq] at hsaved
    rw [← hsaved]
    exact hmode
  · rw [if_neg hhundred]
    exact enduresOr_pure h

/-- One turn of the loop. -/
theorem Covers.syncAgent (hpy : AgentsApart py) (hrun : run.mode = .incremental)
    {raw : S1Item S1Agent} (h : Covers py startedAt since (raw.item :: page) rest l.buffer v) :
    SyncEndures py (fun t l' => Covers py startedAt since page rest l'.buffer t) v
      (syncAgent py run l raw) := by
  unfold Sync.syncAgent
  refine ((h.add run).flushWhenFull hpy).bind fun t buffer ht => ?_
  have hmode : (agentCheckpoint run l raw).mode = some .incremental := congrArg some hrun
  exact (ht.saveEachHundredth hmode).bind fun u _ hu => enduresOr_pure hu

theorem mem_after {xs : List S1Agent} {raw : S1Agent} :
    raw ∈ after S1Agent.id xs cursor ↔ raw ∈ xs ∧ ∀ c, cursor = some c → c < raw.id := by
  cases cursor with
  | none => simp [after]
  | some c => simp [after]

theorem S1Source.agent_unique {s1 : S1Source} {x y : S1Agent} (hx : x ∈ s1.agents)
    (hy : y ∈ s1.agents) (hid : x.id = y.id) : x = y := by
  have hnodup : (s1.agents.map S1Agent.id).Nodup :=
    List.pairwise_map.mpr (s1.agents_sorted.imp Nat.ne_of_lt)
  exact List.inj_on_of_nodup_map hnodup hx hy hid

theorem Covers.getAgents {pageSize : Nat} (hsize : 0 < pageSize)
    (h : Covers py startedAt since [] (Due since cursor) buffer v) :
    SyncEndures py
      (fun t answer => Covers py startedAt since (answer.items.map S1Item.item)
        (fun raw => ∃ c, answer.next = some c ∧ Due since (some c) raw) buffer t) v
      (getAgents since pageSize cursor) := by
  refine h.read fun t ht _ => ?_
  have hsorted : (t.s1.agentsSince since).Pairwise fun x y => x.id < y.id :=
    t.s1.agents_sorted.filter _
  obtain ⟨hsplit, -⟩ := s1Page_rest cursor hsize hsorted
  have hlisted : ∀ raw ∈ (s1Page S1Agent.id pageSize (t.s1.agentsSince since) cursor).items.map
      S1Item.item, raw ∈ t.s1.agents := by
    intro raw hraw
    obtain ⟨item, hitem, rfl⟩ := List.mem_map.mp hraw
    exact (List.mem_filter.mp (mem_after.mp (mem_s1Page hitem)).1).1
  refine ⟨ht.watermark, ht.past, ht.now, fun raw hraw => ?_, fun old hold raw hraw hid => ?_,
    ht.buffer⟩
  · rcases ht.seen raw hraw with hlater | hstored | hbuf | hpage | hdue
    · exact Or.inl hlater
    · exact Or.inr (Or.inl hstored)
    · exact Or.inr (Or.inr (Or.inl hbuf))
    · exact absurd hpage List.not_mem_nil
    · have hafter : raw ∈ after S1Agent.id (t.s1.agentsSince since) cursor := by
        refine mem_after.mpr ⟨List.mem_filter.mpr ⟨hraw, ?_⟩, hdue.2⟩
        rw [Option.all_eq_true]
        exact fun s hs => decide_eq_true (hdue.1 s hs)
      rw [← hsplit, List.mem_append] at hafter
      refine Or.inr (Or.inr (Or.inr (hafter.imp_right fun hmore => ?_)))
      cases hnext : (s1Page S1Agent.id pageSize (t.s1.agentsSince since) cursor).next with
      | none =>
        rw [hnext] at hmore
        exact absurd hmore List.not_mem_nil
      | some c =>
        rw [hnext] at hmore
        exact ⟨c, rfl, hdue.1, (mem_after.mp hmore).2⟩
  · exact Or.inl (S1Source.agent_unique hraw (hlisted old hold) hid)

/-- The whole loop. -/
theorem Covers.scan {pages pageSize : Nat}
    (hpy : AgentsApart py) (hrun : run.mode = .incremental) (hsize : 0 < pageSize)
    (h : Covers py startedAt since [] (Due since cursor) l.buffer v) :
    SyncEndures py (fun t l' => Covers py startedAt since [] (fun _ => False) l'.buffer t) v
      (Lib.scan (fun _ cursor => Sync.getAgents since pageSize cursor) (Sync.syncAgent py run)
        (fun _ => SyncError.unfinished) pages cursor l) := by
  let J : Nat → Option Nat → AgentsLoop → World → Prop := fun _ cursor l t =>
    Covers py startedAt since [] (Due since cursor) l.buffer t
  let K : Nat → List (S1Item S1Agent) → Option Nat → AgentsLoop → World → Prop :=
    fun _ ys next l t => Covers py startedAt since (ys.map S1Item.item)
      (fun raw => ∃ c, next = some c ∧ Due since (some c) raw) l.buffer t
  have hscan : SyncEndures py (fun t l' => ∃ n, K n [] none l' t) v
      (Lib.scan (fun _ cursor => Sync.getAgents since pageSize cursor) (Sync.syncAgent py run)
        (fun _ => SyncError.unfinished) pages cursor l) := by
    refine enduresOr_scan J K ?_ ?_ ?_ ?_ h
    · exact fun _ _ _ _ => trivial
    · exact fun _ cursor l t ht => Covers.getAgents hsize ht
    · exact fun _ y ys next l t ht => Covers.syncAgent hpy hrun ht
    · refine fun _ c l t ht => ht.mono fun raw hmore => ?_
      obtain ⟨d, hd, hdue⟩ := hmore
      rw [Option.some.inj hd]
      exact hdue
  refine hscan.mono ?_ fun _ _ _ => trivial
  rintro t l' ⟨_, ht⟩
  refine ht.mono fun raw hmore => ?_
  obtain ⟨c, hc, -⟩ := hmore
  cases hc

/-! After the loop everything that has not been updated since the start is stored. -/

abbrev AllStored (py : Python) (startedAt : Nat) (since : Option Nat) : World → Prop :=
  Covers py startedAt since [] (fun _ => False) []

theorem AllStored.seen (h : AllStored py startedAt since v) {raw : S1Agent}
    (hraw : raw ∈ v.s1.agents) : startedAt ≤ raw.updatedAt ∨ Reflected py v raw := by
  rcases Covers.seen h raw hraw with hlater | hstored | ⟨d, hd, -⟩ | hpage | hfalse
  · exact Or.inl hlater
  · exact Or.inr hstored
  · exact absurd hd List.not_mem_nil
  · exact absurd hpage List.not_mem_nil
  · exact hfalse.elim

theorem Covers.flushRest (hpy : AgentsApart py)
    (h : Covers py startedAt since [] (fun _ => False) buffer v) :
    SyncEndures py (fun t _ => AllStored py startedAt since t) v (flushRest buffer) := by
  unfold Sync.flushRest
  by_cases hne : buffer ≠ []
  · rw [if_pos hne]
    exact h.flushAgents hpy
  · rw [if_neg hne]
    rw [not_not.mp hne] at h
    exact enduresOr_pure h

def FoundGone (py : Python) (startedAt : Nat) (since : Option Nat) (found : List (Nat × Nat))
    (v : World) : Prop :=
  AllStored py startedAt since v ∧ ∀ d ∈ found, Gone startedAt v d.1

theorem FoundGone.moves {found : List (Nat × Nat)} (h : FoundGone py startedAt since found v)
    (hmoves : SourceMoves v t) : FoundGone py startedAt since found t :=
  ⟨h.1.moves hmoves, fun d hd => (h.2 d hd).moves h.1.now hmoves⟩

theorem AllStored.getDecommissionedAgentIds (pages s : Nat) (h : AllStored py startedAt since v) :
    SyncEndures py (fun t ids => ∃ found : List (Nat × Nat), FoundGone py startedAt since found t ∧
        ids = found.map fun d => toString d.1) v (getDecommissionedAgentIds pages s) := by
  let J : Nat → Option Nat → List (Nat × Nat) → World → Prop := fun _ _ found t =>
    FoundGone py startedAt since found t
  let K : Nat → List (Nat × Nat) → Option Nat → List (Nat × Nat) → World → Prop :=
    fun _ ys _ found t => FoundGone py startedAt since (found ++ ys) t
  have hscan : SyncEndures py (fun t found => ∃ n, K n [] none found t) v
      (fetchAll "/agents?isDecommissioned" Prod.fst 100 pages
        fun w => w.s1.decommissionedSince s) := by
    refine enduresOr_scan J K ?_ ?_ ?_ ?_ ⟨h, List.forall_mem_nil _⟩
    · exact fun _ _ _ _ => trivial
    · intro _ cursor found t ht
      refine syncEndures_atomic (fun _ _ hmoves hs => FoundGone.moves hs hmoves) ht ?_
      refine fun u hu hsynced => ⟨hsynced, hu.1, fun d hd raw hraw hid => ?_⟩
      rcases List.mem_append.mp hd with hold | hnew
      · exact hu.2 d hold raw hraw hid
      · have hlisted : d ∈ u.s1.decommissioned :=
          (List.mem_filter.mp ((after_sublist cursor).subset (List.mem_of_mem_take hnew))).1
        exact absurd hid.symm (hsynced.apart raw hraw d hlisted)
    · intro _ d ys _ found t ht
      refine enduresOr_pure ?_
      show FoundGone py startedAt since ((found ++ [d]) ++ ys) t
      rw [List.append_assoc]
      exact ht
    · intro _ c found t ht
      show FoundGone py startedAt since found t
      rw [← List.append_nil found]
      exact ht
  refine hscan.bind ?_
  rintro t found ⟨_, ht⟩
  refine enduresOr_pure ⟨found, ?_, rfl⟩
  rw [← List.append_nil found]
  exact ht

/-- They are deleted. -/
theorem FoundGone.removeDecommissioned {found : List (Nat × Nat)}
    (h : FoundGone py startedAt since found v) :
    SyncEndures py (fun t _ => AllStored py startedAt since t) v
      (removeDecommissioned (found.map fun d => toString d.1)) := by
  let ids := found.map fun d => toString d.1
  -- Of an agent that has not been updated since, the document is not deleted.
  have hstays : ∀ t, FoundGone py startedAt since found t → ∀ raw ∈ t.s1.agents,
      Reflected py t raw → startedAt ≤ raw.updatedAt ∨
        ∃ d ∈ t.agents.deleteMany fun d => ids.contains d.sourceId, Reflects py raw d := by
    rintro t ht raw hraw ⟨d, hd, hreflects⟩
    by_cases hmem : d.sourceId ∈ ids
    · obtain ⟨gone, hgone, hid⟩ := List.mem_map.mp hmem
      rw [hreflects.sourceId] at hid
      exact Or.inl (ht.2 gone hgone raw hraw (toString_nat_injective hid).symm)
    · refine Or.inr ⟨d, Collection.mem_deleteMany.mpr ⟨hd, ?_⟩, hreflects⟩
      rw [List.contains_eq_mem, decide_eq_false hmem]
  let deleteAgents : Phase Unit := liftM (Process.write (SyncOp.write .agents) fun w : World =>
    { w with agents := w.agents.deleteMany fun d => ids.contains d.sourceId })
  have hagents : SyncEndures py (fun t _ => AllStored py startedAt since t) v deleteAgents := by
    refine syncEndures_atomic (fun _ _ hmoves hs => FoundGone.moves hs hmoves) h ?_
    refine fun t ht hsynced => ⟨⟨fun raw hraw => ?_, hsynced.apart, hsynced.mode, hsynced.past⟩,
      ht.1.watermark, ht.1.past, ht.1.now, fun raw hraw => ?_, ht.1.page, ht.1.buffer⟩
    · rcases hsynced.kept raw hraw with hreflected | hlater
      · rcases hstays t ht raw hraw hreflected with hnew | hin
        · refine Or.inr fun s hs => (ht.1.past s ?_).trans hnew
          rw [← ht.1.watermark]
          exact hs
        · exact Or.inl hin
      · exact Or.inr hlater
    · rcases ht.1.seen hraw with hnew | hold
      · exact Or.inl hnew
      · exact (hstays t ht raw hraw hold).imp_right Or.inl
  refine hagents.bind fun t _ ht => ?_
  refine syncEndures_atomic (fun _ _ hmoves hs => Covers.moves hs hmoves) ht ?_
  exact fun u hu hsynced => ⟨⟨hsynced.kept, hsynced.apart, hsynced.mode, hsynced.past⟩,
    hu.watermark, hu.past, hu.now, fun raw hraw => Covers.seen hu raw hraw, hu.page, hu.buffer⟩

theorem AllStored.removeAgents (hrun : run.mode = .incremental)
    (lastSyncAt : Option Nat) (h : AllStored py startedAt since v) :
    SyncEndures py (fun t _ => AllStored py startedAt since t) v
      (removeAgents pages run lastSyncAt) := by
  have hnotFull : run.mode ≠ .full := by
    rw [hrun]
    decide
  unfold Sync.removeAgents
  rw [if_neg hnotFull]
  cases lastSyncAt with
  | none => exact enduresOr_pure h
  | some s =>
    refine (AllStored.getDecommissionedAgentIds pages s h).bind ?_
    rintro t ids ⟨found, hfound, rfl⟩
    by_cases hne : (found.map fun d => toString d.1) ≠ []
    · rw [if_pos hne]
      exact hfound.removeDecommissioned
    · rw [if_neg hne]
      exact enduresOr_pure hfound.1

theorem AllStored.record (h : AllStored py startedAt since v) :
    SyncEndures py (fun _ _ => True) v
      (updateMeta "global" fun m => { m with agentsSyncedAt := some startedAt }) := by
  refine syncEndures_atomic (fun _ _ hmoves hs => Covers.moves hs hmoves) h fun t ht hsynced => ?_
  have hmark : ∀ s, ((t.updateMeta "global" fun m =>
      { m with agentsSyncedAt := some startedAt }).syncMeta "global").agentsSyncedAt = some s →
        s = startedAt := by
    intro s hs
    unfold World.updateMeta at hs
    dsimp only at hs
    rw [Function.update_self, Option.some.injEq] at hs
    exact hs.symm
  refine ⟨⟨fun raw hraw => ?_, hsynced.apart, hsynced.mode, fun s hs => ?_⟩, trivial⟩
  · rcases AllStored.seen ht hraw with hlater | hstored
    · refine Or.inr fun s hs => ?_
      rw [hmark s hs]
      exact hlater
    · exact Or.inl hstored
  · rw [hmark s hs]
    exact ht.now

theorem Covers.finishAgents (hpy : AgentsApart py)
    (hrun : run.mode = .incremental) (hstarted : run.startedAt = startedAt)
    (lastSyncAt : Option Nat) (h : Covers py startedAt since [] (fun _ => False) l.buffer v) :
    SyncEndures py (fun _ _ => True) v (finishAgents pages run lastSyncAt l) := by
  unfold Sync.finishAgents
  refine (h.flushRest hpy).bind fun t _ ht => ?_
  refine (AllStored.removeAgents hrun lastSyncAt ht).bind fun u _ hu => ?_
  rw [hstarted]
  exact AllStored.record hu

theorem checkMode_eq {phase : String} {mode : Mode} {args : RunArgs}
    (h : ∀ c, args.checkpoint = some c → c.mode = some mode) :
    checkMode phase mode args = pure args.checkpoint := by
  unfold checkMode
  cases hcheckpoint : args.checkpoint with
  | none => rfl
  | some c =>
    have hsame : args.mismatch mode c = false := by
      unfold RunArgs.mismatch
      rw [h c hcheckpoint]
      simp
    dsimp only
    rw [hsame]
    rfl

/-- What follows the reading of the clock. -/
theorem Covers.syncAgents {args : RunArgs} (hpy : AgentsApart py)
    (hmode : args.mode = .incremental)
    (hargs : ∀ c, args.checkpoint = some c → c.mode = some .incremental)
    (h : Covers py startedAt since [] (Due since (args.checkpoint.bind Checkpoint.lastId)) [] v) :
    SyncEndures py (fun _ _ => True) v (do
      let pageSize ← loadPageSize World.pageSizeAgents
      let groupNameMap ← loadGroupNameMap
      let syncMeta ← loadMeta "global"
      let mode := resolveMode args.mode syncMeta.agentsSyncedAt
      let checkpoint ← checkMode "agents" mode args
      let run : AgentsRun := ⟨groupNameMap, startedAt, mode⟩
      let since := if mode = .full then none else syncMeta.agentsSyncedAt
      let l ← Lib.scan (fun _ cursor => Sync.getAgents since pageSize cursor)
        (Sync.syncAgent py run)
        (fun _ => SyncError.unfinished) pages (checkpoint.bind Checkpoint.lastId)
        ⟨[], (checkpoint.map Checkpoint.synced).getD 0, (checkpoint.map Checkpoint.total).getD 0⟩
      Sync.finishAgents pages run syncMeta.agentsSyncedAt l) := by
  have hsize : SyncEndures py (fun t size =>
      Covers py startedAt since [] (Due since (args.checkpoint.bind Checkpoint.lastId)) [] t ∧
        0 < size) v (loadPageSize World.pageSizeAgents) :=
    h.read fun t ht _ => ⟨ht, t.pageSizeAgents_pos⟩
  refine hsize.bind fun t pageSize ht => ?_
  have hnames : SyncEndures py (fun t _ =>
      Covers py startedAt since [] (Due since (args.checkpoint.bind Checkpoint.lastId)) [] t) t
      loadGroupNameMap :=
    ht.1.read fun _ hu _ => hu
  refine hnames.bind fun u groupNameMap hu => ?_
  have hmeta : SyncEndures py (fun t m =>
      Covers py startedAt since [] (Due since (args.checkpoint.bind Checkpoint.lastId)) [] t ∧
        m.agentsSyncedAt = since) u (loadMeta "global") :=
    hu.read fun t ht _ => ⟨ht, ht.watermark⟩
  refine hmeta.bind ?_
  rintro t' syncMeta ⟨ht', hwatermark⟩
  have hincremental : resolveMode args.mode syncMeta.agentsSyncedAt = .incremental := by
    rw [hmode]
    rfl
  have hnotFull : Mode.incremental ≠ .full := by decide
  have hcheck : SyncEndures py (fun t c =>
      Covers py startedAt since [] (Due since (c.bind Checkpoint.lastId)) [] t ∧
        c = args.checkpoint) t'
      (checkMode "agents" .incremental args) := by
    rw [checkMode_eq hargs]
    exact enduresOr_pure ⟨ht', rfl⟩
  dsimp only
  rw [hincremental, if_neg hnotFull, hwatermark]
  refine hcheck.bind fun t₁ checkpoint ht₁ => ?_
  refine (ht₁.1.scan hpy rfl ht.2).bind fun t₂ l ht₂ => ?_
  exact ht₂.finishAgents hpy rfl rfl _

end Attempt

section Phase

variable {py : Python} {pages : Nat} {v : World}

/-- A step that reads the clock is taken where the agents up to the checkpoint are in
the collection. -/
def ClockGuard (py : Python) (op : SyncOp) (w : World) : Prop := op = .clock → UpToCheckpoint py w

abbrev SyncEnduresIf {α : Type} (py : Python) (Q : World → α → Prop) (v : World) (p : Phase α) :
    Prop :=
  EnduresOrIf SourceMoves (Synced py) (ClockGuard py) Q (fun _ _ => True) v p

theorem SyncEndures.guarded {α : Type} {Q : World → α → Prop} {p : Phase α}
    (h : SyncEndures py Q v p) : SyncEnduresIf py Q v p :=
  Endures.enduresIf h

theorem syncEnduresIf_syncAgents {args : RunArgs} (hpy : AgentsApart py)
    (hmode : args.mode = .incremental)
    (hargs : ∀ c, args.checkpoint = some c →
      c.mode = some .incremental ∧ v.checkpoints "agents" = some c) :
    SyncEnduresIf py (fun _ _ => True) v (syncAgents py pages args) := by
  let since := (v.syncMeta "global").agentsSyncedAt
  let cursor := args.checkpoint.bind Checkpoint.lastId
  have hclock : SyncEnduresIf py
      (fun t startedAt => Covers py startedAt since [] (Due since cursor) [] t) v utcNow := by
    refine enduresOrIf_atomic fun t hmoves ht hguard => ?_
    have hready : UpToCheckpoint py t := hguard rfl
    have hmeta : t.syncMeta = v.syncMeta := by rw [hmoves.rest]
    have hcheckpoints : t.checkpoints = v.checkpoints := by rw [hmoves.rest]
    have htick : t.now ≤ World.now { t with readings := t.readings + 1 } :=
      now_le_of_ticks (Nat.le_succ _)
    refine ⟨⟨ht.kept, ht.apart, ht.mode, fun s hs => (ht.past s hs).trans htick⟩,
      congrArg (fun m => (m "global").agentsSyncedAt) hmeta, fun s hs => ?_, htick,
      fun raw hraw => ?_, List.forall_mem_nil _,
      List.forall_mem_nil _⟩
    · refine ht.past s ?_
      rw [hmeta]
      exact hs
    · by_cases hstored : Reflected py t raw
      · exact Or.inr (Or.inl hstored)
      · refine Or.inr (Or.inr (Or.inr (Or.inr ⟨fun s hs => ?_, fun id hid => ?_⟩)))
        · have hlater := (ht.kept raw hraw).resolve_left hstored s (by rw [hmeta]; exact hs)
          exact (Nat.div_mul_le_self s 1000000).trans hlater
        · obtain ⟨c, hc, hlast⟩ := Option.bind_eq_some_iff.mp hid
          have hsaved : t.checkpoints "agents" = some c := by
            rw [hcheckpoints]
            exact (hargs c hc).2
          by_contra hle
          exact hstored (hready c id hsaved hlast raw hraw (Nat.le_of_not_lt hle))
  unfold syncAgents
  refine hclock.bind fun t startedAt ht => ?_
  exact SyncEndures.guarded (ht.syncAgents hpy hmode fun c hc => (hargs c hc).1)

theorem syncEnduresIf_safeRun {args : RunArgs} (hpy : AgentsApart py)
    (hmode : args.mode = .incremental)
    (hargs : ∀ c, args.checkpoint = some c →
      c.mode = some .incremental ∧ v.checkpoints "agents" = some c) :
    SyncEnduresIf py (fun _ _ => True) v (safeRun "agents" (syncAgents py pages) args) := by
  refine (syncEnduresIf_syncAgents hpy hmode hargs).bind fun t _ _ => ?_
  refine enduresOrIf_atomic fun u _ hu _ => ⟨⟨hu.kept, hu.apart, fun c hc => ?_, hu.past⟩, trivial⟩
  have hnone : (u.setCheckpoint "agents" none).checkpoints "agents" = some c := hc
  rw [World.setCheckpoint_checkpoints] at hnone
  cases hnone

theorem syncEnduresIf_agentsPhase (hpy : AgentsApart py) :
    SyncEnduresIf py (fun _ _ => True) v (agentsPhase py pages .incremental) := by
  have hload : ∀ v, SyncEnduresIf py (fun t c => t.checkpoints "agents" = c ∧ Synced py t) v
      (loadCheckpoint "agents") :=
    fun _ => enduresOrIf_atomic fun t _ ht _ => ⟨ht, rfl, ht⟩
  unfold agentsPhase trigger
  refine (hload v).bind ?_
  rintro t checkpoint ⟨rfl, ht⟩
  cases hcheckpoint : t.checkpoints "agents" with
  | none => exact syncEnduresIf_safeRun hpy rfl fun c hc => nomatch hc
  | some c =>
    dsimp only
    by_cases hstatus : c.status = some "completed"
    · rw [if_pos hstatus]
      exact syncEnduresIf_safeRun hpy rfl fun c hc => nomatch hc
    · rw [if_neg hstatus]
      unfold resume
      refine (hload t).bind ?_
      rintro u checkpoint ⟨rfl, hu⟩
      cases hagain : u.checkpoints "agents" with
      | none => exact (trivial : SyncEnduresIf py (fun _ _ => True) u (pure ()))
      | some d =>
        have hmode := hu.mode d hagain
        dsimp only
        by_cases hdone : d.status = some "completed"
        · rw [if_pos hdone]
          refine enduresOrIf_atomic fun w _ hw _ =>
            ⟨⟨hw.kept, hw.apart, fun c hc => ?_, hw.past⟩, trivial⟩
          have hnone : (w.setCheckpoint "agents" none).checkpoints "agents" = some c := hc
          rw [World.setCheckpoint_checkpoints] at hnone
          cases hnone
        · rw [if_neg hdone, hmode]
          refine syncEnduresIf_safeRun hpy rfl fun c hc => ?_
          rw [← Option.some.inj hc]
          exact ⟨hmode, hagain⟩

end Phase

/-- Where no attempt reads the clock before the agents up to its checkpoint are in the
collection, no update is lost: whatever the source does, and wherever attempts are
cut off. -/
theorem incremental_sync_keeps_updates (py : Python) (pages : Nat) (w : World)
    (hpy : AgentsApart py) (hw : Synced py w)
    (acts : List (Attempts.Act S1Source))
    (hacts : Attempts.Meets (agentsPhase py pages .incremental).run changeSource
      (SourceActs (UpToCheckpoint py)) ⟨w, .ret (.ok ())⟩ acts) :
    UpdatesKept py (Attempts.performs (agentsPhase py pages .incremental).run changeSource
      ⟨w, .ret (.ok ())⟩ acts).state := by
  have hidle : Attempts.Enduring SourceMoves (Synced py) (ClockGuard py) (fun _ r => Outcome
      (fun _ => True) (fun _ => True) r)
      (⟨w, .ret (.ok ())⟩ : Attempts World SyncOp (Except SyncError Unit)) := ⟨hw, trivial⟩
  have hall := hidle.performs SourceMoves.refl (fun _ _ _ h h' => h.trans h')
    (fun _ _ _ _ hr => hr) ?_ ?_ ?_ hacts
  · exact hall.state.kept
  · rintro c hgood l hl rfl
    exact hgood hl
  · exact fun c s1 hgood hc => ⟨hc.changeSource hgood, sourceMoves_changeSource hgood⟩
  · exact fun c _ _ => syncEnduresIf_agentsPhase hpy

theorem agentsApart_plainPython : AgentsApart plainPython := by
  intro m n h
  have hchars := congrArg String.toList h
  simp only [canonicalId, plainPython, String.toList_append, List.append_cancel_left_eq] at hchars
  exact toString_nat_injective (String.toList_injective hchars)

/-- Where nothing has been stored, nothing is lost. -/
theorem synced_fresh {s1 : S1Source} {cs : CsSource} (h : s1.decommissioned = []) :
    Synced plainPython (World.fresh s1 cs) where
  kept _ _ := Or.inr fun _ hs => nomatch hs
  apart _ _ d hd := by
    replace hd : d ∈ s1.decommissioned := hd
    rw [h] at hd
    exact absurd hd List.not_mem_nil
  mode _ hc := nomatch hc
  past _ hs := nomatch hs

def soloAgent (updatedAt : Nat) : S1Source :=
  { S1Source.empty with
    agents := [{ id := 7, updatedAt := updatedAt }]
    agents_sorted := List.pairwise_singleton _ _ }

def soloActs : List (Attempts.Act S1Source) :=
  [.start, .turn, .turn, .env (soloAgent 1), .turn, .turn, .turn, .turn, .turn, .turn, .turn]

theorem solo_update_kept : UpdatesKept plainPython
    (Attempts.performs (agentsPhase plainPython 2 .incremental).run changeSource
      ⟨World.fresh (soloAgent 0) .empty, .ret (.ok ())⟩ soloActs).state := by
  refine incremental_sync_keeps_updates plainPython 2 (World.fresh (soloAgent 0) .empty)
    agentsApart_plainPython (synced_fresh rfl) soloActs ?_
  have hupdated :
      Updated { World.fresh (soloAgent 0) .empty with readings := 1 } (soloAgent 1) := by
    refine ⟨fun raw hraw => Or.inr ?_, fun _ _ d hd => absurd hd List.not_mem_nil⟩
    rw [List.mem_singleton.mp hraw]
    rfl
  refine ⟨trivial, ?_, ?_, hupdated, ?_, ?_, ?_, ?_, ?_, ?_, ?_, trivial⟩
  · exact fun hnext => absurd hnext (by decide +kernel)
  · exact fun _ c id hc => nomatch hc
  · exact fun hnext => absurd hnext (by decide +kernel)
  · exact fun hnext => absurd hnext (by decide +kernel)
  · exact fun hnext => absurd hnext (by decide +kernel)
  · exact fun hnext => absurd hnext (by decide +kernel)
  · exact fun hnext => absurd hnext (by decide +kernel)
  · exact fun hnext => absurd hnext (by decide +kernel)
  · exact fun hnext => absurd hnext (by decide +kernel)

def hundredActs : List (Attempts.Act S1Source) :=
  .start :: List.replicate 7 .turn ++ .start :: List.replicate 9 .turn

/-- No agent is stored, and the watermark is later than all of their updates. -/
theorem hundred_updates_lost : Synced plainPython hundredWorld ∧
    Attempts.Meets (agentsPhase plainPython 101 .incremental).run changeSource
      (SourceActs fun _ => True) ⟨hundredWorld, .ret (.ok ())⟩ hundredActs ∧
    (Attempts.performs (agentsPhase plainPython 101 .incremental).run changeSource
      ⟨hundredWorld, .ret (.ok ())⟩ hundredActs).current.result? = some (.ok ()) ∧
    ¬UpdatesKept plainPython
      (Attempts.performs (agentsPhase plainPython 101 .incremental).run changeSource
        ⟨hundredWorld, .ret (.ok ())⟩ hundredActs).state := by
  refine ⟨synced_fresh rfl, Attempts.meets_of_forall (fun act hact c => ?_) _, by decide +kernel,
    fun hkept => ?_⟩
  · have hkinds : act = .turn ∨ act = .start := by
      simp only [hundredActs, List.mem_cons, List.mem_append, List.mem_replicate] at hact
      tauto
    rcases hkinds with rfl | rfl
    · exact fun _ => trivial
    · trivial
  · obtain ⟨last, hlast⟩ : ∃ last, last = (Attempts.performs
        (agentsPhase plainPython 101 .incremental).run changeSource
        ⟨hundredWorld, .ret (.ok ())⟩ hundredActs).state := ⟨_, rfl⟩
    have hstored : last.agents.docs = [] := by
      rw [hlast]
      decide +kernel
    have hmark : (last.syncMeta "global").agentsSyncedAt = some 1 := by
      rw [hlast]
      decide +kernel
    have hlisted : ∃ raw ∈ last.s1.agents, raw.updatedAt < 1 := by
      rw [hlast]
      decide +kernel
    rw [← hlast] at hkept
    obtain ⟨raw, hraw, hold⟩ := hlisted
    rcases hkept raw hraw with ⟨d, hd, -⟩ | hlater
    · rw [Collection.mem_def, hstored] at hd
      exact List.not_mem_nil hd
    · have hle := hlater 1 hmark
      omega

end Sentora.Sync
