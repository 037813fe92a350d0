import Sentora.Audit.Chain

namespace Sentora.Audit

open Lib Process

/-- The log holds the sequences `0` to `n - 1` in order, and the counter gives
out `n` next. -/
structure Sequenced (s : Store) (n : Nat) : Prop where
  next : nextSequence s = n
  length : s.auditLog.length = n
  numbered : Numbered Doc.sequence 0 s.auditLog

theorem sequenced_empty : Sequenced Store.empty 0 := ⟨rfl, rfl, trivial⟩

section Sequenced

variable {rt : Runtime} {s : Store} {n : Nat}

theorem Sequenced.bounds (h : Sequenced s n) {d : Doc} (hd : d ∈ s.auditLog) :
    ∃ z, d.sequence = some z ∧ 0 ≤ z ∧ z < n := by
  obtain ⟨z, hz, hlo, hhi⟩ := h.numbered.of_mem hd
  rw [h.length] at hhi
  exact ⟨z, hz, hlo, by omega⟩

theorem Sequenced.below (h : Sequenced s n) {d : Doc} (hd : d ∈ s.auditLog) {z : Int}
    (hz : d.sequence = some z) : 0 ≤ z ∧ z < n := by
  obtain ⟨y, hy, hlo, hhi⟩ := h.bounds hd
  rw [hz] at hy
  have := Option.some.inj hy
  omega

theorem Sequenced.exists_sequence (h : Sequenced s n) {z : Int} (hlo : 0 ≤ z) (hhi : z < n) :
    ∃ d ∈ s.auditLog, d.sequence = some z :=
  (h.numbered.mem_iff z).mpr ⟨hlo, by rw [h.length]; omega⟩

theorem Sequenced.sequence_free (h : Sequenced s n) :
    ∀ d ∈ s.auditLog, d.sequence ≠ some (nextSequence s) := by
  intro d hd hz
  rw [h.next] at hz
  have := h.below hd hz
  omega

theorem Sequenced.isLast (h : Sequenced s (n + 1)) : IsLast s.auditLog n := by
  refine ⟨h.exists_sequence (by omega) (by omega), fun e he z hez => ?_⟩
  have := h.below he hez
  omega

theorem Sequenced.genesis (h : Sequenced s (n + 1)) : ∃ d ∈ s.auditLog, d.sequence = some 0 :=
  h.exists_sequence (le_refl 0) (by omega)

theorem Sequenced.nil (h : Sequenced s 0) : s.auditLog = [] := List.length_eq_zero_iff.mp h.length

theorem Sequenced.chained_eq (h : Sequenced s n) : chained s.auditLog = s.auditLog := by
  rw [chained, List.filter_eq_self]
  intro d hd
  obtain ⟨z, hz, -⟩ := h.bounds hd
  rw [hz]
  rfl

theorem Sequenced.sorted (h : Sequenced s n) :
    (chained s.auditLog).Pairwise (fun a b => seqKey a ≤ seqKey b) := by
  rw [h.chained_eq]
  refine h.numbered.pairwise.imp ?_
  intro a b hab
  obtain ⟨y, z, hy, hz, hlt⟩ := hab
  rw [seqKey_of hy, seqKey_of hz]
  omega

theorem Sequenced.stream_eq (h : Sequenced s (n + 1)) :
    streamEntriesInRange s.auditLog 0 n = s.auditLog := by
  rw [streamEntriesInRange_of_sorted h.sorted, h.chained_eq, List.filter_eq_self]
  intro d hd
  obtain ⟨z, hz, hlo, hhi⟩ := h.bounds hd
  exact inRange_iff.mpr ⟨z, hz, hlo, by omega⟩

end Sequenced

def InEpochs (k : { k : Nat // 0 < k }) (log : List Doc) : Prop :=
  ∀ d ∈ log, ∀ z, d.sequence = some z → d.epoch = some (z / k.val)

section Epochs

variable {rt : Runtime} {s : Store} {n : Nat} {k : { k : Nat // 0 < k }}

theorem InEpochs.epoch_le {log : List Doc} (hin : InEpochs k log) {a b : Doc} (ha : a ∈ log)
    (hb : b ∈ log) {y z : Int} (hy : a.sequence = some y) (hz : b.sequence = some z)
    (hle : y ≤ z) : a.epoch.getD 0 ≤ b.epoch.getD 0 := by
  have hk := k.property
  rw [hin a ha y hy, hin b hb z hz]
  exact Int.ediv_le_ediv (by omega) hle

theorem Sequenced.stream_epoch_eq (h : Sequenced s n) (hin : InEpochs k s.auditLog) (e : Int) :
    streamEntriesForEpoch s.auditLog e = s.auditLog.filter (fun d => d.epoch.getD 0 = e) := by
  rw [streamEntriesForEpoch_of_sorted h.sorted, h.chained_eq]
  apply List.filter_congr
  intro d hd
  obtain ⟨z, hz, -⟩ := h.bounds hd
  rw [hin d hd z hz]
  simp only [Option.some_beq_some, Option.getD_some]
  rfl

theorem Sequenced.epoch_accepted (h : Sequenced s n) (hin : InEpochs k s.auditLog)
    (hlink : DocLinked rt .none s.auditLog) {d : Doc} (hd : d ∈ s.auditLog) {e : Int}
    (he : d.epoch = some e) : Accepted (verifyChain rt s (some e)) := by
  have hmono : s.auditLog.Pairwise (fun a b => a.epoch.getD 0 ≤ b.epoch.getD 0) := by
    refine List.Pairwise.imp_of_mem ?_ h.numbered.pairwise
    intro a b ha hb hab
    obtain ⟨y, z, hy, hz, hlt⟩ := hab
    exact hin.epoch_le ha hb hy hz (by omega)
  have hsplit := split_of_monotone (fun d : Doc => d.epoch.getD 0) hmono e
  have hgenesis : ∃ g ∈ s.auditLog, g.sequence = some 0 := by
    have hpos := List.length_pos_of_mem hd
    rw [h.length] at hpos
    exact h.exists_sequence (le_refl 0) (by omega)
  obtain ⟨genesis, hfind⟩ := findSequence_ne_none.mp hgenesis
  have hne : s.auditLog.filter (fun d => d.epoch.getD 0 = e) ≠ [] := by
    apply List.ne_nil_of_mem
    exact List.mem_filter.mpr ⟨hd, by simp [he]⟩
  have hnum := h.numbered
  rw [hsplit] at hnum hlink
  rw [verifyChain, hfind]
  exact segment_accepted hnum hlink (h.stream_epoch_eq hin e) hne

end Epochs

section Commands

variable {rt : Runtime} {s : Store} {n : Nat}

theorem mem_push_prepared {entry d : Doc} (hd : d ∈ (push entry (prepared s)).auditLog) :
    (∃ e ∈ s.auditLog, closeMark s e = d) ∨ d = readBack entry s.nextOid := by
  rw [push_prepared_auditLog] at hd
  rcases List.mem_append.mp hd with hd | hd
  · exact Or.inl (List.mem_map.mp hd)
  · exact Or.inr (List.mem_singleton.mp hd)

theorem Sequenced.push_nextEntry (h : Sequenced s n) (rt : Runtime) (a : AppendArgs) :
    Sequenced (push (nextEntry rt s a) (prepared s)) (n + 1) := by
  have hseq : (readBack (nextEntry rt s a) s.nextOid).sequence = some (n : Int) := by
    rw [readBack_sequence, nextEntry_sequence, h.next]
  have hcount : ((n + 1 : Nat) : Int) = (n : Int) + 1 := by omega
  refine ⟨?_, ?_, ?_⟩
  · show nextSequence s + 1 = _
    rw [h.next, hcount]
  · rw [push_prepared_auditLog, List.length_append, List.length_map, h.length]
    rfl
  · rw [push_prepared_auditLog]
    refine numbered_append.mpr ⟨h.numbered.map (untouched_closeMark s).sequence, ?_, trivial⟩
    rw [List.length_map, h.length, hseq]
    congr 1
    omega

theorem Sequenced.append (h : Sequenced s n) (rt : Runtime) (a : AppendArgs) :
    Sequenced ((appendChainedEntry rt healthy a).run s).1 (n + 1) := by
  rw [append_healthy a h.sequence_free]
  exact h.push_nextEntry rt a

theorem InEpochs.push_nextEntry (hin : InEpochs (getEpochSize s) s.auditLog) (rt : Runtime)
    (a : AppendArgs) :
    InEpochs (getEpochSize s) (push (nextEntry rt s a) (prepared s)).auditLog := by
  intro d hd z hz
  rcases mem_push_prepared hd with ⟨e, he, rfl⟩ | rfl
  · rw [(untouched_closeMark s).sequence] at hz
    rw [(untouched_closeMark s).epoch]
    exact hin e he z hz
  · rw [readBack_sequence, nextEntry_sequence] at hz
    have hzn : nextSequence s = z := Option.some.inj hz
    show (nextEntry rt s a).epoch = _
    rw [nextEntry_epoch, nextEpoch, hzn]

theorem initialize_existing {rt : Runtime} {s : Store} (a : InitArgs) {m : Int}
    (hg : ∃ d ∈ s.auditLog, d.sequence = some 0) (hm : IsLast s.auditLog m) :
    ((initializeChain rt a).run s).1 =
      { s with epochSize := some a.epochSize, sequenceCounter := some (m + 1) } := by
  obtain ⟨g, hg⟩ := findSequence_ne_none.mp hg
  obtain ⟨latest, hl, heq⟩ := latest_of_isLast hm
  simp [initializeChain, saveEpochSize, hg, hl, resetSequenceTo, heq]

def genesisDoc (rt : Runtime) (a : InitArgs) (oid : Nat) : Doc :=
  readBack (withHash rt (genesisEntry a) .none) oid

theorem genesisDoc_sequence (rt : Runtime) (a : InitArgs) (oid : Nat) :
    (genesisDoc rt a oid).sequence = some 0 := by
  rw [genesisDoc, readBack_sequence, withHash_sequence]
  rfl

theorem genesisDoc_epoch (rt : Runtime) (a : InitArgs) (oid : Nat) :
    (genesisDoc rt a oid).epoch = some 0 := by
  show (withHash rt (genesisEntry a) .none).epoch = _
  rw [withHash_epoch]
  rfl

theorem initialize_fresh {rt : Runtime} {s : Store} (a : InitArgs)
    (hg : ∀ d ∈ s.auditLog, d.sequence ≠ some 0) :
    ((initializeChain rt a).run s).1 =
      { s with
        epochSize := some a.epochSize
        sequenceCounter := some 1
        auditLog := s.auditLog ++ [genesisDoc rt a s.nextOid]
        nextOid := s.nextOid + 1 } := by
  have hnone : findSequence s.auditLog 0 = none := findSequence_eq_none.mpr hg
  by_cases h0 : s.sequenceCounter.getD 0 = 0
  · simp [initializeChain, saveEpochSize, getNextSequence, hnone, h0, upsertGenesis, push,
      resetSequenceTo, genesisDoc]
  · simp [initializeChain, saveEpochSize, getNextSequence, hnone, h0, upsertGenesis, push,
      resetSequenceTo, genesisDoc]

theorem initialize_nil {rt : Runtime} {s : Store} (a : InitArgs) (h : s.auditLog = []) :
    ((initializeChain rt a).run s).1 =
      { s with
        epochSize := some a.epochSize
        sequenceCounter := some 1
        auditLog := [genesisDoc rt a s.nextOid]
        nextOid := s.nextOid + 1 } := by
  have hg : ∀ d ∈ s.auditLog, d.sequence ≠ some 0 := by
    rw [h]
    exact List.forall_mem_nil _
  rw [initialize_fresh a hg, h]
  rfl

theorem sequenced_initialize_nil (rt : Runtime) (a : InitArgs) (h : s.auditLog = []) :
    Sequenced ((initializeChain rt a).run s).1 1 := by
  rw [initialize_nil a h]
  exact ⟨rfl, rfl, genesisDoc_sequence rt a s.nextOid, trivial⟩

theorem Sequenced.init (h : Sequenced s (n + 1)) (rt : Runtime) (a : InitArgs) :
    Sequenced ((initializeChain rt a).run s).1 (n + 1) := by
  rw [initialize_existing a h.genesis h.isLast]
  refine ⟨?_, h.length, h.numbered⟩
  show (n : Int) + 1 = _
  omega

end Commands

end Sentora.Audit
