import Sentora.Audit.Build

/-!
# Failed appends

What an append leaves behind when its insert attempts fail.

After two failed attempts the counter goes back to the sequence of the append.
That is right where neither attempt was written; where one was written without
an acknowledgement, the sequence is taken.
-/

namespace Sentora.Audit

open Lib Process

/-- A chain that full verification accepts, with the counter behind its highest
sequence. -/
structure ValidAt (rt : Runtime) (s : Store) (m : Int) : Prop where
  counter : s.sequenceCounter = some (m + 1)
  verified : Verified rt (getEpochSize s) s.auditLog m

section Append

variable {rt : Runtime} {s : Store} {m : Int}

theorem ValidAt.nextSequence_eq (h : ValidAt rt s m) : nextSequence s = m + 1 := by
  rw [nextSequence, h.counter]
  rfl

theorem ValidAt.sequence_free (h : ValidAt rt s m) :
    ∀ d ∈ s.auditLog, d.sequence ≠ some (nextSequence s) := by
  intro d hd hz
  rw [h.nextSequence_eq] at hz
  have := h.verified.last.2 d hd _ hz
  omega

theorem ValidAt.push_nextEntry (h : ValidAt rt s m) {a : AppendArgs}
    (hd : (Val.dict (a.details.getD [])).Stable) :
    ValidAt rt (push (nextEntry rt s a) (prepared s)) (m + 1) := by
  refine ⟨?_, h.verified.push_nextEntry h.counter hd⟩
  show some (nextSequence s + 1) = _
  rw [h.nextSequence_eq]

/-- What the next append on a healthy database needs. -/
def Recovers (rt : Runtime) (s : Store) : Prop :=
  ∀ b : AppendArgs, (Val.dict (b.details.getD [])).Stable →
    ∃ entry z, ((appendChainedEntry rt healthy b).run s).2 = .ok entry ∧
      entry.sequence = some z ∧ (∀ d ∈ s.auditLog, ∀ y, d.sequence = some y → y < z) ∧
      Accepted (verifyChain rt ((appendChainedEntry rt healthy b).run s).1 none)

theorem ValidAt.recovers (h : ValidAt rt s m) : Recovers rt s := by
  intro b hb
  have hnext := h.push_nextEntry hb
  rw [append_healthy b h.sequence_free]
  refine ⟨_, m + 1, rfl, ?_, ?_, ?_⟩
  · rw [nextEntry_sequence, h.nextSequence_eq]
  · intro d hd y hy
    have := h.verified.last.2 d hd y hy
    omega
  · exact (verifyChain_accepted_iff hnext.verified.last).mpr hnext.verified

/-- The two attempts to insert, up to the one that is acknowledged. -/
def NoLostAck (outcome : Nat → InsertOutcome) : Prop :=
  outcome 0 ≠ .lostAck ∧ (outcome 0 = .notApplied → outcome 1 ≠ .lostAck)

/-- One of the attempts writes the entry. -/
def Stored (outcome : Nat → InsertOutcome) : Prop :=
  outcome 0 ≠ .notApplied ∨ outcome 1 ≠ .notApplied

/-- The highest sequence is one less than the counter, and the chain goes on. -/
def Restored (rt : Runtime) (s : Store) : Prop :=
  (∃ m, IsLast s.auditLog m ∧ s.sequenceCounter = some (m + 1)) ∧ Recovers rt s

theorem ValidAt.restored (h : ValidAt rt s m) : Restored rt s :=
  ⟨⟨m, h.verified.last, h.counter⟩, h.recovers⟩

/-- An append that was not written leaves the chain as it was, its counter
included. -/
theorem ValidAt.rolledBack (h : ValidAt rt s m) :
    ValidAt rt (resetSequenceTo (nextSequence s) (prepared s)) m := by
  refine ⟨?_, h.verified.map (untouched_closeMark s)⟩
  show some (nextSequence s) = _
  rw [h.nextSequence_eq]

theorem ValidAt.not_restored (h : ValidAt rt s m) (entry : Doc)
    (hz : entry.sequence = some (nextSequence s)) :
    ¬Restored rt (resetSequenceTo (nextSequence s) (push entry (prepared s))) := by
  rintro ⟨⟨m', hlast, hcount⟩, -⟩
  have hm' : m + 1 = m' + 1 := by
    rw [← h.nextSequence_eq]
    exact Option.some.inj hcount
  have hnew : readBack entry s.nextOid ∈
      (resetSequenceTo (nextSequence s) (push entry (prepared s))).auditLog := by
    show _ ∈ (push entry (prepared s)).auditLog
    rw [push_prepared_auditLog]
    exact List.mem_append_right _ List.mem_cons_self
  have hseq : (readBack entry s.nextOid).sequence = some (m + 1) := by
    rw [readBack_sequence, hz, h.nextSequence_eq]
  have := hlast.2 _ hnew _ hseq
  omega

theorem entryOk_of_append (hm : IsLast s.auditLog m) (hn : nextSequence s = m + 1)
    {b : AppendArgs} (hacc : Accepted (verifyChain rt (push (nextEntry rt s b) (prepared s)) none))
    {d : Doc} (hd : d ∈ s.auditLog) {z : Int} (hz : d.sequence = some z) (h0 : 0 ≤ z) :
    EntryOk rt d := by
  have hf := untouched_closeMark s
  have hv := (verifyChain_accepted_iff (hm.push_nextEntry hn b)).mp hacc
  have hle : z ≤ m := hm.2 d hd z hz
  have hin : closeMark s d ∈ (push (nextEntry rt s b) (prepared s)).auditLog := by
    rw [push_prepared_auditLog]
    exact List.mem_append_left _ (List.mem_map_of_mem hd)
  have hmem : closeMark s d ∈
      streamEntriesInRange (push (nextEntry rt s b) (prepared s)).auditLog 0 (m + 1) :=
    mem_streamEntriesInRange.mpr ⟨hin, z, (hf.sequence d).trans hz, h0, by omega⟩
  exact (entryOk_map hf d).mp (hv.linked.ok_of_mem _ hmem)

theorem ValidAt.stable_of_recovers (h : ValidAt rt s m) (hrt : rt.CollisionFree) {a : AppendArgs}
    (hr : Recovers rt (push (nextEntry rt s a) (prepared s))) :
    (Val.dict (a.details.getD [])).Stable := by
  have hm0 := h.verified.nonneg
  have hlast : IsLast (push (nextEntry rt s a) (prepared s)).auditLog (m + 1) :=
    h.verified.last.push_nextEntry h.nextSequence_eq a
  have hnew : readBack (nextEntry rt s a) s.nextOid ∈
      (push (nextEntry rt s a) (prepared s)).auditLog := by
    rw [push_prepared_auditLog]
    exact List.mem_append_right _ List.mem_cons_self
  have hseq : (readBack (nextEntry rt s a) s.nextOid).sequence = some (m + 1) := by
    rw [readBack_sequence, nextEntry_sequence, h.nextSequence_eq]
  have hcount : nextSequence (push (nextEntry rt s a) (prepared s)) = m + 1 + 1 := by
    show nextSequence s + 1 = _
    rw [h.nextSequence_eq]
  -- one more append goes through, and the verification after it checks the new entry
  generalize push (nextEntry rt s a) (prepared s) = s' at hr hlast hnew hcount
  have hfree : ∀ d ∈ s'.auditLog, d.sequence ≠ some (nextSequence s') := by
    intro d hd hz
    rw [hcount] at hz
    have := hlast.2 d hd _ hz
    omega
  obtain ⟨-, -, -, -, -, hacc⟩ := hr sampleAppend (Val.stable_of_plain rfl)
  rw [append_healthy sampleAppend hfree] at hacc
  have hok := entryOk_of_append hlast hcount hacc hnew hseq (by omega)
  have href : HashRef (getPreviousHash s.auditLog (nextSequence s)) := by
    rw [h.nextSequence_eq]
    exact h.verified.hashRef
  exact stable_of_entryOk hrt href hok

end Append

/-- After an append, however its two insert attempts end, the counter stands
behind the highest sequence and the chain goes on, exactly when no attempt was
written without an acknowledgement and the details of a written entry keep their
canonical form in storage. -/
theorem append_restored_iff (rt : Runtime) (hrt : rt.CollisionFree) (s : Store) (m : Int)
    (hm : IsLast s.auditLog m) (hc : s.sequenceCounter = some (m + 1))
    (hv : Accepted (verifyChain rt s none)) (outcome : Nat → InsertOutcome) (a : AppendArgs) :
    Restored rt ((appendChainedEntry rt outcome a).run s).1 ↔
      NoLostAck outcome ∧ (Stored outcome → (Val.dict (a.details.getD [])).Stable) := by
  have h : ValidAt rt s m := ⟨hc, (verifyChain_accepted_iff hm).mp hv⟩
  have hseq := nextEntry_sequence rt s a
  have hwritten : Restored rt (push (nextEntry rt s a) (prepared s)) ↔
      (Val.dict (a.details.getD [])).Stable :=
    ⟨fun hr => h.stable_of_recovers hrt hr.2, fun hd => (h.push_nextEntry hd).restored⟩
  have hlost := h.not_restored (nextEntry rt s a) hseq
  rw [append_run, insertEntry_run hseq (prepared_free h.sequence_free)]
  cases h0 : outcome 0 with
  | applied => simp [NoLostAck, Stored, h0, hwritten]
  | lostAck => simp [NoLostAck, h0, hlost]
  | notApplied =>
    cases h1 : outcome 1 with
    | applied => simp [NoLostAck, Stored, h0, h1, hwritten]
    | notApplied => simp [NoLostAck, Stored, h0, h1, h.rolledBack.restored]
    | lostAck => simp [NoLostAck, h0, h1, hlost]

theorem Built.validAt {rt : Runtime} {k n : Nat} {s : Store} (h : Built rt k n s) :
    ValidAt rt s n := by
  refine ⟨h.counter, ?_⟩
  rw [h.getEpochSize_eq]
  exact h.verified

/-- An append on a healthy database to a fresh chain. -/
theorem append_restored_healthy :
    Restored .tagged ((appendChainedEntry .tagged healthy sampleAppend).run
        (buildChain .tagged sampleInit [])).1 ↔
      NoLostAck healthy ∧
        (Stored healthy → (Val.dict (sampleAppend.details.getD [])).Stable) :=
  append_restored_iff .tagged Runtime.tagged_collisionFree _ 0 built_genesis.isLast
    built_genesis.counter built_genesis.accepted healthy sampleAppend

/-- A lost acknowledgement leaves the counter at a sequence that is taken. -/
theorem lost_ack_wedges :
    ¬∀ (rt : Runtime) (s : Store) (m : Int), rt.CollisionFree → IsLast s.auditLog m →
      s.sequenceCounter = some (m + 1) → Accepted (verifyChain rt s none) →
      ∀ (outcome : Nat → InsertOutcome) (a : AppendArgs), a.PlainDetails →
        Restored rt ((appendChainedEntry rt outcome a).run s).1 := by
  intro hclaim
  have h := built_genesis
  have hr := hclaim .tagged _ 0 Runtime.tagged_collisionFree h.isLast h.counter h.accepted
    (fun _ => .lostAck) sampleAppend rfl
  have hseq := nextEntry_sequence .tagged
    (buildChain .tagged sampleInit []) sampleAppend
  rw [append_run, insertEntry_run hseq (prepared_free h.validAt.sequence_free)] at hr
  exact h.validAt.not_restored _ hseq hr

end Sentora.Audit
