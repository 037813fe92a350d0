import Sentora.Audit.Tamper

/-!
# What the check of one epoch tells about a log

The check of an epoch takes its first and its last sequence from the entries that
are labelled with it.  It looks between them only: what is missing before or after
them is not noticed.
-/

namespace Sentora.Audit

open Lib

section Epoch

variable {rt : Runtime} {s : Store} {log : List Doc} {k : { k : Nat // 0 < k }} {m epoch z : Int}

/-- The sequence belongs to the epoch, in a chain whose highest one is `m`. -/
def InEpoch (k : { k : Nat // 0 < k }) (m epoch z : Int) : Prop :=
  epoch * k.val ≤ z ∧ z ≤ min ((epoch + 1) * k.val - 1) m

def IsStored (log : List Doc) (z : Int) : Prop := ∃ d ∈ log, d.sequence = some z

/-- The entry at `z + 1` refers to the one at `z`. -/
def LinkedAt (d d' : Doc) (z : Int) : Prop :=
  d.sequence = some z → d'.sequence = some (z + 1) → prevOf d' = hashOf d

/-- Every sequence of the epoch is stored, and consecutive entries are linked. -/
structure EpochComplete (log : List Doc) (k : { k : Nat // 0 < k }) (m epoch : Int) : Prop where
  stored : ∀ z, InEpoch k m epoch z → IsStored log z
  linked : ∀ d ∈ log, ∀ d' ∈ log, ∀ z, InEpoch k m epoch z → InEpoch k m epoch (z + 1) →
    LinkedAt d d' z

/-- The entries with the label are numbered and linked from the first one on. -/
structure EpochRelinked (rt : Runtime) (log : List Doc) (epoch : Int) (first : Doc)
    (rest : List Doc) : Prop where
  genesis : IsStored log 0
  stream : streamEntriesForEpoch log epoch = first :: rest
  numbered : Numbered Doc.sequence (seqKey first) (first :: rest)
  linked : DocLinked rt (prevOf first) (first :: rest)

/-- Something is missing outside the entries with the label: a sequence of the epoch
before the first or after the last of them, or a link to an entry that has another
label. -/
def MissingOutside (log : List Doc) (k : { k : Nat // 0 < k }) (m epoch : Int) (first : Doc)
    (rest : List Doc) : Prop :=
  (∃ z, InEpoch k m epoch z ∧ (z < seqKey first ∨ seqKey first + rest.length < z) ∧
      ¬IsStored log z) ∨
    ∃ d ∈ log, ∃ d' ∈ log, ∃ z, InEpoch k m epoch z ∧ InEpoch k m epoch (z + 1) ∧
      ¬(d.epoch = some epoch ∧ d'.epoch = some epoch) ∧ ¬LinkedAt d d' z

theorem verifyChain_epoch_accepted_iff :
    Accepted (verifyChain rt s (some epoch)) ↔
      ∃ first rest, EpochRelinked rt s.auditLog epoch first rest := by
  cases hgenesis : findSequence s.auditLog 0 with
  | none =>
    rw [verifyChain, hgenesis]
    refine ⟨fun h => absurd h not_accepted_error, ?_⟩
    rintro ⟨first, rest, ⟨d, hd, hz⟩, -⟩
    exact absurd hz (findSequence_eq_none.mp hgenesis d hd)
  | some g =>
    have hg : IsStored s.auditLog 0 := ⟨g, findSequence_eq_some hgenesis⟩
    rw [verifyChain, hgenesis]
    dsimp only
    cases hstream : streamEntriesForEpoch s.auditLog epoch with
    | nil =>
      rw [verifySingleEpoch, hstream]
      refine ⟨fun h => absurd h not_accepted_error, ?_⟩
      rintro ⟨first, rest, h⟩
      rw [h.stream] at hstream
      cases hstream
    | cons first rest =>
      rw [verifySingleEpoch_accepted_iff hstream]
      constructor
      · intro h
        exact ⟨first, rest, hg, hstream, h.1, h.2⟩
      · rintro ⟨first', rest', h⟩
        rw [h.stream] at hstream
        cases hstream
        exact ⟨h.numbered, h.linked⟩

/-- Between the first and the last entry with the label nothing is missing. -/
theorem EpochRelinked.stored {first : Doc} {rest : List Doc}
    (h : EpochRelinked rt log epoch first rest) (hfirst : seqKey first ≤ z)
    (hlast : z ≤ seqKey first + rest.length) : IsStored log z := by
  have hlength : ((first :: rest).length : Int) = rest.length + 1 := by simp
  obtain ⟨d, hd, hz⟩ := (h.numbered.mem_iff z).mpr (by omega)
  rw [← h.stream] at hd
  exact ⟨d, (mem_streamEntriesForEpoch.mp hd).1, hz⟩

theorem EpochRelinked.linkedAt {first : Doc} {rest : List Doc}
    (h : EpochRelinked rt log epoch first rest) {d d' : Doc} (hd : d ∈ log) (hd' : d' ∈ log)
    (hlabel : d.epoch = some epoch ∧ d'.epoch = some epoch) : LinkedAt d d' z := by
  intro hz hz'
  have hmem : d ∈ first :: rest := by
    rw [← h.stream]
    exact mem_streamEntriesForEpoch.mpr ⟨hd, hlabel.1, z, hz⟩
  have hmem' : d' ∈ first :: rest := by
    rw [← h.stream]
    exact mem_streamEntriesForEpoch.mpr ⟨hd', hlabel.2, z + 1, hz'⟩
  obtain ⟨i, hi, rfl⟩ := List.getElem_of_mem hmem
  obtain ⟨j, hj, rfl⟩ := List.getElem_of_mem hmem'
  rw [h.numbered.getElem] at hz hz'
  have hj' : j = i + 1 := by
    have hzi := Option.some.inj hz
    have hzj := Option.some.inj hz'
    omega
  subst hj'
  exact h.linked.getElem_succ i hj

/-- The check of an epoch implies that the epoch is complete exactly when the log is
not one whose entries with the label are relinked while something is missing outside
them. -/
theorem epoch_complete_iff (rt : Runtime) (s : Store) (m epoch : Int) :
    (∀ v, verifyChain rt s (some epoch) = .ok v → v.status = .valid →
      EpochComplete s.auditLog (getEpochSize s) m epoch) ↔
    ¬∃ first rest, EpochRelinked rt s.auditLog epoch first rest ∧
      MissingOutside s.auditLog (getEpochSize s) m epoch first rest := by
  constructor
  · rintro hcomplete ⟨first, rest, hr, hmissing⟩
    obtain ⟨v, hok, hvalid⟩ := verifyChain_epoch_accepted_iff.mpr ⟨first, rest, hr⟩
    have h := hcomplete v hok hvalid
    obtain ⟨z, hz, -, hnot⟩ | ⟨d, hd, d', hd', z, hz, hz', -, hnot⟩ := hmissing
    · exact hnot (h.stored z hz)
    · exact hnot (h.linked d hd d' hd' z hz hz')
  · intro hgood v hok hvalid
    obtain ⟨first, rest, hr⟩ := verifyChain_epoch_accepted_iff.mp ⟨v, hok, hvalid⟩
    constructor
    · intro z hz
      by_contra hnot
      have hout : z < seqKey first ∨ seqKey first + rest.length < z := by
        by_contra hin
        exact hnot (hr.stored (by omega) (by omega))
      exact hgood ⟨first, rest, hr, .inl ⟨z, hz, hout, hnot⟩⟩
    · intro d hd d' hd' z hz hz'
      by_contra hnot
      have hlabel : ¬(d.epoch = some epoch ∧ d'.epoch = some epoch) :=
        fun hlabel => hnot (hr.linkedAt hd hd' hlabel)
      exact hgood ⟨first, rest, hr, .inr ⟨d, hd, d', hd', z, hz, hz', hlabel, hnot⟩⟩

end Epoch

theorem holedStore_epoch_relinked (rt : Runtime) :
    EpochRelinked rt (holedStore rt).auditLog 0 (firstEntry rt) [] := by
  have hsequence := firstEntry_sequence rt
  have hepoch : (firstEntry rt).epoch = some 0 := by
    show (withHash rt (genesisEntry sampleInit) .none).epoch = some 0
    rw [withHash_epoch]
    rfl
  have hepoch2 : (relinkedEntry rt).epoch = some 1 := by
    show (withHash rt _ _).epoch = some 1
    rw [withHash_epoch]
    rfl
  have hok : EntryOk rt (firstEntry rt) := entryOk_genesisEntry rt _ 0
  exact
    { genesis := holedStore_genesis rt
      stream := by
        simp [streamEntriesForEpoch, holedStore, hsequence, hepoch, hepoch2, sortBy]
      numbered := ⟨by rw [seqKey_of hsequence, hsequence], trivial⟩
      linked := ⟨rfl, hok, trivial⟩ }

/-- The missing end of an epoch is not noticed. -/
theorem missing_epoch_end_accepted :
    ¬∀ (rt : Runtime) (s : Store) (m epoch : Int), IsLast s.auditLog m →
      ∀ v, verifyChain rt s (some epoch) = .ok v → v.status = .valid →
        EpochComplete s.auditLog (getEpochSize s) m epoch := by
  intro hclaim
  obtain ⟨v, hok, hvalid⟩ := verifyChain_epoch_accepted_iff.mpr
    ⟨_, _, holedStore_epoch_relinked .tagged⟩
  have h := hclaim .tagged _ 2 0 (holedStore_isLast .tagged) v hok hvalid
  obtain ⟨d, hd, h1⟩ := h.stored 1 ⟨by decide, by decide⟩
  simp only [holedStore, List.mem_cons, List.not_mem_nil, or_false] at hd
  rcases hd with rfl | rfl
  · rw [firstEntry_sequence] at h1
    cases h1
  · rw [relinkedEntry_sequence] at h1
    cases h1

end Sentora.Audit
