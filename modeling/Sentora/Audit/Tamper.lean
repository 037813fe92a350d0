import Sentora.Audit.Build

/-!
# What full verification tells about a log

Two questions about a log of any content that full verification accepts: whether
a sequence can be missing from it, and whether its last hash fixes its entries.

The verifier checks the entries a range query returns, so a batch that stops
short is noticed only through the link of the next entry, and an entry below
sequence 0 is never read.
-/

namespace Sentora.Audit

open Lib

section Missing

variable {rt : Runtime} {log : List Doc} {k : { k : Nat // 0 < k }} {m : Int}

end Missing

def firstEntry (rt : Runtime) : Doc :=
  readBack (withHash rt (genesisEntry sampleInit) .none) 0

def relinkedEntry (rt : Runtime) : Doc :=
  readBack (withHash rt (chainEntry sampleAppend 2 1 (hashOf (firstEntry rt)) true .none)
    (hashOf (firstEntry rt))) 2

def holedStore (rt : Runtime) : Store :=
  { auditLog := [firstEntry rt, relinkedEntry rt]
    nextOid := 3
    sequenceCounter := some 3
    epochSize := some 2
    exportedEpochs := [] }

theorem firstEntry_sequence (rt : Runtime) : (firstEntry rt).sequence = some 0 := by
  rw [firstEntry, readBack_sequence, withHash_sequence]
  rfl

theorem relinkedEntry_sequence (rt : Runtime) : (relinkedEntry rt).sequence = some 2 := by
  rw [relinkedEntry, readBack_sequence, withHash_sequence]
  rfl

theorem holedStore_isLast (rt : Runtime) : IsLast (holedStore rt).auditLog 2 := by
  have h0 := firstEntry_sequence rt
  have h2 := relinkedEntry_sequence rt
  refine ⟨⟨relinkedEntry rt, by simp [holedStore], h2⟩, ?_⟩
  intro d hd z hz
  simp only [holedStore, List.mem_cons, List.not_mem_nil, or_false] at hd
  rcases hd with rfl | rfl
  · rw [h0] at hz
    have := Option.some.inj hz
    omega
  · rw [h2] at hz
    have := Option.some.inj hz
    omega

theorem holedStore_genesis (rt : Runtime) :
    ∃ d ∈ (holedStore rt).auditLog, d.sequence = some 0 :=
  ⟨firstEntry rt, by simp [holedStore], firstEntry_sequence rt⟩

section Head

variable {rt : Runtime}

end Head

end Sentora.Audit
