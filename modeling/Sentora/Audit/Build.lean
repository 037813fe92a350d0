import Sentora.Audit.Layout

/-!
# Chains the commands build

A store on which the chain was initialised and then only appended to.  The
invariant ties the counter, the stored entries, the marks that are set later and
the epoch arithmetic together; every append keeps it.
-/

namespace Sentora.Audit

open Lib Process

theorem normalizeTimestamp_date (rt : Runtime) (t : DateTime) :
    normalizeTimestamp rt (.date t) = strftimeMillis t := rfl

theorem utc_utcNow (clock : DateTime) : (utcNow clock).utc = utcNow clock := rfl

theorem strftimeMillis_stored {t : DateTime} (h : t.utc = t) :
    strftimeMillis t.stored = strftimeMillis t := by
  have hms : t.microsecond / 1000 * 1000 / 1000 = t.microsecond / 1000 :=
    Nat.mul_div_cancel _ (by omega)
  simp only [strftimeMillis, DateTime.stored, h, DateTime.dateText, DateTime.clockText, hms]

theorem stored_ofOption (v : Option String) : (ofOption v).stored = ofOption v := by
  cases v <;> rfl

theorem covered_stored_chainEntry (rt : Runtime) (a : AppendArgs) (n e : Int) (p q peh : Val)
    (start : Bool) :
    covered rt (chainEntry a n e p start peh).stored q =
      { covered rt (chainEntry a n e p start peh) q with
        details := (Val.dict (a.details.getD [])).stored.toJson } := by
  have ht := strftimeMillis_stored (utc_utcNow a.clock)
  simp only [covered, Doc.stored, Doc.mapVals, chainEntry, get, getOr, Val.stored,
    stored_ofOption, normalizeTimestamp_date, ht, Option.map_some, Option.getD_some]

theorem covered_stored_genesisEntry (rt : Runtime) (a : InitArgs) (q : Val) :
    covered rt (genesisEntry a).stored q = covered rt (genesisEntry a) q := by
  have ht := strftimeMillis_stored (utc_utcNow a.clock)
  simp only [covered, Doc.stored, Doc.mapVals, genesisEntry, get, getOr, Val.stored,
    Val.storedMembers, stored_ofOption, normalizeTimestamp_date, ht, Option.map_some,
    Option.getD_some]

theorem stored_hashRef {p : Val} (hp : HashRef p) : p.stored = p := by
  rcases hp with rfl | ⟨s, rfl⟩ <;> rfl

theorem prevOf_readBack (rt : Runtime) (d : Doc) (p : Val) (oid : Nat) :
    prevOf (readBack (withHash rt d p) oid) = (get d.previousHash).stored := by
  have hread : (readBack (withHash rt d p) oid).previousHash = d.previousHash.map Val.stored := by
    rw [← withHash_previousHash rt d p]
    rfl
  rw [prevOf, hread]
  cases d.previousHash <;> rfl

theorem entryOk_readBack {rt : Runtime} {entry : Doc} {p : Val} {h : String} {oid : Nat}
    (hp : HashRef p) (hprev : entry.previousHash = some p)
    (hh : computeEntryHash rt entry p = .ok h) :
    EntryOk rt (readBack (withHash rt entry p) oid) ↔
      computeEntryHash rt entry.stored p = .ok h := by
  have hread : readBack (withHash rt entry p) oid =
      { entry.stored with oid := oid, hash := some (.str h) } := by
    rw [withHash, hh]
    rfl
  have hprev' : entry.stored.previousHash = some p := by
    rw [Doc.stored, Doc.mapVals, hprev, Option.map_some, stored_hashRef hp]
  have hcompute : ∀ q,
      computeEntryHash rt { entry.stored with oid := oid, hash := some (.str h) } q =
        computeEntryHash rt entry.stored q := fun q => rfl
  rw [hread, EntryOk, prevOf, hashOf, hcompute]
  simp only [hprev', get, Option.getD_some, Val.str.injEq]
  constructor
  · rintro ⟨h', hc, rfl⟩
    exact hc
  · intro hc
    exact ⟨h, hc, rfl⟩

theorem entryOk_chainEntry {rt : Runtime} {a : AppendArgs} {n e : Int} {p peh : Val} {start : Bool}
    {oid : Nat} (hp : HashRef p) (hd : (Val.dict (a.details.getD [])).Stable) :
    EntryOk rt (readBack (withHash rt (chainEntry a n e p start peh) p) oid) := by
  obtain ⟨h, hh⟩ : ∃ h, computeEntryHash rt (chainEntry a n e p start peh) p = .ok h :=
    computeEntryHash_exists rfl rfl
  rw [entryOk_readBack hp rfl hh, ← hh]
  apply computeEntryHash_congr
  rw [covered_stored_chainEntry, hd]
  rfl

theorem stable_of_entryOk {rt : Runtime} (hrt : rt.CollisionFree) {a : AppendArgs} {n e : Int}
    {p peh : Val} {start : Bool} {oid : Nat} (hp : HashRef p)
    (hok : EntryOk rt (readBack (withHash rt (chainEntry a n e p start peh) p) oid)) :
    (Val.dict (a.details.getD [])).Stable := by
  obtain ⟨h, hh⟩ : ∃ h, computeEntryHash rt (chainEntry a n e p start peh) p = .ok h :=
    computeEntryHash_exists rfl rfl
  rw [entryOk_readBack hp rfl hh] at hok
  have hcov := covered_eq_of_computeEntryHash hrt hok hh
  rw [covered_stored_chainEntry] at hcov
  exact congrArg Covered.details hcov

theorem entryOk_genesisEntry (rt : Runtime) (a : InitArgs) (oid : Nat) :
    EntryOk rt (readBack (withHash rt (genesisEntry a) .none) oid) := by
  obtain ⟨h, hh⟩ : ∃ h, computeEntryHash rt (genesisEntry a) .none = .ok h :=
    computeEntryHash_exists rfl rfl
  rw [entryOk_readBack (Or.inl rfl) rfl hh, ← hh]
  exact computeEntryHash_congr (covered_stored_genesisEntry rt a .none)

theorem Verified.hashRef {rt : Runtime} {k : { k : Nat // 0 < k }} {log : List Doc} {m : Int}
    (h : Verified rt k log m) : HashRef (getPreviousHash log (m + 1)) := by
  rw [h.previousHash]
  exact HashRef.lastHash (Or.inl rfl) h.linked.ok_of_mem

theorem Verified.push_nextEntry {rt : Runtime} {s : Store} {m : Int}
    (h : Verified rt (getEpochSize s) s.auditLog m) (hc : s.sequenceCounter = some (m + 1))
    {a : AppendArgs} (hd : (Val.dict (a.details.getD [])).Stable) :
    Verified rt (getEpochSize s) (push (nextEntry rt s a) (prepared s)).auditLog (m + 1) := by
  have hn : nextSequence s = m + 1 := by
    rw [nextSequence, hc]
    rfl
  have hseq := nextEntry_sequence rt s a
  have href : HashRef (getPreviousHash s.auditLog (nextSequence s)) := by
    rw [hn]
    exact h.hashRef
  rw [hn, ← readBack_sequence _ (prepared s).nextOid] at hseq
  apply h.grow (untouched_closeMark s) hseq
  · have hprev : prevOf (readBack (nextEntry rt s a) (prepared s).nextOid) =
        (getPreviousHash s.auditLog (nextSequence s)).stored := prevOf_readBack rt _ _ _
    rw [hprev, stored_hashRef href, hn]
  · exact entryOk_chainEntry href hd

/-- The chain on a store holds the sequences `0` to `n` and nothing else, in
epochs of `k`. -/
structure Built (rt : Runtime) (k n : Nat) (s : Store) : Prop where
  pos : 0 < k
  epochSize : s.epochSize = some k
  layout : Sequenced s (n + 1)
  nextOid : s.nextOid = n + 1
  oids : ∀ d ∈ s.auditLog, d.sequence = some (d.oid : Int)
  epochs : InEpochs ⟨k, pos⟩ s.auditLog
  fields : ∀ d ∈ s.auditLog, (∃ t : DateTime, d.timestamp = some (.date t)) ∧ d.extra = []
  ends : ∀ d ∈ s.auditLog, ∀ z, d.sequence = some z →
    d.isEpochEnd = some (.bool (decide (z < n) && decide ((z + 1) % k = 0)))
  starts : ∀ d ∈ s.auditLog, ∀ e ∈ s.auditLog, ∀ z, d.sequence = some z →
    e.sequence = some (z + 1) → (z + 1) % k = 0 → e.previousEpochHash = some (hashOf d)
  verified : Verified rt ⟨k, pos⟩ s.auditLog n

section Step

variable {rt : Runtime} {k n : Nat} {s : Store}

theorem Built.getEpochSize_eq (h : Built rt k n s) : getEpochSize s = ⟨k, h.pos⟩ := by
  obtain ⟨k', hk'⟩ : ∃ k', k = k' + 1 := ⟨k - 1, by have := h.pos; omega⟩
  subst hk'
  rw [getEpochSize, h.epochSize]

theorem Built.nextSequence_eq (h : Built rt k n s) : nextSequence s = n + 1 := h.layout.next

theorem Built.length (h : Built rt k n s) : s.auditLog.length = n + 1 := h.layout.length

theorem Built.numbered (h : Built rt k n s) : Numbered Doc.sequence 0 s.auditLog :=
  h.layout.numbered

theorem Built.counter (h : Built rt k n s) : s.sequenceCounter = some ((n : Int) + 1) := by
  have hnext := h.nextSequence_eq
  rw [nextSequence] at hnext
  cases hc : s.sequenceCounter with
  | none =>
    rw [hc, Option.getD_none] at hnext
    omega
  | some c =>
    rw [hc, Option.getD_some] at hnext
    rw [hnext]

theorem Built.bounds (h : Built rt k n s) {d : Doc} (hd : d ∈ s.auditLog) :
    ∃ z, d.sequence = some z ∧ 0 ≤ z ∧ z ≤ n := by
  obtain ⟨z, hz, hlo, hhi⟩ := h.layout.bounds hd
  exact ⟨z, hz, hlo, by omega⟩

theorem Built.linked (h : Built rt k n s) : DocLinked rt .none s.auditLog := by
  have hl := h.verified.linked
  rw [h.layout.stream_eq] at hl
  exact hl

/-- The append closes the entry before its own where it opens an epoch. -/
theorem Built.closing_eq (h : Built rt k n s) :
    (((n : Int) + 1) % k ≠ 0 ∧ closing s = none) ∨
      (((n : Int) + 1) % k = 0 ∧ ∃ last ∈ s.auditLog, last.sequence = some (n : Int) ∧
        closing s = some last) := by
  have hk := h.pos
  by_cases hmod : ((n : Int) + 1) % k = 0
  · refine Or.inr ⟨hmod, ?_⟩
    have hopen : opensEpoch (nextSequence s) (getEpochSize s) = true := by
      rw [h.nextSequence_eq, h.getEpochSize_eq, opensEpoch]
      simp only [Bool.and_eq_true, decide_eq_true_eq]
      exact ⟨by omega, hmod⟩
    have hprev : nextEpoch s - 1 = (n : Int) / k := by
      obtain ⟨q, hq⟩ : (k : Int) ∣ n + 1 := Int.dvd_of_emod_eq_zero hmod
      rw [nextEpoch, h.nextSequence_eq, h.getEpochSize_eq, hq,
        Int.mul_ediv_cancel_left q (by omega : (k : Int) ≠ 0),
        show (n : Int) = (k - 1) + k * (q - 1) by rw [Int.mul_sub, ← hq]; omega,
        Int.add_mul_ediv_left _ _ (by omega : (k : Int) ≠ 0),
        Int.ediv_eq_zero_of_lt (by omega) (by omega)]
      omega
    obtain ⟨last, hlast, hn⟩ := (h.numbered.mem_iff (n : Int)).mpr
      ⟨by omega, by rw [h.length]; omega⟩
    have hepoch := h.epochs last hlast n hn
    cases hb : getEpochBoundaryEntry s.auditLog (nextEpoch s - 1) true with
    | none =>
      rw [hprev] at hb
      exact absurd hb (boundary_ne_none hlast hepoch hn)
    | some d =>
      obtain ⟨hd, -, hdz, hmax⟩ := boundary_eq_some hb
      have hge := hmax last hlast (by rw [hprev]; exact hepoch) n hn
      obtain ⟨z, hz, -, hle⟩ := h.bounds hd
      rw [hdz] at hz
      cases hz
      have heq : seqKey d = n := by omega
      rw [heq] at hdz
      exact ⟨d, hd, hdz, by rw [closing, if_pos hopen, hb]⟩
  · refine Or.inl ⟨hmod, ?_⟩
    have hopen : ¬opensEpoch (nextSequence s) (getEpochSize s) = true := by
      rw [h.nextSequence_eq, h.getEpochSize_eq, opensEpoch]
      simp only [Bool.and_eq_true, decide_eq_true_eq]
      exact fun hb => hmod hb.2
    rw [closing, if_neg hopen]

theorem nextEntry_eq (rt : Runtime) (s : Store) (a : AppendArgs) :
    ∃ hash, nextEntry rt s a =
      { chainEntry a (nextSequence s) (nextEpoch s)
          (getPreviousHash s.auditLog (nextSequence s))
          (opensEpoch (nextSequence s) (getEpochSize s))
          (match closing s with
            | some last => get last.hash
            | none => .none) with hash := hash } := by
  rw [nextEntry, withHash]
  split
  · exact ⟨_, rfl⟩
  · exact ⟨_, rfl⟩

theorem Built.closeMark_isEpochEnd (h : Built rt k n s) {d : Doc} (hd : d ∈ s.auditLog) {z : Int}
    (hz : d.sequence = some z) :
    (closeMark s d).isEpochEnd =
      some (.bool (decide (z < n + 1) && decide ((z + 1) % k = 0))) := by
  obtain ⟨z', hz', -, hle⟩ := h.bounds hd
  have hzn : z ≤ n := by
    rw [hz] at hz'
    cases hz'
    exact hle
  have hold := h.ends d hd z hz
  rcases h.closing_eq with ⟨hmod, hc⟩ | ⟨hmod, last, hlast, hn, hc⟩
  · simp only [closeMark, hc, hold]
    by_cases hlt : z < n
    · simp [hlt, (by omega : z < (n : Int) + 1)]
    · have heq : z = n := by omega
      subst heq
      simp [hmod]
  · have hoid : d.oid = last.oid ↔ z = n := by
      have h1 := h.oids d hd
      have h2 := h.oids last hlast
      rw [hz] at h1
      rw [hn] at h2
      have h3 := Option.some.inj h1
      have h4 := Option.some.inj h2
      omega
    by_cases heq : z = n
    · have hmark : (closeMark s d).isEpochEnd = some (.bool true) := by
        simp only [closeMark, hc, markOid, hoid.mpr heq, if_true, setEpochEnd]
      rw [hmark, heq]
      simp [hmod, (by omega : (n : Int) < n + 1)]
    · have hne : ¬d.oid = last.oid := fun ho => heq (hoid.mp ho)
      have hlt : z < n := by omega
      simp only [closeMark, hc, markOid, hne, if_false, hold]
      simp [hlt, (by omega : z < (n : Int) + 1)]

theorem closeMark_timestamp (s : Store) (d : Doc) : (closeMark s d).timestamp = d.timestamp := by
  obtain ⟨mark, h⟩ := closeMark_eq s d
  rw [h]

theorem closeMark_extra (s : Store) (d : Doc) : (closeMark s d).extra = d.extra := by
  obtain ⟨mark, h⟩ := closeMark_eq s d
  rw [h]

theorem closeMark_previousEpochHash (s : Store) (d : Doc) :
    (closeMark s d).previousEpochHash = d.previousEpochHash := by
  obtain ⟨mark, h⟩ := closeMark_eq s d
  rw [h]

theorem Built.mem_push (h : Built rt k n s) {entry d : Doc}
    (hd : d ∈ (push entry (prepared s)).auditLog) :
    (∃ e ∈ s.auditLog, closeMark s e = d) ∨ d = readBack entry (n + 1) := by
  rw [← h.nextOid]
  exact mem_push_prepared hd

theorem Built.new_sequence (h : Built rt k n s) (a : AppendArgs) :
    (readBack (nextEntry rt s a) (n + 1)).sequence = some ((n : Int) + 1) := by
  rw [readBack_sequence, nextEntry_sequence, h.nextSequence_eq]

theorem Built.push_ends (h : Built rt k n s) (a : AppendArgs) :
    ∀ d ∈ (push (nextEntry rt s a) (prepared s)).auditLog, ∀ z, d.sequence = some z →
      d.isEpochEnd = some (.bool (decide (z < n + 1) && decide ((z + 1) % k = 0))) := by
  intro d hd z hz
  rcases h.mem_push hd with hold | hnew
  · obtain ⟨e, he, heq⟩ := hold
    rw [← heq] at hz ⊢
    rw [(untouched_closeMark s).sequence] at hz
    exact h.closeMark_isEpochEnd he hz
  · obtain ⟨hash, hentry⟩ := nextEntry_eq rt s a
    rw [hnew, h.new_sequence a] at hz
    rw [← Option.some.inj hz, hnew, hentry]
    show some (Val.bool false) = _
    simp

theorem Built.new_previousEpochHash (h : Built rt k n s) (a : AppendArgs) {d : Doc}
    (hd : d ∈ s.auditLog) (hz : d.sequence = some (n : Int)) (hmod : ((n : Int) + 1) % k = 0) :
    (readBack (nextEntry rt s a) (n + 1)).previousEpochHash = some (hashOf d) := by
  obtain ⟨hash, hentry⟩ := nextEntry_eq rt s a
  rcases h.closing_eq with hne | hopens
  · exact absurd hmod hne.1
  · obtain ⟨-, last, hlast, hlastn, hc⟩ := hopens
    have hsame : last = d := h.numbered.eq_of_num_eq hlast hd (hlastn.trans hz.symm)
    have hstored := stored_hashRef (h.linked.ok_of_mem d hd).hashRef
    rw [hentry, hc, hsame]
    show some (get d.hash).stored = _
    exact congrArg some hstored

theorem Built.push_starts (h : Built rt k n s) (a : AppendArgs) :
    ∀ d ∈ (push (nextEntry rt s a) (prepared s)).auditLog,
      ∀ e ∈ (push (nextEntry rt s a) (prepared s)).auditLog, ∀ z, d.sequence = some z →
        e.sequence = some (z + 1) → (z + 1) % k = 0 → e.previousEpochHash = some (hashOf d) := by
  intro d hd e he z hdz hez hmod
  have hf := untouched_closeMark s
  have hbelow : ∀ x ∈ (push (nextEntry rt s a) (prepared s)).auditLog, ∀ y,
      x.sequence = some y → y ≤ n + 1 := by
    intro x hx y hy
    have := ((h.layout.push_nextEntry rt a).below hx hy).2
    omega
  rcases h.mem_push hd with hold | hnew
  · obtain ⟨d', hd', heq⟩ := hold
    rw [← heq, hf.sequence] at hdz
    have hash_eq : hashOf d = hashOf d' := by
      rw [← heq, hashOf, hashOf, hf.hash]
    rw [hash_eq]
    rcases h.mem_push he with hold | hnew
    · obtain ⟨e', he', heq'⟩ := hold
      rw [← heq', hf.sequence] at hez
      rw [← heq', closeMark_previousEpochHash]
      exact h.starts d' hd' e' he' z hdz hez hmod
    · rw [hnew, h.new_sequence a] at hez
      have hzn : z = n := by
        have := Option.some.inj hez
        omega
      rw [hzn] at hdz hmod
      rw [hnew]
      exact h.new_previousEpochHash a hd' hdz hmod
  · -- no entry follows the new one
    rw [hnew, h.new_sequence a] at hdz
    have hzn := Option.some.inj hdz
    have := hbelow e he _ hez
    omega

theorem Built.push_nextEntry (h : Built rt k n s) {a : AppendArgs}
    (hd : (Val.dict (a.details.getD [])).Stable) :
    Built rt k (n + 1) (push (nextEntry rt s a) (prepared s)) := by
  have hcount : (((n + 1 : Nat) : Int)) = (n : Int) + 1 := by omega
  refine ⟨h.pos, h.epochSize, h.layout.push_nextEntry rt a, ?_, ?_, ?_, ?_, ?_,
    h.push_starts a, ?_⟩
  · show s.nextOid + 1 = _
    rw [h.nextOid]
  · intro d hd
    rcases h.mem_push hd with hold | hnew
    · obtain ⟨e, he, heq⟩ := hold
      rw [← heq, (untouched_closeMark s).sequence, closeMark_oid]
      exact h.oids e he
    · rw [hnew, h.new_sequence a]
      rfl
  · have hin : InEpochs (getEpochSize s) s.auditLog := by
      rw [h.getEpochSize_eq]
      exact h.epochs
    have hgrow := hin.push_nextEntry rt a
    rw [h.getEpochSize_eq] at hgrow
    exact hgrow
  · intro d hd
    rcases h.mem_push hd with hold | hnew
    · obtain ⟨e, he, heq⟩ := hold
      rw [← heq, closeMark_timestamp, closeMark_extra]
      exact h.fields e he
    · obtain ⟨hash, hentry⟩ := nextEntry_eq rt s a
      rw [hnew, hentry]
      exact ⟨⟨_, rfl⟩, rfl⟩
  · rw [hcount]
    exact h.push_ends a
  · have hv : Verified rt (getEpochSize s) s.auditLog n := by
      rw [h.getEpochSize_eq]
      exact h.verified
    have hgrow := hv.push_nextEntry h.counter hd
    rw [h.getEpochSize_eq] at hgrow
    rw [hcount]
    exact hgrow

end Step

theorem built_init (rt : Runtime) (a : InitArgs) (hk : 1 ≤ a.epochSize) :
    Built rt a.epochSize 0 ((initializeChain rt a).run Store.empty).1 := by
  have hseqd := sequenced_initialize_nil rt a sequenced_empty.nil
  rw [initialize_nil a rfl] at hseqd ⊢
  obtain ⟨hash, hg⟩ : ∃ hash,
      genesisDoc rt a 0 = readBack { genesisEntry a with hash := hash } 0 := by
    rw [genesisDoc, withHash]
    split
    · exact ⟨_, rfl⟩
    · exact ⟨_, rfl⟩
  have hok : EntryOk rt (genesisDoc rt a 0) := entryOk_genesisEntry rt a 0
  have hseq := genesisDoc_sequence rt a 0
  have hepoch := genesisDoc_epoch rt a 0
  have hall : ∀ d ∈ [genesisDoc rt a 0], d = genesisDoc rt a 0 :=
    fun d h => List.mem_singleton.mp h
  refine ⟨hk, rfl, hseqd, rfl, ?_, ?_, ?_, ?_, ?_, ?_⟩
  · intro d h
    rw [hall d h, hseq, hg]
    rfl
  · intro d h z hz
    rw [hall d h, hseq] at hz
    cases hz
    rw [hall d h, hepoch, Int.zero_ediv]
  · intro d h
    rw [hall d h, hg]
    exact ⟨⟨_, rfl⟩, rfl⟩
  · intro d h z hz
    rw [hall d h, hseq] at hz
    cases hz
    rw [hall d h, hg]
    rfl
  · intro d h e he z hdz hez
    rw [hall d h, hseq] at hdz
    rw [hall e he, hseq] at hez
    cases hdz
    cases hez
  · have hprev : prevOf (genesisDoc rt a 0) = .none := by
      rw [hg]
      rfl
    exact verified_singleton hseq hprev hok

/-- Details built from JSON types only. -/
def AppendArgs.PlainDetails (a : AppendArgs) : Prop :=
  (Val.dict (a.details.getD [])).plain = true

theorem Built.appendAll {rt : Runtime} {k n : Nat} {s : Store} (h : Built rt k n s)
    {as : List AppendArgs} (has : ∀ a ∈ as, a.PlainDetails) :
    Built rt k (n + as.length) ((appendAll rt healthy as).run s).1 := by
  induction as generalizing n s with
  | nil => exact h
  | cons a as ih =>
    have hstep := h.push_nextEntry (Val.stable_of_plain (has a List.mem_cons_self))
    have hrec := ih hstep (fun b hb => has b (List.mem_cons_of_mem a hb))
    have hlen : n + (a :: as).length = n + 1 + as.length := by
      rw [List.length_cons]
      omega
    rw [hlen]
    simpa [Audit.appendAll, append_healthy a h.layout.sequence_free] using hrec

def buildChain (rt : Runtime) (init : InitArgs) (as : List AppendArgs) : Store :=
  ((appendAll rt healthy as).run ((initializeChain rt init).run Store.empty).1).1

theorem built_buildChain (rt : Runtime) (init : InitArgs) (hk : 1 ≤ init.epochSize)
    {as : List AppendArgs} (has : ∀ a ∈ as, a.PlainDetails) :
    Built rt init.epochSize as.length (buildChain rt init as) := by
  have h := (built_init rt init hk).appendAll has
  rw [Nat.zero_add] at h
  exact h

section Shape

variable {rt : Runtime} {k n : Nat} {s : Store}

theorem Built.getElem_sequence (h : Built rt k n s) (i : Nat) (hi : i < s.auditLog.length) :
    s.auditLog[i].sequence = some (i : Int) := by
  have hseq := h.numbered.getElem i hi
  rw [hseq]
  congr 1
  omega

theorem Built.getElem_epoch (h : Built rt k n s) (i : Nat) (hi : i < s.auditLog.length) :
    s.auditLog[i].epoch = some ((i : Int) / k) :=
  h.epochs _ (List.getElem_mem hi) _ (h.getElem_sequence i hi)

theorem Built.epoch_ne_iff (h : Built rt k n s) (i : Nat) (hi : i + 1 < s.auditLog.length) :
    s.auditLog[i + 1].epoch ≠ s.auditLog[i].epoch ↔ ((i : Int) + 1) % k = 0 := by
  have hk := h.pos
  rw [h.getElem_epoch (i + 1) hi, h.getElem_epoch i (by omega)]
  have hdiv : ((i + 1 : Nat) : Int) / k = (((i + 1) / k : Nat) : Int) := (Int.natCast_ediv _ _).symm
  have hdiv' : (i : Int) / k = ((i / k : Nat) : Int) := (Int.natCast_ediv _ _).symm
  have hmod : ((i : Int) + 1) % k = (((i + 1) % k : Nat) : Int) := (Int.natCast_emod _ _).symm
  rw [hdiv, hdiv', hmod, Nat.succ_div]
  by_cases hd : k ∣ i + 1
  · have := Nat.mod_eq_zero_of_dvd hd
    simp only [hd, if_true, ne_eq, Option.some.injEq]
    omega
  · have : (i + 1) % k ≠ 0 := fun h0 => hd (Nat.dvd_of_mod_eq_zero h0)
    simp only [hd, if_false, ne_eq, Option.some.injEq]
    omega

/-- The mark stands on the entries whose successor opens a new epoch. -/
theorem Built.getElem_isEpochEnd_iff (h : Built rt k n s) (i : Nat) (hi : i < s.auditLog.length) :
    s.auditLog[i].isEpochEnd = some (.bool true) ↔
      ∃ hn : i + 1 < s.auditLog.length, s.auditLog[i + 1].epoch ≠ s.auditLog[i].epoch := by
  have hlen := h.length
  have hend := h.ends _ (List.getElem_mem hi) _ (h.getElem_sequence i hi)
  have htrue : s.auditLog[i].isEpochEnd = some (.bool true) ↔
      (i : Int) < n ∧ ((i : Int) + 1) % k = 0 := by
    rw [hend]
    simp
  rw [htrue]
  constructor
  · intro hmark
    have hn : i + 1 < s.auditLog.length := by omega
    exact ⟨hn, (h.epoch_ne_iff i hn).mpr hmark.2⟩
  · intro hopen
    obtain ⟨hn, hne⟩ := hopen
    exact ⟨by omega, (h.epoch_ne_iff i hn).mp hne⟩

theorem Built.getElem_isEpochEnd (h : Built rt k n s) (i : Nat) (hi : i < s.auditLog.length) :
    s.auditLog[i].isEpochEnd = some (.bool true) ∨
      s.auditLog[i].isEpochEnd = some (.bool false) := by
  rw [h.ends _ (List.getElem_mem hi) _ (h.getElem_sequence i hi)]
  cases decide ((i : Int) < n) && decide (((i : Int) + 1) % k = 0) with
  | true => exact Or.inl rfl
  | false => exact Or.inr rfl

theorem Built.getElem_prev (h : Built rt k n s) (i : Nat) (hi : i + 1 < s.auditLog.length) :
    prevOf s.auditLog[i + 1] = hashOf s.auditLog[i] :=
  h.linked.getElem_succ i hi

theorem Built.isLast (h : Built rt k n s) : IsLast s.auditLog n := h.verified.last

theorem Built.accepted (h : Built rt k n s) : Accepted (verifyChain rt s none) := by
  rw [verifyChain_accepted_iff h.isLast, h.getEpochSize_eq]
  exact h.verified

theorem Built.exists_epoch (h : Built rt k n s) {e : Nat} (he : e ≤ n / k) :
    ∃ d ∈ streamEntriesForEpoch s.auditLog e, d ∈ s.auditLog ∧ d.epoch = some (e : Int) := by
  have hk := h.pos
  have hle : e * k ≤ n := (Nat.le_div_iff_mul_le hk).mp he
  have hlo : (0 : Int) ≤ ((e * k : Nat) : Int) := by omega
  have hhi : ((e * k : Nat) : Int) < ((n + 1 : Nat) : Int) := by omega
  obtain ⟨d, hd, hz⟩ := h.layout.exists_sequence hlo hhi
  have hepoch : d.epoch = some (e : Int) := by
    rw [h.epochs d hd _ hz, Int.natCast_mul]
    exact congrArg some (Int.mul_ediv_cancel _ (by omega : (k : Int) ≠ 0))
  exact ⟨d, mem_streamEntriesForEpoch.mpr ⟨hd, hepoch, _, hz⟩, hd, hepoch⟩

theorem Built.epoch_accepted (h : Built rt k n s) (e : Nat) (he : e ≤ n / k) :
    Accepted (verifyChain rt s (some e)) := by
  obtain ⟨d, -, hd, hepoch⟩ := h.exists_epoch he
  exact h.layout.epoch_accepted h.epochs h.linked hd hepoch

end Shape

/-- Appending to a fresh chain stores the sequences in order, divided into
epochs and linked, and both verifications accept the result. -/
theorem buildChain_verified (rt : Runtime) (init : InitArgs) (hk : 1 ≤ init.epochSize)
    (as : List AppendArgs) (has : ∀ a ∈ as, a.PlainDetails) :
    let s := buildChain rt init as
    let log := s.auditLog
    log.map Doc.sequence = (List.range (as.length + 1)).map (fun i : Nat => some (i : Int)) ∧
      (∀ i (hi : i < log.length), log[i].epoch = some ((i : Int) / init.epochSize)) ∧
      (∀ h0 : 0 < log.length, get log[0].previousHash = .none) ∧
      (∀ i (hi : i + 1 < log.length), get log[i + 1].previousHash = get log[i].hash) ∧
      (∀ i (hi : i < log.length), log[i].isEpochEnd = some (.bool true) ↔
        ∃ hn : i + 1 < log.length, log[i + 1].epoch ≠ log[i].epoch) ∧
      (∀ i (hi : i < log.length), log[i].isEpochEnd = some (.bool true) ∨
        log[i].isEpochEnd = some (.bool false)) ∧
      (∀ i (hi : i + 1 < log.length), log[i + 1].epoch ≠ log[i].epoch →
        log[i + 1].previousEpochHash = some (get log[i].hash)) ∧
      (∃ v, verifyChain rt s none = .ok v ∧ v.status = .valid ∧
        v.verifiedEntries = as.length + 1) ∧
      ∀ e : Nat, e ≤ as.length / init.epochSize → Accepted (verifyChain rt s (some e)) := by
  have h := built_buildChain rt init hk has
  intro s log
  have hlen : log.length = as.length + 1 := h.length
  refine ⟨?_, ?_, ?_, ?_, ?_, ?_, ?_, ?_, ?_⟩
  · apply List.ext_getElem
    · simp [hlen]
    · intro i hi _
      rw [List.length_map] at hi
      simpa using h.getElem_sequence i hi
  · exact fun i hi => h.getElem_epoch i hi
  · exact fun h0 => h.linked.getElem_zero h0
  · exact fun i hi => h.getElem_prev i hi
  · exact fun i hi => h.getElem_isEpochEnd_iff i hi
  · exact fun i hi => h.getElem_isEpochEnd i hi
  · intro i hi hne
    have hmod := (h.epoch_ne_iff i hi).mp hne
    exact h.starts _ (List.getElem_mem _) _ (List.getElem_mem hi) i
      (h.getElem_sequence i (Nat.lt_of_succ_lt hi)) (h.getElem_sequence (i + 1) hi) hmod
  · obtain ⟨v, hv, hs⟩ := h.accepted
    refine ⟨v, hv, hs, ?_⟩
    rw [(verifyChain_entries h.isLast hv hs).1, h.layout.stream_eq]
    exact hlen
  · exact fun e he => h.epoch_accepted e he

def sampleClock : DateTime := ⟨2026, 3, 4, 5, 6, 7, 891234, none⟩

def sampleInit : InitArgs := { epochSize := 2, clock := sampleClock }

/-- An append with details, made at `sampleClock`. -/
def sampleAppend : AppendArgs :=
  { domain := "sync", action := "sync.run", summary := "ran", details := some [("n", .int 1)]
    clock := sampleClock }

theorem samples_plain : ∀ a ∈ [sampleAppend, sampleAppend], a.PlainDetails := by
  intro a ha
  simp only [List.mem_cons, List.not_mem_nil, or_false, or_self] at ha
  rw [ha]
  rfl

/-- The second of two epochs of a chain of three. -/
theorem buildChain_verified_second_epoch :
    Accepted (verifyChain .tagged (buildChain .tagged sampleInit
      [sampleAppend, sampleAppend]) (some (1 : Nat))) := by
  have h := buildChain_verified .tagged sampleInit (by decide)
    [sampleAppend, sampleAppend] samples_plain
  exact h.2.2.2.2.2.2.2.2 1 (by decide)

theorem built_genesis : Built .tagged 2 0 (buildChain .tagged sampleInit []) :=
  built_buildChain .tagged sampleInit (by decide) (List.forall_mem_nil _)

end Sentora.Audit
