import Sentora.Audit.Build
import Sentora.Audit.Verifier

/-!
# Epoch exports

`export_epoch`, the file the router writes from it, and what the air-gapped
verifier makes of that file.

The server hashes the entries as they come from the database, with a datetime in
each that `default=str` writes with a blank.  The file has the same datetime in
ISO form, with a `T`, and that is what the verifier hashes.
-/

namespace Sentora.Audit

open Lib

structure EpochExport where
  metadata : List (String × Val)
  entries : List Doc

structure ExportArgs where
  exportedBy : String := "system"
  tenantId : Option String := none
  tenantName : Option String := none
  sentoraVersion : String := "1.1.0"
  clock : DateTime

/-- `ts.isoformat() if hasattr(ts, "isoformat") else str(ts)`. -/
def isoOrStr (rt : Runtime) : Val → String
  | .date t => t.isoformat
  | v => pyStr rt v

/-- A copy of the entry with its timestamp in ISO form. -/
def serialiseEntry (entry : Doc) : Doc :=
  match entry.timestamp with
  | some (.date t) => { entry with timestamp := some (.str t.isoformat) }
  | _ => entry

def exportMetadata (rt : Runtime) (epochSize : Nat) (epoch : Int) (a : ExportArgs)
    (entries : List Doc) (first last : Doc) (firstTimestamp lastTimestamp : Val) :
    List (String × Val) := [
  ("sentora_version", .str a.sentoraVersion),
  ("tenant_id", ofOption a.tenantId),
  ("tenant_name", ofOption a.tenantName),
  ("epoch", .int epoch),
  ("epoch_size", .int epochSize),
  ("first_sequence", .int (seqKey first)),
  ("last_sequence", .int (seqKey last)),
  ("first_timestamp", .str (isoOrStr rt firstTimestamp)),
  ("last_timestamp", .str (isoOrStr rt lastTimestamp)),
  ("entry_count", .int entries.length),
  ("previous_epoch_hash", get first.previousEpochHash),
  ("epoch_final_hash", getOr last.hash (.str "")),
  ("exported_at", .str (utcNow a.clock).isoformat),
  ("exported_by", .str a.exportedBy),
  ("chain_algorithm", .str chainAlgorithm),
  ("export_hash", .str (computeExportHash rt entries))]

/-- Whether the latest entry belongs to the epoch. -/
def inProgress (log : List Doc) (epoch : Int) : Bool :=
  match getLatestChainedEntry log with
  | none => false
  | some latest => latest.epoch == some epoch

/-- `export_epoch`, with the store after it. -/
def exportEpoch (rt : Runtime) (s : Store) (epoch : Int) (a : ExportArgs) :
    Except ChainError (EpochExport × Store) :=
  match streamEntriesForEpoch s.auditLog epoch with
  | [] => .error (.epochNotFound epoch)
  | first :: rest =>
    let entries := first :: rest
    let last := entries.getLast (List.cons_ne_nil first rest)
    if !(get last.isEpochEnd).truthy && inProgress s.auditLog epoch then
      .error (.epochNotComplete epoch entries.length)
    else
      match first.timestamp, last.timestamp with
      | some firstTimestamp, some lastTimestamp => .ok (
          { metadata := exportMetadata rt (getEpochSize s).val epoch a entries first last
              firstTimestamp lastTimestamp
            entries := entries.map serialiseEntry },
          markEpochExported epoch s)
      | _, _ => .error (.keyError "timestamp")

/-- The export as the verifier loads it: written with `default=str` and read
back. -/
def exportedFile (x : EpochExport) : EpochFile :=
  ⟨x.metadata.map (fun kv => (kv.1, kv.2.reloaded)), x.entries.map Doc.reloaded⟩

theorem getKey_reloaded (metadata : List (String × Val)) (key : String) :
    getKey (metadata.map (fun kv => (kv.1, kv.2.reloaded))) key =
      (getKey metadata key).reloaded := by
  induction metadata with
  | nil => rfl
  | cons kv kvs ih =>
    rw [getKey, getKey] at ih
    rw [getKey, getKey, List.map_cons, List.lookup_cons, List.lookup_cons]
    cases key == kv.1 with
    | true => rfl
    | false => exact ih

theorem isoText_ne (t : DateTime) : t.str ≠ t.isoformat := by
  intro h
  have hl := congrArg String.toList h
  simp only [DateTime.str, DateTime.isoformat, DateTime.isoText, String.toList_ofList] at hl
  have htail := List.append_cancel_left hl
  exact absurd (List.cons.inj htail).1 (by decide)

theorem mem_toJsonMembers {kvs : List (String × Val)} {k : String} {j : Json} :
    (k, j) ∈ Val.toJsonMembers kvs ↔ ∃ v, (k, v) ∈ kvs ∧ v.toJson = j := by
  induction kvs with
  | nil => simp [Val.toJsonMembers]
  | cons kv kvs ih =>
    obtain ⟨l, w⟩ := kv
    simp only [Val.toJsonMembers, List.mem_cons, Prod.mk.injEq, ih]
    constructor
    · rintro (⟨rfl, rfl⟩ | ⟨v, hv, hj⟩)
      · exact ⟨w, Or.inl ⟨rfl, rfl⟩, rfl⟩
      · exact ⟨v, Or.inr hv, hj⟩
    · rintro ⟨v, ⟨rfl, rfl⟩ | hv, hj⟩
      · exact Or.inl ⟨rfl, hj.symm⟩
      · exact Or.inr ⟨v, hv, hj⟩

theorem mem_field {key k : String} {v : Option Val} {w : Val} :
    (k, w) ∈ Doc.field key v ↔ k = key ∧ v = some w := by
  cases v with
  | none => simp [Doc.field]
  | some v => simp [Doc.field, eq_comm]

theorem timestamp_mem_toDict {d : Doc} (hx : d.extra = []) {v : Val} :
    ("timestamp", v) ∈ d.toDict ↔ d.timestamp = some v := by
  simp only [Doc.toDict, hx, List.append_nil, List.mem_append, mem_field]
  simp

theorem exportHash_ne {rt : Runtime} (hrt : rt.CollisionFree) {d : Doc} {ds : List Doc}
    {t : DateTime} (ht : d.timestamp = some (.date t)) (hx : d.extra = []) :
    computeExportHash rt (((d :: ds).map serialiseEntry).map Doc.reloaded) ≠
      computeExportHash rt (d :: ds) := by
  intro h
  have htexts := congrArg String.toList (hrt.injective h)
  simp only [List.map_cons, String.join_cons, String.toList_append, canonical, Val.toJson,
    Json.encode, String.toList_ofList] at htexts
  -- the first objects are equal, so they have the same timestamp member
  obtain ⟨hfirst, -⟩ := enc_obj_append_inj htexts
  have hmem : ("timestamp", Json.str t.str) ∈ Val.toJsonMembers d.toDict :=
    mem_toJsonMembers.mpr ⟨.date t, (timestamp_mem_toDict hx).mpr ht, rfl⟩
  have hmem' : ("timestamp", Json.str t.str) ∈
      Val.toJsonMembers (serialiseEntry d).reloaded.toDict := by
    have hsorted := (perm_sortBy Prod.fst (Val.toJsonMembers d.toDict)).symm.subset hmem
    rw [← hfirst] at hsorted
    exact (perm_sortBy Prod.fst _).subset hsorted
  obtain ⟨v, hv, hj⟩ := mem_toJsonMembers.mp hmem'
  have hser : serialiseEntry d = { d with timestamp := some (.str t.isoformat) } := by
    rw [serialiseEntry, ht]
  have hx' : (serialiseEntry d).reloaded.extra = [] := by
    rw [hser, Doc.reloaded, Doc.mapVals, hx]
    rfl
  have hts : (serialiseEntry d).reloaded.timestamp = some (.str t.isoformat) := by
    rw [hser]
    rfl
  rw [timestamp_mem_toDict hx', hts] at hv
  cases hv
  exact isoText_ne t (Json.str.inj hj).symm

section Completed

variable {rt : Runtime} {k n : Nat} {s : Store}

theorem Built.not_inProgress (h : Built rt k n s) {e : Nat} (he : e < n / k) :
    inProgress s.auditLog e = false := by
  obtain ⟨latest, hl, hkey⟩ := latest_of_isLast h.isLast
  obtain ⟨hmem, hseq, -⟩ := latest_eq_some hl
  rw [hkey] at hseq
  have hne : (n : Int) / k ≠ e := by
    rw [← Int.natCast_ediv]
    omega
  rw [inProgress, hl]
  simp only [h.epochs latest hmem _ hseq, Option.some_beq_some, beq_eq_false_iff_ne, ne_eq]
  exact hne

theorem Built.export_ok (h : Built rt k n s) {e : Nat} (he : e < n / k) (a : ExportArgs) :
    ∃ first rest x, streamEntriesForEpoch s.auditLog e = first :: rest ∧
      exportEpoch rt s e a = .ok (x, markEpochExported e s) ∧
      x.entries = (first :: rest).map serialiseEntry ∧
      getKey x.metadata "export_hash" = .str (computeExportHash rt (first :: rest)) := by
  obtain ⟨d, hd, -⟩ := h.exists_epoch (le_of_lt he)
  obtain ⟨first, rest, hstream⟩ := List.exists_cons_of_ne_nil (List.ne_nil_of_mem hd)
  have hmem : ∀ d ∈ first :: rest, d ∈ s.auditLog := by
    intro d hd
    rw [← hstream] at hd
    exact (mem_streamEntriesForEpoch.mp hd).1
  have hlatest := h.not_inProgress he
  obtain ⟨⟨t, ht⟩, -⟩ := h.fields first (hmem first List.mem_cons_self)
  obtain ⟨⟨t', ht'⟩, -⟩ := h.fields _ (hmem _ (List.getLast_mem (List.cons_ne_nil first rest)))
  refine ⟨first, rest, ⟨exportMetadata rt (getEpochSize s).val e a (first :: rest) first
    ((first :: rest).getLast (List.cons_ne_nil first rest)) (.date t) (.date t'),
    (first :: rest).map serialiseEntry⟩, hstream, ?_, rfl, rfl⟩
  rw [exportEpoch, hstream]
  simp only [hlatest, Bool.and_false, Bool.false_eq_true, if_false, ht, ht']

theorem Built.file_rejected (h : Built rt k n s) (hrt : rt.CollisionFree) {e : Nat}
    (he : e < n / k) (a : ExportArgs) :
    ∃ x s', exportEpoch rt s e a = .ok (x, s') ∧ ¬Passes (verifyEpoch rt (exportedFile x)) := by
  obtain ⟨first, rest, x, hstream, hx, hentries, hhash⟩ := h.export_ok he a
  refine ⟨x, _, hx, fun hpass => ?_⟩
  obtain ⟨-, -, -, -, -, -, -, hexport⟩ := verifyEpoch_passes_iff.mp hpass
  have hfirst : first ∈ s.auditLog := by
    have hmem : first ∈ streamEntriesForEpoch s.auditLog e := by
      rw [hstream]
      exact List.mem_cons_self
    exact (mem_streamEntriesForEpoch.mp hmem).1
  obtain ⟨⟨t, ht⟩, hextra⟩ := h.fields first hfirst
  have hkey : getKey (exportedFile x).metadata "export_hash" =
      .str (computeExportHash rt (first :: rest)) := by
    rw [exportedFile, getKey_reloaded, hhash]
    rfl
  have hfile : (exportedFile x).entries =
      ((first :: rest).map serialiseEntry).map Doc.reloaded := by
    rw [← hentries]
    rfl
  rcases checkExportHash_iff.mp hexport with hfalse | heq
  · rw [hkey] at hfalse
    have hempty : computeExportHash rt (first :: rest) = "" := by
      simpa [Val.truthy] using hfalse
    exact hrt.ne_empty _ hempty
  · rw [hkey, hfile] at heq
    exact exportHash_ne hrt ht hextra (Val.str.inj heq).symm

end Completed

/-- The file of a completed epoch is rejected: its export hash was computed over
the entries with the other form of their timestamps. -/
theorem export_rejected (rt : Runtime) (hrt : rt.CollisionFree) (init : InitArgs)
    (hk : 1 ≤ init.epochSize) (as : List AppendArgs) (has : ∀ a ∈ as, a.PlainDetails) (e : Nat)
    (he : e < as.length / init.epochSize) (a : ExportArgs) :
    ∃ x s', exportEpoch rt (buildChain rt init as) e a = .ok (x, s') ∧
      ¬Passes (verifyEpoch rt (exportedFile x)) :=
  (built_buildChain rt init hk has).file_rejected hrt he a

/-- The first epoch of a chain of three in epochs of two. -/
theorem export_rejected_first_epoch :
    ∃ x s', exportEpoch .tagged (buildChain .tagged sampleInit
        [sampleAppend, sampleAppend]) (0 : Nat) { clock := sampleClock } = .ok (x, s') ∧
      ¬Passes (verifyEpoch .tagged (exportedFile x)) := by
  exact export_rejected .tagged Runtime.tagged_collisionFree
    sampleInit (by decide) _ samples_plain 0 (by decide) _

/-- The verifier does not accept every export of a completed epoch. -/
theorem export_not_accepted :
    ¬∀ (rt : Runtime) (init : InitArgs), 1 ≤ init.epochSize → ∀ as : List AppendArgs,
      (∀ a ∈ as, a.PlainDetails) → ∀ e : Nat, e < as.length / init.epochSize →
      ∀ (a : ExportArgs) x s', exportEpoch rt (buildChain rt init as) e a = .ok (x, s') →
        Passes (verifyEpoch rt (exportedFile x)) := by
  intro hclaim
  have hbuilt := built_buildChain .tagged sampleInit (by decide)
    samples_plain
  obtain ⟨x, s', hx, hrejected⟩ := hbuilt.file_rejected Runtime.tagged_collisionFree
    (by decide : 0 < 2 / 2) { clock := sampleClock }
  exact hrejected (hclaim _ _ (by decide) _ samples_plain 0 (by decide) _ x s' hx)

end Sentora.Audit
