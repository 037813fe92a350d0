import Sentora.Lib.Attempts
import Sentora.Library.Documents

/-!
# Ingestion of an entry

The body of the loop of `SourceRunner._execute` (`domains/library/source_runner.py`)
and `upsert_entry_by_upstream`.  An entry of the same name from another source takes
the new patterns; otherwise the source has an entry of its own.
-/

namespace Sentora.Library

open Lib Process

structure RawEntry where
  upstreamId : String
  name : String
  vendor : String := ""
  category : String := ""
  description : String := ""
  tags : List String := []
  patterns : List String := []
  version : String := ""
deriving DecidableEq

/-- `str.lower`, and whether a stored name matches `^name$` without regard to case. -/
structure Text where
  lower : String → String
  matchesName : String → String → Bool

inductive SourceOp where
  | findSameName
  | mergeMarkers
  | upsertEntry
  | findUpstream
deriving DecidableEq

def rawMarkers (source : SourceType) (raw : RawEntry) : List LibraryMarker :=
  raw.patterns.map fun pattern =>
    { pattern, displayName := raw.name, sourceDetail := raw.upstreamId, addedBy := source.value }

def entryData (source : SourceType) (raw : RawEntry) : EntryData where
  name := raw.name
  vendor := raw.vendor
  category := raw.category
  description := raw.description
  tags := raw.tags
  markers := rawMarkers source raw
  upstreamVersion := if raw.version = "" then none else some raw.version
  status := .published
  submittedBy := "system"

def findSameName (text : Text) (source : SourceType) (name : String) (s : LibraryStore) :
    Option LibraryEntry :=
  s.entries.docs.find? fun e => text.matchesName name e.name && e.source != source

def newMarkers (text : Text) (existing : LibraryEntry) (markers : List LibraryMarker) :
    List LibraryMarker :=
  let existingPatterns := existing.markers.map fun m => text.lower m.pattern
  markers.filter fun m => !existingPatterns.contains (text.lower m.pattern)

def addToSet (tags added : List String) : List String :=
  added.foldl (fun acc t => if acc.contains t then acc else acc ++ [t]) tags

def LibraryEntry.merge (markers : List LibraryMarker) (tags : List String) (e : LibraryEntry) :
    LibraryEntry :=
  { e with markers := e.markers ++ markers, tags := addToSet e.tags tags }

def mergeMarkers (entryId : String) (markers : List LibraryMarker) (tags : List String)
    (s : LibraryStore) : LibraryStore :=
  s.modifyEntry entryId (LibraryEntry.merge markers tags) (fun _ => rfl) fun _ => rfl

/-- `upsert_entry_by_upstream` with the id of a new entry: its id, and whether it was
created, or nothing where the insertion is refused. -/
def upsertEntryByUpstream (id : String) (source : SourceType) (upstreamId : String)
    (data : EntryData) : Process LibraryStore SourceOp (Option (String × Bool)) := do
  let result ← atomic .upsertEntry (upsertEntry id source upstreamId data)
  match result with
  | none => pure none
  | some true => pure (some (id, true))
  | some false =>
    let doc ← Process.read .findUpstream fun s => s.entries.getBy (source, some upstreamId)
    pure (some ((doc.map LibraryEntry.id).getD "", false))

inductive Ingested where
  | created | updated | skipped
deriving DecidableEq

def ingest (text : Text) (source : SourceType) (id : String) (raw : RawEntry) :
    Process LibraryStore SourceOp Ingested := do
  let found ← Process.read .findSameName (findSameName text source raw.name)
  match found with
  | some existing =>
    let added := newMarkers text existing (rawMarkers source raw)
    if added.isEmpty then pure .updated
    else do
      Process.write .mergeMarkers (mergeMarkers existing.id added raw.tags)
      pure .updated
  | none => do
    let result ← upsertEntryByUpstream id source raw.upstreamId (entryData source raw)
    match result with
    | none => pure .skipped
    | some (_, true) => pure .created
    | some (_, false) => pure .updated

def ingested (text : Text) (source : SourceType) (id : String) (raw : RawEntry)
    (s : LibraryStore) : LibraryStore :=
  match findSameName text source raw.name s with
  | some existing =>
    let added := newMarkers text existing (rawMarkers source raw)
    if added.isEmpty then s else mergeMarkers existing.id added raw.tags s
  | none => (upsertEntry id source raw.upstreamId (entryData source raw) s).1

theorem state_upsertEntryByUpstream (id : String) (source : SourceType) (upstreamId : String)
    (data : EntryData) (s : LibraryStore) :
    ((upsertEntryByUpstream id source upstreamId data).run s).1 =
      (upsertEntry id source upstreamId data s).1 := by
  unfold upsertEntryByUpstream
  rw [run_bind, run_atomic]
  rcases (upsertEntry id source upstreamId data s).2 with _ | _ | _
  · rfl
  · rfl
  · rfl

theorem state_ingest (text : Text) (source : SourceType) (id : String) (raw : RawEntry)
    (s : LibraryStore) : ((ingest text source id raw).run s).1 = ingested text source id raw s := by
  unfold ingest ingested
  rw [run_bind, run_read]
  cases findSameName text source raw.name s with
  | some existing =>
    dsimp only
    split
    · rfl
    · rfl
  | none =>
    dsimp only
    rw [run_bind, state_upsertEntryByUpstream]
    rcases ((upsertEntryByUpstream id source raw.upstreamId (entryData source raw)).run s).2 with
      _ | ⟨_, _ | _⟩
    · rfl
    · rfl
    · rfl

theorem cut_ingest (text : Text) (source : SourceType) (id : String) (raw : RawEntry) (n : Nat)
    (s : LibraryStore) : (ingest text source id raw).cut n s = s ∨
      (ingest text source id raw).cut n s = ingested text source id raw s := by
  let I : LibraryStore → Prop := fun t => t = s ∨ t = ingested text source id raw s
  have hfind : Endures Eq I (fun t found => t = s ∧ found = findSameName text source raw.name s) s
      (Process.read SourceOp.findSameName (findSameName text source raw.name)) := by
    refine endures_atomic ?_
    rintro t rfl -
    exact ⟨Or.inl rfl, rfl, rfl⟩
  have hrest : Endures Eq I (fun _ _ => True) s (ingest text source id raw) := by
    refine hfind.bind ?_
    rintro t found ⟨rfl, rfl⟩
    cases hfound : findSameName text source raw.name t with
    | some existing =>
      dsimp only
      split
      · trivial
      · rename_i hnew
        refine fun u hu _ => ⟨Or.inr ?_, trivial⟩
        rw [← hu]
        unfold ingested
        rw [hfound]
        exact (if_neg hnew).symm
    | none =>
      refine Endures.bind (Q := fun _ _ => True) ?_ fun u result _ => ?_
      · refine fun u hu _ => ⟨Or.inr ?_, ?_⟩
        · rw [← hu]
          unfold ingested
          rw [hfound]
        · dsimp only
          rcases (upsertEntry id source raw.upstreamId (entryData source raw) u).2 with _ | _ | _
          · trivial
          · exact fun v _ hv => ⟨hv, trivial⟩
          · trivial
      · rcases result with _ | ⟨_, _ | _⟩
        · trivial
        · trivial
        · trivial
  exact hrest.cut (Or.inl rfl) n
def Puts (d : LibraryEntry) (s t : LibraryStore) : Prop :=
  ∀ e, e ∈ t.entries ↔ e = d ∨ (e ∈ s.entries ∧ e.upstream ≠ d.upstream)

theorem findSameName_eq_some {text : Text} {source : SourceType} {name : String} {s : LibraryStore}
    {e : LibraryEntry} (h : findSameName text source name s = some e) :
    e ∈ s.entries ∧ text.matchesName name e.name = true ∧ e.source ≠ source := by
  have hquery := List.find?_some
    (p := fun e : LibraryEntry => text.matchesName name e.name && e.source != source) h
  rw [Bool.and_eq_true, bne_iff_ne] at hquery
  exact ⟨List.mem_of_find?_eq_some h, hquery⟩

theorem findSameName_eq_none {text : Text} {source : SourceType} {name : String}
    {s : LibraryStore} :
    findSameName text source name s = none ↔
      ∀ e ∈ s.entries, text.matchesName name e.name = true → e.source = source := by
  unfold findSameName
  rw [List.find?_eq_none]
  refine forall₂_congr fun e _ => ?_
  rw [Bool.and_eq_true, bne_iff_ne, not_and, not_not]

theorem puts_of_merge {text : Text} {source : SourceType} {id : String} {raw : RawEntry}
    {s : LibraryStore} {existing : LibraryEntry}
    (hfound : findSameName text source raw.name s = some existing) :
    ∃ d : LibraryEntry, Puts d s (ingested text source id raw s) ∧
      d.upstream = existing.upstream ∧ d.name = existing.name ∧
      ∀ p, (∃ m ∈ d.markers, text.lower m.pattern = p) ↔
        (∃ m ∈ existing.markers, text.lower m.pattern = p) ∨
          ∃ q ∈ raw.patterns, text.lower q = p := by
  obtain ⟨hmem, -, -⟩ := findSameName_eq_some hfound
  have hold : ∀ m : LibraryMarker, text.lower m.pattern ∈
      existing.markers.map (fun m => text.lower m.pattern) ↔
        ∃ m' ∈ existing.markers, text.lower m'.pattern = text.lower m.pattern :=
    fun _ => List.mem_map
  have hraw : ∀ p, (∃ m ∈ rawMarkers source raw, text.lower m.pattern = p) ↔
      ∃ q ∈ raw.patterns, text.lower q = p := by
    intro p
    simp [rawMarkers]
  unfold ingested
  rw [hfound]
  dsimp only
  by_cases hnone : (newMarkers text existing (rawMarkers source raw)).isEmpty = true
  · rw [if_pos hnone]
    refine ⟨existing, fun e => ?_, rfl, rfl, fun p => ?_⟩
    · constructor
      · intro he
        by_cases hup : e.upstream = existing.upstream
        · exact Or.inl (Indexed.eq_of_index he hmem hup)
        · exact Or.inr ⟨he, hup⟩
      · rintro (rfl | ⟨he, -⟩)
        · exact hmem
        · exact he
    · rw [← hraw]
      constructor
      · exact Or.inl
      · rintro (h | ⟨m, hm, rfl⟩)
        · exact h
        · rw [List.isEmpty_iff, newMarkers, List.filter_eq_nil_iff] at hnone
          have hin := hnone m hm
          rw [Bool.not_eq_true', Bool.not_eq_false, List.contains_iff_mem, hold m] at hin
          exact hin
  · rw [if_neg hnone]
    refine ⟨existing.merge (newMarkers text existing (rawMarkers source raw)) raw.tags, fun e => ?_,
      rfl, rfl, fun p => ?_⟩
    · refine (mem_modifyEntry hmem).trans (or_congr_right (and_congr_right fun he => not_congr ?_))
      exact ⟨fun hid => by rw [Indexed.eq_of_key he hmem hid]; rfl,
        fun hup => by rw [Indexed.eq_of_index he hmem hup]⟩
    · rw [← hraw]
      constructor
      · rintro ⟨m, hm, rfl⟩
        rcases List.mem_append.mp hm with hm | hm
        · exact Or.inl ⟨m, hm, rfl⟩
        · exact Or.inr ⟨m, (List.mem_filter.mp hm).1, rfl⟩
      · rintro (⟨m, hm, rfl⟩ | ⟨m, hm, rfl⟩)
        · exact ⟨m, List.mem_append_left _ hm, rfl⟩
        · by_cases hin : ∃ m' ∈ existing.markers, text.lower m'.pattern = text.lower m.pattern
          · obtain ⟨m', hm', heq⟩ := hin
            exact ⟨m', List.mem_append_left _ hm', heq⟩
          · refine ⟨m, List.mem_append_right _ (List.mem_filter.mpr ⟨hm, ?_⟩), rfl⟩
            rw [Bool.not_eq_true', ← Bool.not_eq_true, List.contains_iff_mem, hold m]
            exact hin

theorem puts_of_upsert {text : Text} {source : SourceType} {id : String} {raw : RawEntry}
    {s : LibraryStore} (hfound : findSameName text source raw.name s = none)
    (hid : ∀ e ∈ s.entries, e.id ≠ id) :
    ∃ d : LibraryEntry, Puts d s (ingested text source id raw s) ∧
      d.upstream = (source, some raw.upstreamId) ∧ d.name = raw.name ∧
      d.markers = rawMarkers source raw ∧ d.tags = raw.tags := by
  obtain ⟨-, d, hup, hname, hmarkers, htags, hmem⟩ :=
    @mem_upsertEntry s id raw.upstreamId source (entryData source raw) hid
  unfold ingested
  rw [hfound]
  refine ⟨d, fun e => ?_, hup, hname, hmarkers, htags⟩
  rw [hup]
  exact hmem e

end Sentora.Library
