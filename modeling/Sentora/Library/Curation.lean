import Sentora.Lib.Machine
import Sentora.Library.Runner
import Sentora.Library.Service

/-!
# Withdrawn entries

`publish_entry` and `deprecate_entry` (`domains/library/service.py`) between the steps
of any runs of the sources.  An upsert writes the status of the entry together with
everything else, so that an entry which an administrator has withdrawn stays so until
its source yields it again.
-/

namespace Sentora.Library

open Lib Process

def LibraryEntry.publish (reviewer : String) (e : LibraryEntry) : LibraryEntry :=
  { e with status := .published, reviewedBy := some reviewer }

def LibraryEntry.deprecate (e : LibraryEntry) : LibraryEntry := { e with status := .deprecated }

/-- The updates of `publish_entry` and `deprecate_entry`, and whether a document matched. -/
def publishDoc (entryId reviewer : String) (s : LibraryStore) : LibraryStore × Bool :=
  (s.modifyEntry entryId (LibraryEntry.publish reviewer) (fun _ => rfl) fun _ => rfl,
    (getEntry entryId s).isSome)

def deprecateDoc (entryId : String) (s : LibraryStore) : LibraryStore × Bool :=
  (s.modifyEntry entryId LibraryEntry.deprecate (fun _ => rfl) fun _ => rfl,
    (getEntry entryId s).isSome)

def publishEntry (entryId reviewer : String) : LibraryM LibraryEntry := do
  let ok ← call (.updateEntry entryId { status := some .published }) (publishDoc entryId reviewer)
  throwIf (!ok) (entryNotFound entryId)
  getEntryOrThrow entryId

def deprecateEntry (entryId : String) : LibraryM LibraryEntry := do
  let ok ← call (.updateEntry entryId { status := some .deprecated }) (deprecateDoc entryId)
  throwIf (!ok) (entryNotFound entryId)
  getEntryOrThrow entryId

/-- `list_entries` with its default for the status, before it is paged. -/
def listEntries (s : LibraryStore) (status : EntryStatus := .published) : List LibraryEntry :=
  s.entries.docs.filter fun e => e.status == status

namespace Curation

/-- The entry that a run of a source is at, and what is left of its ingestion. -/
structure Work where
  raw : RawEntry
  left : Process LibraryStore SourceOp Ingested

/-- `withdrawn` are the entries that an administrator has deprecated and not published
since, as long as they exist. -/
structure State where
  library : LibraryStore
  working : SourceType → Option Work := fun _ => none
  withdrawn : List String := []

inductive Act where
  | start (source : SourceType) (checkpoint : Option Checkpoint)
  | yields (source : SourceType) (id : String) (raw : RawEntry)
  | step (source : SourceType)
  | stop (source : SourceType)
  | publishEntry (entryId reviewer : String)
  | deprecateEntry (entryId : String)

def State.setWork (s : State) (source : SourceType) (work : Option Work) : State :=
  { s with working := Function.update s.working source work }

def turn (source : SourceType) (work : Work) (s : State) : State :=
  match work.left with
  | .ret _ => s
  | .step _ update rest =>
    { s with library := update s.library }.setWork source (some ⟨work.raw, rest s.library⟩)

def next (text : Text) (s : State) : Act → State
  | .start source checkpoint =>
    let library := startLibrary source checkpoint s.library
    { s with
      library
      withdrawn := s.withdrawn.filter fun entryId => (getEntry entryId library).isSome }
  | .yields source id raw => s.setWork source (some ⟨raw, ingest text source id raw⟩)
  | .step source =>
    match s.working source with
    | none => s
    | some work => turn source work s
  | .stop source => s.setWork source none
  | .publishEntry entryId reviewer =>
    { s with
      library := (Process.run (publishEntry entryId reviewer).run s.library).1
      withdrawn := s.withdrawn.filter fun other => other != entryId }
  | .deprecateEntry entryId =>
    { s with
      library := (Process.run (deprecateEntry entryId).run s.library).1
      withdrawn :=
        if (getEntry entryId s.library).isSome then entryId :: s.withdrawn else s.withdrawn }

/-- Nothing is running, and nothing has been withdrawn. -/
def fresh (library : LibraryStore) : State where
  library := library

structure Curated (s : State) : Prop where
  deprecated : ∀ entryId ∈ s.withdrawn,
    (getEntry entryId s.library).map LibraryEntry.status = some .deprecated
  unlisted : ∀ e ∈ listEntries s.library, e.id ∉ s.withdrawn

/-- A run does not write over an entry that is withdrawn. -/
def Spares (s : State) : Act → Prop
  | .step source => ∀ work ∈ s.working source, work.left.next? = some .upsertEntry →
      ∀ e ∈ s.library.entries.docs, e.upstream = (source, some work.raw.upstreamId) →
        e.id ∉ s.withdrawn
  | _ => True

instance Spares.decidable (s : State) : ∀ act, Decidable (Spares s act)
  | .step source => inferInstanceAs (Decidable (∀ work ∈ s.working source,
      work.left.next? = some .upsertEntry → ∀ e ∈ s.library.entries.docs,
        e.upstream = (source, some work.raw.upstreamId) → e.id ∉ s.withdrawn))
  | .start _ _ => isTrue trivial
  | .yields _ _ _ => isTrue trivial
  | .stop _ => isTrue trivial
  | .publishEntry _ _ => isTrue trivial
  | .deprecateEntry _ => isTrue trivial

/-- The entries are those of before, with the status that they had. -/
def Leaves (s t : LibraryStore) : Prop :=
  ∀ entryId, (getEntry entryId t).map LibraryEntry.status =
    (getEntry entryId s).map LibraryEntry.status

def Ingests (source : SourceType) (raw : RawEntry) : Process LibraryStore SourceOp Ingested → Prop
  | .ret _ => True
  | .step l update _ =>
    if l = .upsertEntry then
      ∃ id, ∀ s, update s = (upsertEntry id source raw.upstreamId (entryData source raw) s).1
    else ∀ s, Leaves s (update s)

section Steps

variable {text : Text} {source : SourceType} {raw : RawEntry} {s t : LibraryStore}
  {entryId id upstreamId : String} {data : EntryData}

theorem status_modifyEntry {f : LibraryEntry → LibraryEntry} {hid : ∀ e, (f e).id = e.id}
    {hupstream : ∀ e, (f e).upstream = e.upstream} {status : EntryStatus}
    (hf : ∀ e, (f e).status = status) :
    (getEntry entryId (s.modifyEntry id f hid hupstream)).map LibraryEntry.status =
      if entryId = id then (getEntry entryId s).map fun _ => status
      else (getEntry entryId s).map LibraryEntry.status := by
  rw [getEntry_modifyEntry, Option.map_map]
  by_cases hsame : entryId = id
  · rw [if_pos hsame]
    refine Option.map_congr fun e he => ?_
    have hown : e.id = id := (getEntry_eq_some_iff.mp he).2.trans hsame
    show (if e.id == id then f e else e).status = status
    rw [if_pos (beq_iff_eq.mpr hown)]
    exact hf e
  · rw [if_neg hsame]
    refine Option.map_congr fun e he => ?_
    have hother : e.id ≠ id := fun h => hsame ((getEntry_eq_some_iff.mp he).2.symm.trans h)
    show (if e.id == id then f e else e).status = e.status
    rw [if_neg fun h => hother (beq_iff_eq.mp h)]

theorem leaves_mergeMarkers {markers : List LibraryMarker} {tags : List String} :
    Leaves s (mergeMarkers id markers tags s) := by
  intro entryId
  have hget : getEntry entryId (mergeMarkers id markers tags s) =
      (getEntry entryId s).map fun e => if e.id == id then e.merge markers tags else e :=
    getEntry_modifyEntry
  rw [hget, Option.map_map]
  refine Option.map_congr fun e _ => ?_
  show (if e.id == id then e.merge markers tags else e).status = _
  split
  · rfl
  · rfl

theorem always_ingest : (ingest text source id raw).Always (Ingests source raw) := by
  refine ⟨fun s entryId => rfl, fun s => ?_⟩
  dsimp only [Process.bind]
  cases findSameName text source raw.name s with
  | some existing =>
    dsimp only
    split
    · trivial
    · exact ⟨fun s => leaves_mergeMarkers, fun _ => trivial⟩
  | none =>
    refine ⟨⟨id, fun _ => rfl⟩, fun t => ?_⟩
    dsimp only [Process.bind]
    rcases (upsertEntry id source raw.upstreamId (entryData source raw) t).2 with _ | _ | _
    · trivial
    · exact ⟨fun _ _ => rfl, fun _ => trivial⟩
    · trivial

theorem getEntry_upsertEntry_of_ne {e : LibraryEntry} (he : getEntry entryId s = some e)
    (hne : e.upstream ≠ (source, some upstreamId)) :
    getEntry entryId (upsertEntry id source upstreamId data s).1 = some e := by
  cases hfound : s.entries.getBy (source, some upstreamId) with
  | some existing =>
    rw [upsertEntry_of_found hfound, he, Option.map_some, if_neg fun h => hne (beq_iff_eq.mp h)]
  | none =>
    unfold upsertEntry
    rw [hfound]
    dsimp only
    cases hinsert : s.entries.insertOne (data.create id source upstreamId) with
    | none => exact he
    | some entries =>
      obtain ⟨hmem, hid⟩ := getEntry_eq_some_iff.mp he
      exact getEntry_eq_some_iff.mpr ⟨(Indexed.mem_insertOne hinsert).mpr (Or.inl hmem), hid⟩

theorem getEntry_upsertEntry_of_eq {e : LibraryEntry} (he : getEntry entryId s = some e)
    (heq : e.upstream = (source, some upstreamId)) :
    getEntry entryId (upsertEntry id source upstreamId data s).1 =
      some (data.apply source upstreamId e) := by
  have hfound : s.entries.getBy (source, some upstreamId) = some e :=
    Indexed.getBy_eq_some_iff.mpr ⟨(getEntry_eq_some_iff.mp he).1, heq⟩
  rw [upsertEntry_of_found hfound, he, Option.map_some, if_pos (beq_iff_eq.mpr heq)]

theorem getEntry_startLibrary {checkpoint : Option Checkpoint} {e : LibraryEntry}
    (he : getEntry entryId (startLibrary source checkpoint s) = some e) :
    getEntry entryId s = some e := by
  obtain ⟨hmem, hid⟩ := getEntry_eq_some_iff.mp he
  refine getEntry_eq_some_iff.mpr ⟨?_, hid⟩
  unfold startLibrary cleaned at hmem
  split at hmem
  · split at hmem
    · exact (Indexed.mem_deleteMany.mp hmem).1
    · exact hmem
  · exact hmem

theorem state_updateOrThrow {op : LibraryOp} {f : LibraryStore → LibraryStore × Bool} :
    (Process.run (do
      let ok ← call op f
      throwIf (!ok) (entryNotFound id)
      getEntryOrThrow id : LibraryM LibraryEntry).run s).1 = (f s).1 := by
  rw [run_call_bind]
  cases (f s).2 with
  | false => rfl
  | true => exact state_getEntryOrThrow

theorem status_publish (reviewer : String) :
    (getEntry entryId (Process.run (publishEntry id reviewer).run s).1).map LibraryEntry.status =
      if entryId = id then (getEntry entryId s).map fun _ => .published
      else (getEntry entryId s).map LibraryEntry.status := by
  rw [publishEntry, state_updateOrThrow]
  exact status_modifyEntry fun _ => rfl

theorem status_deprecate :
    (getEntry entryId (Process.run (deprecateEntry id).run s).1).map LibraryEntry.status =
      if entryId = id then (getEntry entryId s).map fun _ => .deprecated
      else (getEntry entryId s).map LibraryEntry.status := by
  rw [deprecateEntry, state_updateOrThrow]
  exact status_modifyEntry fun _ => rfl

end Steps

/-- Withdrawn entries are deprecated, and every run is somewhere in an ingestion. -/
structure Kept (s : State) : Prop where
  deprecated : ∀ entryId ∈ s.withdrawn,
    (getEntry entryId s.library).map LibraryEntry.status = some .deprecated
  ingests : ∀ source, ∀ work ∈ s.working source, work.left.Always (Ingests source work.raw)

section Invariant

variable {text : Text} {s : State} {source : SourceType} {raw : RawEntry}
  {work : Work} {library : LibraryStore} {act : Act}

theorem Kept.curated (h : Kept s) : Curated s := by
  refine ⟨h.deprecated, fun e he hwithdrawn => ?_⟩
  obtain ⟨hmem, hpublished⟩ := List.mem_filter.mp he
  have hget : getEntry e.id s.library = some e := getEntry_eq_some_iff.mpr ⟨hmem, rfl⟩
  have hstatus := h.deprecated e.id hwithdrawn
  rw [hget] at hstatus
  cases (beq_iff_eq.mp hpublished).symm.trans (Option.some.inj hstatus)

theorem Kept.setWork (h : Kept s)
    (hwork : ∀ w ∈ some work, w.left.Always (Ingests source w.raw)) :
    Kept (s.setWork source (some work)) := by
  refine ⟨h.deprecated, fun other w hw => ?_⟩
  by_cases hsource : other = source
  · subst hsource
    exact hwork w (by simpa [State.setWork] using hw)
  · refine h.ingests other w ?_
    simpa [State.setWork, hsource] using hw

theorem Kept.idle (h : Kept s) : Kept (s.setWork source none) := by
  refine ⟨h.deprecated, fun other w hw => ?_⟩
  by_cases hsource : other = source
  · subst hsource
    simp [State.setWork] at hw
  · refine h.ingests other w ?_
    simpa [State.setWork, hsource] using hw

/-- A fresh run forgets the withdrawn entries that it deletes. -/
theorem Kept.start (h : Kept s) {checkpoint : Option Checkpoint} :
    Kept (next text s (.start source checkpoint)) := by
  refine ⟨fun entryId hmem => ?_, h.ingests⟩
  obtain ⟨hold, hsome⟩ := List.mem_filter.mp hmem
  show (getEntry entryId (startLibrary source checkpoint s.library)).map _ = _
  obtain ⟨e, he⟩ := Option.isSome_iff_exists.mp hsome
  rw [he, ← getEntry_startLibrary he]
  exact h.deprecated entryId hold

theorem Kept.publish (h : Kept s) {entryId reviewer : String} :
    Kept (next text s (.publishEntry entryId reviewer)) := by
  refine ⟨fun other hmem => ?_, h.ingests⟩
  obtain ⟨hold, hne⟩ := List.mem_filter.mp hmem
  have hstatus := @status_publish s.library other entryId reviewer
  rw [if_neg (bne_iff_ne.mp hne)] at hstatus
  exact hstatus.trans (h.deprecated other hold)

theorem Kept.deprecate (h : Kept s) {entryId : String} :
    Kept (next text s (.deprecateEntry entryId)) := by
  refine ⟨fun other hmem => ?_, h.ingests⟩
  have hstatus := @status_deprecate s.library other entryId
  by_cases hsame : other = entryId
  · rw [if_pos hsame] at hstatus
    refine hstatus.trans ?_
    have hexists : (getEntry other s.library).isSome = true := by
      by_cases hsome : (getEntry entryId s.library).isSome = true
      · rw [hsame]
        exact hsome
      · have hold : other ∈ s.withdrawn := by
          rwa [next, if_neg hsome] at hmem
        rw [← Option.isSome_map (f := LibraryEntry.status), h.deprecated other hold]
        rfl
    obtain ⟨e, he⟩ := Option.isSome_iff_exists.mp hexists
    rw [he]
    rfl
  · rw [if_neg hsame] at hstatus
    refine hstatus.trans (h.deprecated other ?_)
    by_cases hsome : (getEntry entryId s.library).isSome = true
    · rw [next, if_pos hsome] at hmem
      exact List.mem_of_ne_of_mem hsame hmem
    · rwa [next, if_neg hsome] at hmem

theorem Kept.turn (h : Kept s) (hwork : s.working source = some work)
    (hspares : Spares s (.step source)) : Kept (turn source work s) := by
  have hingests := h.ingests source work hwork
  have hspares := hspares work hwork
  obtain ⟨raw, left⟩ := work
  cases left with
  | ret a => exact h
  | step l update rest =>
    obtain ⟨hstep, hrest⟩ := hingests
    have hkept : Kept { s with library := update s.library } := by
      refine ⟨fun entryId hmem => ?_, h.ingests⟩
      show (getEntry entryId (update s.library)).map _ = _
      by_cases hupsert : l = .upsertEntry
      · rw [Ingests, if_pos hupsert] at hstep
        obtain ⟨id, hstep⟩ := hstep
        have hstatus := h.deprecated entryId hmem
        obtain ⟨e, he, -⟩ := Option.map_eq_some_iff.mp hstatus
        obtain ⟨hin, hown⟩ := getEntry_eq_some_iff.mp he
        have hother : e.upstream ≠ (source, some raw.upstreamId) := fun heq =>
          hspares (congrArg some hupsert) e hin heq (hown ▸ hmem)
        rw [hstep, getEntry_upsertEntry_of_ne he hother, ← he]
        exact hstatus
      · rw [Ingests, if_neg hupsert] at hstep
        rw [hstep]
        exact h.deprecated entryId hmem
    refine hkept.setWork ?_
    rintro w ⟨⟩
    exact hrest s.library

theorem Kept.next (h : Kept s) (hspares : Spares s act) : Kept (next text s act) := by
  cases act with
  | start source checkpoint => exact h.start
  | yields source id raw =>
    refine h.setWork ?_
    rintro w ⟨⟩
    exact always_ingest
  | step source =>
    show Kept (match s.working source with
      | none => s
      | some work => Curation.turn source work s)
    cases hwork : s.working source with
    | none => exact h
    | some work => exact h.turn hwork hspares
  | stop source => exact h.idle
  | publishEntry entryId reviewer => exact h.publish
  | deprecateEntry entryId => exact h.deprecate

/-- An upsert over a withdrawn entry publishes it. -/
theorem Kept.spares (h : Kept s) (hcurated : Curated (Curation.next text s act)) :
    Spares s act := by
  cases act with
  | step source =>
    intro work hwork hupsert e he hupstream hmem
    have hnext : Curation.next text s (.step source) = Curation.turn source work s := by
      show (match s.working source with
        | none => s
        | some work => Curation.turn source work s) = _
      rw [hwork]
    rw [hnext] at hcurated
    have hingests := h.ingests source work hwork
    obtain ⟨raw, left⟩ := work
    cases left with
    | ret a => cases hupsert
    | step l update rest =>
      obtain ⟨hstep, -⟩ := hingests
      rw [Ingests, if_pos (Option.some.inj hupsert)] at hstep
      obtain ⟨id, hstep⟩ := hstep
      have hstatus : (getEntry e.id (update s.library)).map LibraryEntry.status =
          some .deprecated := hcurated.deprecated e.id hmem
      have hget : getEntry e.id s.library = some e := getEntry_eq_some_iff.mpr ⟨he, rfl⟩
      rw [hstep, getEntry_upsertEntry_of_eq hget hupstream] at hstatus
      cases Option.some.inj hstatus
  | _ => trivial

end Invariant

theorem kept_fresh {library : LibraryStore} : Kept (fresh library) :=
  ⟨List.forall_mem_nil _, fun _ _ hwork => nomatch hwork⟩

/-- Withdrawn entries stay deprecated if and only if no run upserts one of them. -/
theorem withdrawn_stay_deprecated_iff (text : Text) (library : LibraryStore) (acts : List Act) :
    (∀ n, Curated ((acts.take n).foldl (next text) (fresh library))) ↔
      AllMeet (next text) Spares (fresh library) acts :=
  forall_take_iff_allMeet_of_keeps (I := Kept) (fun _ h => h.curated)
    (fun _ _ h hspares => h.next hspares) (fun _ _ h hcurated => h.spares hcurated) kept_fresh

def plainText : Text where
  lower := id
  matchesName name stored := decide (name = stored)

def emptyLibrary : LibraryStore := ⟨.empty, .empty, .empty⟩

/-- Git from Chocolatey is ingested, withdrawn, and yielded by the next run. -/
def yieldedAgain : List Act :=
  let git : RawEntry := { upstreamId := "git", name := "Git", patterns := ["git*"] }
  let run := [.start .chocolatey none, .yields .chocolatey "e1" git, .step .chocolatey,
    .step .chocolatey, .stop .chocolatey]
  run ++ .deprecateEntry "e1" :: run

theorem withdrawn_entry_is_published :
    ¬∀ n, Curated ((yieldedAgain.take n).foldl (next plainText) (fresh emptyLibrary)) := by
  intro h
  exact absurd ((h 11).deprecated "e1" (by decide +kernel)) (by decide +kernel)

end Curation
end Sentora.Library
