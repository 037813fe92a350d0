import Mathlib.Data.Set.Basic
import Sentora.Library.Runner

/-!
# Orders of ingestions

Which patterns the library has under a name after complete runs of sources with fixed
listings.

The first source that lists a name has the entries of the name from then on, and the
others merge into them.  A later run of that source sets the markers of its entries
anew, without what was merged.
-/

namespace Sentora.Library

open Lib Process

structure Ingestion where
  source : SourceType
  runId : String

section Orders

variable (text : Text) (listing : SourceType → List RawEntry)

def ingestSource (newId : LibraryStore → String) (i : Ingestion) (s : IngestState) : IngestState :=
  let r : Runner := { text, source := i.source, newId, runId := i.runId }
  ((safeRun r {} none {} ((listing i.source).map fun raw => ⟨raw, {}⟩)).run s).1

def ingestSources (newId : LibraryStore → String) (runs : List Ingestion) (s : IngestState) :
    IngestState :=
  runs.foldl (fun s i => ingestSource text listing newId i s) s

/-- The patterns stored under a name, without regard to case. -/
def storedPatterns (name : String) (s : LibraryStore) : Set String :=
  {p | ∃ e ∈ s.entries, text.matchesName name e.name = true ∧
    ∃ m ∈ e.markers, text.lower m.pattern = p}

def patternsIn (name : String) (raws : List RawEntry) : Set String :=
  {p | ∃ raw ∈ raws, text.matchesName name raw.name = true ∧ ∃ q ∈ raw.patterns, text.lower q = p}

def listedPatterns (sources : List SourceType) (name : String) : Set String :=
  {p | ∃ source ∈ sources, p ∈ patternsIn text name (listing source)}

def lists (name : String) (source : SourceType) : Bool :=
  (listing source).any fun raw => text.matchesName name raw.name

def firstLister (name : String) (sources : List SourceType) : Option SourceType :=
  sources.find? (lists text listing name)

def sinceLast (source : SourceType) (sources : List SourceType) : List SourceType :=
  sources.reverse.takeWhile fun other => other ≠ source

/-- Every pattern for a name is one of the first source that lists the name, or of a
source that ran after its last run. -/
def MergedSince (sources : List SourceType) : Prop :=
  ∀ name source, firstLister text listing name sources = some source →
    listedPatterns text listing sources name ⊆
      listedPatterns text listing (source :: sinceLast source sources) name

/-- The entries of a name are those of the first source that lists it. -/
structure Owned (sources : List SourceType) (s : LibraryStore) : Prop where
  listed : ∀ e ∈ s.entries, ∃ raw ∈ listing e.source,
    e.upstreamId = some raw.upstreamId ∧ e.name = raw.name ∧
      firstLister text listing raw.name sources = some e.source
  stored : ∀ source, ∀ raw ∈ listing source,
    firstLister text listing raw.name sources = some source →
      ∃ e ∈ s.entries, e.upstream = (source, some raw.upstreamId)
  patterns : ∀ name source, firstLister text listing name sources = some source →
    storedPatterns text name s =
      listedPatterns text listing (source :: sinceLast source sources) name

/-- Within a run of `source` after the others, behind some entries. -/
structure Partly (sources : List SourceType) (source : SourceType) (done : List RawEntry)
    (s : LibraryStore) : Prop where
  listed : ∀ e ∈ s.entries, ∃ raw ∈ listing e.source,
    e.upstreamId = some raw.upstreamId ∧ e.name = raw.name ∧
      firstLister text listing raw.name (sources ++ [source]) = some e.source
  others : ∀ other, other ≠ source → ∀ raw ∈ listing other,
    firstLister text listing raw.name (sources ++ [source]) = some other →
      ∃ e ∈ s.entries, e.upstream = (other, some raw.upstreamId)
  own : ∀ raw ∈ done, firstLister text listing raw.name (sources ++ [source]) = some source →
    ∃ e ∈ s.entries, e.upstream = (source, some raw.upstreamId)
  markers : ∀ e ∈ s.entries, e.source = source → ∀ raw ∈ done,
    e.upstreamId = some raw.upstreamId → e.markers = rawMarkers source raw
  patterns : ∀ name other, other ≠ source →
    firstLister text listing name (sources ++ [source]) = some other →
      storedPatterns text name s =
        listedPatterns text listing (other :: sinceLast other sources) name ∪
          patternsIn text name done

end Orders

section Names

variable {text : Text} {listing : SourceType → List RawEntry} {sources : List SourceType}
  {source other : SourceType} {name name' : String}

theorem sinceLast_concat_self : sinceLast source (sources ++ [source]) = [] := by
  simp [sinceLast]

theorem sinceLast_concat_of_ne (h : source ≠ other) :
    sinceLast other (sources ++ [source]) = source :: sinceLast other sources := by
  simp [sinceLast, h]

theorem mem_of_mem_sinceLast (h : other ∈ sinceLast source sources) : other ∈ sources :=
  List.mem_reverse.mp ((List.takeWhile_sublist _).subset h)

theorem lists_of_firstLister (h : firstLister text listing name sources = some source) :
    source ∈ sources ∧ ∃ raw ∈ listing source, text.matchesName name raw.name = true :=
  ⟨List.mem_of_find?_eq_some h,
    List.any_eq_true.mp (List.find?_some (p := lists text listing name) h)⟩

theorem firstLister_concat_of_some (h : firstLister text listing name sources = some source) :
    firstLister text listing name (sources ++ [other]) = some source := by
  unfold firstLister at h ⊢
  rw [List.find?_append, h]
  rfl

theorem firstLister_of_concat (h : firstLister text listing name (sources ++ [other]) = some source)
    (hne : source ≠ other) : firstLister text listing name sources = some source := by
  unfold firstLister at h ⊢
  rw [List.find?_append] at h
  cases hfound : sources.find? (lists text listing name) with
  | some first =>
    rw [hfound] at h
    exact h
  | none =>
    rw [hfound] at h
    have hlast : [other].find? (lists text listing name) = some source := h
    have hmem := List.mem_of_find?_eq_some hlast
    exact absurd (List.mem_singleton.mp hmem) hne

theorem exists_firstLister {raw : RawEntry} (hraw : raw ∈ listing source)
    (hname : text.matchesName name raw.name = true) (hmem : source ∈ sources) :
    ∃ first, firstLister text listing name sources = some first := by
  rw [← Option.isSome_iff_exists]
  unfold firstLister
  rw [List.find?_isSome]
  exact ⟨source, hmem, List.any_eq_true.mpr ⟨raw, hraw, hname⟩⟩

variable (hsame : Equivalence fun a b => text.matchesName a b = true)
include hsame

theorem matchesName_congr (h : text.matchesName name name' = true) (other : String) :
    text.matchesName name other = text.matchesName name' other := by
  rw [Bool.eq_iff_iff]
  exact ⟨fun hother => hsame.trans (hsame.symm h) hother, fun hother => hsame.trans h hother⟩

theorem firstLister_congr (h : text.matchesName name name' = true) :
    firstLister text listing name sources = firstLister text listing name' sources := by
  have hlists : lists text listing name = lists text listing name' := by
    funext source
    unfold lists
    simp only [matchesName_congr hsame h]
  unfold firstLister
  rw [hlists]

end Names

section Steps

variable {text : Text} {listing : SourceType → List RawEntry} {sources : List SourceType}
  {source : SourceType} {done : List RawEntry} {raw : RawEntry} {id : String} {s t : LibraryStore}
  {d : LibraryEntry}

theorem Puts.exists_upstream (h : Puts d s t) {u : SourceType × Option String}
    (hu : ∃ e ∈ s.entries, e.upstream = u) : ∃ e ∈ t.entries, e.upstream = u := by
  obtain ⟨e, he, rfl⟩ := hu
  by_cases hup : e.upstream = d.upstream
  · exact ⟨d, (h d).mpr (Or.inl rfl), hup.symm⟩
  · exact ⟨e, (h e).mpr (Or.inr ⟨he, hup⟩), rfl⟩

theorem Puts.mem_storedPatterns (h : Puts d s t) {name p : String} :
    p ∈ storedPatterns text name t ↔
      (text.matchesName name d.name = true ∧ ∃ m ∈ d.markers, text.lower m.pattern = p) ∨
        ∃ e ∈ s.entries, e.upstream ≠ d.upstream ∧ text.matchesName name e.name = true ∧
          ∃ m ∈ e.markers, text.lower m.pattern = p := by
  constructor
  · rintro ⟨e, he, hname, hp⟩
    rcases (h e).mp he with rfl | ⟨hmem, hup⟩
    · exact Or.inl ⟨hname, hp⟩
    · exact Or.inr ⟨e, hmem, hup, hname, hp⟩
  · rintro (⟨hname, hp⟩ | ⟨e, he, hup, hname, hp⟩)
    · exact ⟨d, (h d).mpr (Or.inl rfl), hname, hp⟩
    · exact ⟨e, (h e).mpr (Or.inr ⟨he, hup⟩), hname, hp⟩

/-- An entry that is stored is the one of its upstream id. -/
theorem puts_self (hd : d ∈ s.entries) : Puts d s s := by
  intro e
  constructor
  · intro he
    by_cases hup : e.upstream = d.upstream
    · exact Or.inl (Indexed.eq_of_index he hd hup)
    · exact Or.inr ⟨he, hup⟩
  · rintro (rfl | ⟨he, -⟩)
    · exact hd
    · exact he

theorem mem_patternsIn_cons {name p : String} :
    p ∈ patternsIn text name (raw :: done) ↔
      (text.matchesName name raw.name = true ∧ ∃ q ∈ raw.patterns, text.lower q = p) ∨
        p ∈ patternsIn text name done := by
  constructor
  · rintro ⟨r, hr, hname, hp⟩
    rcases List.mem_cons.mp hr with rfl | hr
    · exact Or.inl ⟨hname, hp⟩
    · exact Or.inr ⟨r, hr, hname, hp⟩
  · rintro (⟨hname, hp⟩ | ⟨r, hr, hname, hp⟩)
    · exact ⟨raw, List.mem_cons_self .., hname, hp⟩
    · exact ⟨r, List.mem_cons_of_mem _ hr, hname, hp⟩

theorem Partly.mem_storedPatterns (h : Partly text listing sources source done s)
    {name p : String} {other : SourceType} (hne : other ≠ source)
    (hown : firstLister text listing name (sources ++ [source]) = some other) :
    p ∈ storedPatterns text name s ↔
      p ∈ listedPatterns text listing (other :: sinceLast other sources) name ∨
        p ∈ patternsIn text name done := by
  rw [h.patterns name other hne hown]
  rfl

variable (hsame : Equivalence fun a b => text.matchesName a b = true)
  (hunique : ∀ source, ((listing source).map RawEntry.upstreamId).Nodup)
include hunique

theorem eq_of_upstreamId {raw' : RawEntry} (hraw : raw ∈ listing source)
    (hraw' : raw' ∈ listing source) (h : raw.upstreamId = raw'.upstreamId) : raw = raw' :=
  List.inj_on_of_nodup_map (hunique source) hraw hraw' h

theorem Partly.name_of_upstream (h : Partly text listing sources source done s) {e : LibraryEntry}
    (he : e ∈ s.entries) {other : SourceType} (hraw : raw ∈ listing other)
    (hup : e.upstream = (other, some raw.upstreamId)) :
    e.name = raw.name ∧ firstLister text listing raw.name (sources ++ [source]) = some other := by
  obtain ⟨raw', hraw', hid, hname, hfirst⟩ := h.listed e he
  have hsource : e.source = other := congrArg Prod.fst hup
  have hids : e.upstreamId = some raw.upstreamId := congrArg Prod.snd hup
  rw [hsource] at hraw' hfirst
  have heq := eq_of_upstreamId hunique hraw' hraw (Option.some.inj (hid.symm.trans hids))
  rw [heq] at hname hfirst
  exact ⟨hname, hfirst⟩

include hsame

theorem Partly.merge (h : Partly text listing sources source done s) (hraw : raw ∈ listing source)
    {existing : LibraryEntry} (hfound : findSameName text source raw.name s = some existing)
    (hput : Puts d s t) (hup : d.upstream = existing.upstream) (hname : d.name = existing.name)
    (hpatterns : ∀ p, (∃ m ∈ d.markers, text.lower m.pattern = p) ↔
      (∃ m ∈ existing.markers, text.lower m.pattern = p) ∨ ∃ q ∈ raw.patterns, text.lower q = p) :
    Partly text listing sources source (raw :: done) t := by
  obtain ⟨hmem, hmatch, hother⟩ := findSameName_eq_some hfound
  have hsource : d.source = existing.source := congrArg Prod.fst hup
  have hfirst : firstLister text listing raw.name (sources ++ [source]) = some existing.source := by
    obtain ⟨raw', -, -, hname', hfirst'⟩ := h.listed existing hmem
    rw [firstLister_congr hsame hmatch, hname']
    exact hfirst'
  have hnot : firstLister text listing raw.name (sources ++ [source]) ≠ some source := by
    rw [hfirst]
    exact fun heq => hother (Option.some.inj heq)
  refine ⟨fun e he => ?_, fun other hne raw' hraw' hown => ?_, fun raw' hraw' hown => ?_,
    fun e he hself raw' hraw' hid => ?_, fun name other hne hown => ?_⟩
  · rcases (hput e).mp he with rfl | ⟨he, -⟩
    · rw [hsource, hname, show e.upstreamId = existing.upstreamId from congrArg Prod.snd hup]
      exact h.listed existing hmem
    · exact h.listed e he
  · exact hput.exists_upstream (h.others other hne raw' hraw' hown)
  · rcases List.mem_cons.mp hraw' with rfl | hraw'
    · exact absurd hown hnot
    · exact hput.exists_upstream (h.own raw' hraw' hown)
  · rcases (hput e).mp he with rfl | ⟨he, -⟩
    · exact absurd (hsource.symm.trans hself) hother
    · rcases List.mem_cons.mp hraw' with rfl | hraw'
      · exact absurd (h.name_of_upstream hunique he hraw (Prod.ext hself hid)).2 hnot
      · exact h.markers e he hself raw' hraw' hid
  · rw [Set.ext_iff]
    intro p
    have hcongr : text.matchesName name existing.name = text.matchesName name raw.name := by
      rw [Bool.eq_iff_iff]
      exact ⟨fun hex => hsame.trans hex (hsame.symm hmatch), fun hr => hsame.trans hr hmatch⟩
    rw [hput.mem_storedPatterns, hup, hname, hpatterns, Set.mem_union, mem_patternsIn_cons,
      ← hcongr, or_left_comm, ← h.mem_storedPatterns hne hown, (puts_self hmem).mem_storedPatterns,
      and_or_left, or_assoc]
    exact or_left_comm

theorem Partly.firstLister_own (h : Partly text listing sources source done s)
    (hraw : raw ∈ listing source) (hfound : findSameName text source raw.name s = none) :
    firstLister text listing raw.name (sources ++ [source]) = some source := by
  rw [findSameName_eq_none] at hfound
  obtain ⟨first, hfirst⟩ := exists_firstLister hraw (hsame.refl raw.name)
    (List.mem_append_right sources (List.mem_singleton.mpr rfl))
  by_cases hother : first = source
  · rw [hfirst, hother]
  · obtain ⟨-, raw', hraw', hmatch⟩ := lists_of_firstLister hfirst
    obtain ⟨e, he, heup⟩ := h.others first hother raw' hraw' (by
      rw [← firstLister_congr hsame hmatch]
      exact hfirst)
    have hename := (h.name_of_upstream hunique he hraw' heup).1
    have hsourced := hfound e he (by rw [hename]; exact hmatch)
    exact absurd ((congrArg Prod.fst heup).symm.trans hsourced) hother

theorem Partly.upsert (h : Partly text listing sources source done s) (hraw : raw ∈ listing source)
    (hfound : findSameName text source raw.name s = none) (hput : Puts d s t)
    (hup : d.upstream = (source, some raw.upstreamId)) (hname : d.name = raw.name)
    (hmarkers : d.markers = rawMarkers source raw) (hdone : ∀ r ∈ done, r ∈ listing source) :
    Partly text listing sources source (raw :: done) t := by
  have hsource : d.source = source := congrArg Prod.fst hup
  have hid : d.upstreamId = some raw.upstreamId := congrArg Prod.snd hup
  have hfirst := h.firstLister_own hsame hunique hraw hfound
  refine ⟨fun e he => ?_, fun other hne raw' hraw' hown => ?_, fun raw' hraw' hown => ?_,
    fun e he hself raw' hraw' heid => ?_, fun name other hne hown => ?_⟩
  · rcases (hput e).mp he with rfl | ⟨he, -⟩
    · rw [hsource]
      exact ⟨raw, hraw, hid, hname, hfirst⟩
    · exact h.listed e he
  · exact hput.exists_upstream (h.others other hne raw' hraw' hown)
  · rcases List.mem_cons.mp hraw' with rfl | hraw'
    · exact ⟨d, (hput d).mpr (Or.inl rfl), hup⟩
    · exact hput.exists_upstream (h.own raw' hraw' hown)
  · rcases (hput e).mp he with rfl | ⟨he, heup⟩
    · have hmem : raw' ∈ listing source := by
        rcases List.mem_cons.mp hraw' with rfl | hraw'
        · exact hraw
        · exact hdone raw' hraw'
      rw [eq_of_upstreamId hunique hmem hraw (Option.some.inj (heid.symm.trans hid))]
      exact hmarkers
    · rcases List.mem_cons.mp hraw' with rfl | hraw'
      · exact absurd (Prod.ext (hself.trans hsource.symm) (heid.trans hid.symm)) heup
      · exact h.markers e he hself raw' hraw' heid
  · have hnot : ¬text.matchesName name raw.name = true := by
      intro hmatch
      rw [firstLister_congr hsame hmatch, hfirst] at hown
      exact hne (Option.some.inj hown).symm
    rw [Set.ext_iff]
    intro p
    have hold : p ∈ storedPatterns text name s ↔
        ∃ e ∈ s.entries, e.upstream ≠ d.upstream ∧ text.matchesName name e.name = true ∧
          ∃ m ∈ e.markers, text.lower m.pattern = p := by
      constructor
      · rintro ⟨e, he, hmatch, hp⟩
        refine ⟨e, he, fun heup => hnot ?_, hmatch, hp⟩
        rw [← (h.name_of_upstream hunique he hraw (heup.trans hup)).1]
        exact hmatch
      · rintro ⟨e, he, -, hp⟩
        exact ⟨e, he, hp⟩
    rw [hput.mem_storedPatterns, hname, Set.mem_union, mem_patternsIn_cons, ← hold,
      h.mem_storedPatterns hne hown,
      eq_false hnot, false_and, false_or, false_and, false_or]

theorem Partly.step (h : Partly text listing sources source done s) (hraw : raw ∈ listing source)
    (hdone : ∀ r ∈ done, r ∈ listing source) (hid : ∀ e ∈ s.entries, e.id ≠ id) :
    Partly text listing sources source (raw :: done) (ingested text source id raw s) := by
  cases hfound : findSameName text source raw.name s with
  | some existing =>
    obtain ⟨d, hput, hup, hname, hpatterns⟩ := @puts_of_merge text source id raw s existing hfound
    exact h.merge hsame hunique hraw hfound hput hup hname hpatterns
  | none =>
    obtain ⟨d, hput, hup, hname, hmarkers, -⟩ := puts_of_upsert hfound hid
    exact h.upsert hsame hunique hraw hfound hput hup hname hmarkers hdone

end Steps

section Runs

variable {text : Text} {listing : SourceType → List RawEntry} {sources : List SourceType}
  {source : SourceType} {done : List RawEntry} {s : LibraryStore}

theorem mem_cleaned {e : LibraryEntry} :
    (e ∈ (cleaned source s).entries → e ∈ s.entries) ∧
      (e ∈ s.entries → e.source ≠ source → e ∈ (cleaned source s).entries) := by
  unfold cleaned
  by_cases hsource : source = .nistCpe
  · rw [if_pos hsource]
    refine ⟨fun he => (Indexed.mem_deleteMany.mp he).1, fun he hne => ?_⟩
    refine Indexed.mem_deleteMany.mpr ⟨he, ?_⟩
    have hbeq : (e.source == source) = false := beq_eq_false_iff_ne.mpr hne
    unfold isStale
    rw [hbeq, Bool.false_and]
  · rw [if_neg hsource]
    exact ⟨id, fun he _ => he⟩

variable (hsame : Equivalence fun a b => text.matchesName a b = true)
  (hunique : ∀ source, ((listing source).map RawEntry.upstreamId).Nodup)

include hsame in
theorem Owned.start (h : Owned text listing sources s) (source : SourceType) :
    Partly text listing sources source [] (cleaned source s) := by
  refine ⟨fun e he => ?_, fun other hne raw hraw hown => ?_, fun raw hraw => ?_,
    fun e _ _ raw hraw => ?_, fun name other hne hown => ?_⟩
  · obtain ⟨raw, hraw, hid, hname, hfirst⟩ := h.listed e (mem_cleaned.1 he)
    exact ⟨raw, hraw, hid, hname, firstLister_concat_of_some hfirst⟩
  · obtain ⟨e, he, hup⟩ := h.stored other raw hraw (firstLister_of_concat hown hne)
    have hsource : e.source = other := congrArg Prod.fst hup
    exact ⟨e, mem_cleaned.2 he (hsource ▸ hne), hup⟩
  · exact absurd hraw List.not_mem_nil
  · exact absurd hraw List.not_mem_nil
  · have hfirst := firstLister_of_concat hown hne
    have hnone : patternsIn text name [] = ∅ := by
      rw [Set.eq_empty_iff_forall_notMem]
      rintro p ⟨raw, hraw, -⟩
      exact List.not_mem_nil hraw
    rw [hnone, Set.union_empty, ← h.patterns name other hfirst]
    refine Set.Subset.antisymm ?_ ?_
    · rintro p ⟨e, he, hp⟩
      exact ⟨e, mem_cleaned.1 he, hp⟩
    · rintro p ⟨e, he, hmatch, hp⟩
      obtain ⟨raw, hraw, -, hname, howner⟩ := h.listed e he
      rw [← hname, ← firstLister_congr hsame hmatch, hfirst] at howner
      exact ⟨e, mem_cleaned.2 he (Option.some.inj howner ▸ hne), hmatch, hp⟩

include hsame hunique

theorem Partly.run {newId : LibraryStore → String} (hfresh : FreshIds newId) {runId : String}
    {todo : List RawEntry} (h : Partly text listing sources source done s)
    (htodo : ∀ raw ∈ todo, raw ∈ listing source) (hdone : ∀ raw ∈ done, raw ∈ listing source) :
    Partly text listing sources source (todo.reverse ++ done)
      (ingestedAll { text, source, newId, runId } todo s) := by
  induction todo generalizing done s with
  | nil => exact h
  | cons raw rest ih =>
    have hraw := htodo raw (List.mem_cons_self ..)
    have hstep := h.step hsame hunique hraw hdone (hfresh s)
    rw [List.reverse_cons, List.append_assoc]
    exact ih hstep (fun r hr => htodo r (List.mem_cons_of_mem _ hr))
      fun r hr => (List.mem_cons.mp hr).elim (fun heq => heq ▸ hraw) (hdone r)

/-- The end of a run. -/
theorem Partly.finish (h : Partly text listing sources source done s)
    (hall : ∀ raw, raw ∈ done ↔ raw ∈ listing source) :
    Owned text listing (sources ++ [source]) s := by
  have hdone : ∀ name, patternsIn text name done = patternsIn text name (listing source) := by
    intro name
    unfold patternsIn
    simp only [hall]
  refine ⟨h.listed, fun other raw hraw hown => ?_, fun name other hown => ?_⟩
  · by_cases hother : other = source
    · subst hother
      exact h.own raw ((hall raw).mpr hraw) hown
    · exact h.others other hother raw hraw hown
  · by_cases hother : other = source
    · subst hother
      rw [sinceLast_concat_self]
      refine Set.Subset.antisymm ?_ ?_
      · rintro p ⟨e, he, hmatch, m, hm, rfl⟩
        obtain ⟨raw, hraw, hid, hname, hfirst⟩ := h.listed e he
        rw [← hname, ← firstLister_congr hsame hmatch, hown] at hfirst
        have hself := Option.some.inj hfirst
        rw [← hself] at hraw
        rw [h.markers e he hself.symm raw ((hall raw).mpr hraw) hid] at hm
        obtain ⟨q, hq, rfl⟩ := List.mem_map.mp hm
        exact ⟨other, List.mem_singleton.mpr rfl, raw, hraw, by rw [← hname]; exact hmatch, q, hq,
          rfl⟩
      · rintro p ⟨source, hsource, raw, hraw, hmatch, q, hq, rfl⟩
        rw [List.mem_singleton.mp hsource] at hraw
        have hfirst : firstLister text listing raw.name (sources ++ [other]) = some other := by
          rw [← firstLister_congr hsame hmatch]
          exact hown
        obtain ⟨e, he, hup⟩ := h.own raw ((hall raw).mpr hraw) hfirst
        have hname := (h.name_of_upstream hunique he hraw hup).1
        have hmarkers := h.markers e he (congrArg Prod.fst hup) raw ((hall raw).mpr hraw)
          (congrArg Prod.snd hup)
        refine ⟨e, he, by rw [hname]; exact hmatch, ?_⟩
        rw [hmarkers]
        exact ⟨_, List.mem_map.mpr ⟨q, hq, rfl⟩, rfl⟩
    · rw [h.patterns name other hother hown, hdone,
        sinceLast_concat_of_ne fun heq => hother heq.symm]
      ext p
      simp only [listedPatterns, Set.mem_union, Set.mem_ofPred_eq, List.mem_cons, exists_eq_or_imp]
      rw [or_assoc]
      exact or_congr_right or_comm

theorem Owned.run {newId : LibraryStore → String} (hfresh : FreshIds newId) {runId : String}
    (h : Owned text listing sources s) :
    Owned text listing (sources ++ [source])
      (ingestedAll { text, source, newId, runId } (listing source) (cleaned source s)) := by
  have hpart : Partly text listing sources source ((listing source).reverse ++ [])
      (ingestedAll { text, source, newId, runId } (listing source) (cleaned source s)) :=
    (h.start hsame source).run hsame hunique hfresh (fun _ hraw => hraw) (List.forall_mem_nil _)
  refine hpart.finish hsame hunique fun raw => ?_
  rw [List.append_nil, List.mem_reverse]

end Runs

section All

variable {text : Text} {listing : SourceType → List RawEntry}
  {newId : LibraryStore → String}

theorem owned_ingestSources (hsame : Equivalence fun a b => text.matchesName a b = true)
    (hunique : ∀ source, ((listing source).map RawEntry.upstreamId).Nodup)
    (hfresh : FreshIds newId) (runs : List Ingestion) {sources : List SourceType} {s : IngestState}
    (h : Owned text listing sources s.library) :
    Owned text listing (sources ++ runs.map Ingestion.source)
      (ingestSources text listing newId runs s).library := by
  induction runs generalizing sources s with
  | nil =>
    rw [List.map_nil, List.append_nil]
    exact h
  | cons i rest ih =>
    have hone : Owned text listing (sources ++ [i.source])
        (ingestSource text listing newId i s).library := by
      unfold ingestSource
      dsimp only
      rw [(run_safeRun hfresh s).1, List.map_map]
      have hraws : (listing i.source).map (Yield.raw ∘ fun raw => ⟨raw, {}⟩) = listing i.source :=
        List.map_id _
      rw [hraws]
      exact h.run hsame hunique hfresh
    have hrest := ih hone
    rw [List.append_assoc] at hrest
    exact hrest

/-- In a library that was empty, complete runs leave the patterns that the listings
give for every name if and only if each of them is from the first source of the name
or from one that ran after its last run. -/
theorem order_independent_iff (text : Text)
    (hsame : Equivalence fun a b => text.matchesName a b = true)
    (listing : SourceType → List RawEntry)
    (hunique : ∀ source, ((listing source).map RawEntry.upstreamId).Nodup)
    (newId : LibraryStore → String) (hfresh : FreshIds newId) (runs : List Ingestion)
    (s : IngestState) (hempty : s.library.entries.docs = []) :
    (∀ name, storedPatterns text name (ingestSources text listing newId runs s).library =
      listedPatterns text listing (runs.map Ingestion.source) name) ↔
        MergedSince text listing (runs.map Ingestion.source) := by
  have hnone : ∀ e, ¬e ∈ s.library.entries := by
    intro e he
    rw [Indexed.mem_def, hempty] at he
    exact List.not_mem_nil he
  have hstart : Owned text listing [] s.library :=
    ⟨fun e he => absurd he (hnone e), fun _ _ _ h => (by cases h), fun _ _ h => (by cases h)⟩
  have howned := owned_ingestSources hsame hunique hfresh runs hstart
  rw [List.nil_append] at howned
  unfold MergedSince
  refine forall_congr' fun name => ?_
  cases hfirst : firstLister text listing name (runs.map Ingestion.source) with
  | none =>
    refine iff_of_true ?_ fun _ h => by cases h
    refine Set.Subset.antisymm ?_ ?_
    · rintro p ⟨e, he, hmatch, -⟩
      obtain ⟨raw, -, -, hname, hsome⟩ := howned.listed e he
      rw [← hname, ← firstLister_congr hsame hmatch, hfirst] at hsome
      cases hsome
    · rintro p ⟨source, hsource, raw, hraw, hmatch, -⟩
      obtain ⟨first, hsome⟩ := exists_firstLister hraw hmatch hsource
      rw [hfirst] at hsome
      cases hsome
  | some source =>
    rw [howned.patterns name source hfirst]
    have hsub : listedPatterns text listing
        (source :: sinceLast source (runs.map Ingestion.source)) name ⊆
          listedPatterns text listing (runs.map Ingestion.source) name := by
      rintro p ⟨other, hother, hp⟩
      refine ⟨other, ?_, hp⟩
      rcases List.mem_cons.mp hother with rfl | hother
      · exact (lists_of_firstLister hfirst).1
      · exact mem_of_mem_sinceLast hother
    constructor
    · intro heq other hother
      rw [← Option.some.inj hother, heq]
    · intro hmerged
      exact Set.Subset.antisymm hsub (hmerged source rfl)

end All

def lowerText (s : String) : String := String.ofList (s.toList.map Char.toLower)

def plainText : Text := ⟨lowerText, fun a b => lowerText a == lowerText b⟩

theorem plainText_same : Equivalence fun a b => plainText.matchesName a b = true where
  refl _ := beq_iff_eq.mpr rfl
  symm h := beq_iff_eq.mpr (beq_iff_eq.mp h).symm
  trans h h' := beq_iff_eq.mpr ((beq_iff_eq.mp h).trans (beq_iff_eq.mp h'))

def longId (s : LibraryStore) : String :=
  String.ofList ('x' :: s.entries.docs.flatMap fun e => e.id.toList)

theorem longId_fresh : FreshIds longId := by
  intro s e he heq
  have hlong : e.id.toList.length ≤ (s.entries.docs.flatMap fun e => e.id.toList).length := by
    have hmem : e.id.toList ∈ s.entries.docs.map fun e => e.id.toList :=
      List.mem_map.mpr ⟨e, he, rfl⟩
    rw [List.flatMap_def]
    exact (List.sublist_flatten_of_mem hmem).length_le
  have hsame : e.id.toList = 'x' :: s.entries.docs.flatMap fun e => e.id.toList := by
    rw [heq]
    exact String.toList_ofList
  rw [hsame, List.length_cons] at hlong
  omega

def cpeChrome : RawEntry where
  upstreamId := "google:chrome"
  name := "Google Chrome"
  patterns := ["*google*chrome*"]

def chocolateyChrome : RawEntry where
  upstreamId := "chocolatey:GoogleChrome"
  name := "Google Chrome"
  patterns := ["*googlechrome*"]

def chromeListing : SourceType → List RawEntry
  | .nistCpe => [cpeChrome]
  | .chocolatey => [chocolateyChrome]
  | _ => []

theorem chromeListing_unique (source : SourceType) :
    ((chromeListing source).map RawEntry.upstreamId).Nodup := by
  cases source <;> decide

def emptyLibrary : IngestState := ⟨⟨.empty, .empty, .empty⟩, none, .empty⟩

/-- Each of the two ran once: the second was merged into the first. -/
theorem chrome_merged :
    storedPatterns plainText "Google Chrome"
        (ingestSources plainText chromeListing longId [⟨.nistCpe, "1"⟩, ⟨.chocolatey, "2"⟩]
          emptyLibrary).library =
      listedPatterns plainText chromeListing [.nistCpe, .chocolatey] "Google Chrome" := by
  refine (order_independent_iff plainText plainText_same chromeListing chromeListing_unique longId
    longId_fresh [⟨.nistCpe, "1"⟩, ⟨.chocolatey, "2"⟩] emptyLibrary rfl).mpr ?_
    "Google Chrome"
  intro name source hfirst
  have hsource : source = .nistCpe := by
    unfold firstLister at hfirst
    rw [List.map_cons, List.find?_cons] at hfirst
    cases hlists : lists plainText chromeListing name .nistCpe with
    | true =>
      rw [hlists] at hfirst
      exact (Option.some.inj hfirst).symm
    | false =>
      have hboth : lists plainText chromeListing name .chocolatey = false := hlists
      rw [hlists, List.map_cons, List.find?_cons] at hfirst
      dsimp only at hfirst
      rw [hboth] at hfirst
      cases hfirst
  subst hsource
  exact fun p hp => hp

/-- A second run of the first source takes the patterns of the other away. -/
theorem rerun_drops_merged :
    ¬∀ (text : Text), (Equivalence fun a b => text.matchesName a b = true) →
      ∀ (listing : SourceType → List RawEntry),
        (∀ source, ((listing source).map RawEntry.upstreamId).Nodup) →
        ∀ (newId : LibraryStore → String), FreshIds newId → ∀ (runs : List Ingestion)
          (s : IngestState), s.library.entries.docs = [] → ∀ name,
            storedPatterns text name (ingestSources text listing newId runs s).library =
              listedPatterns text listing (runs.map Ingestion.source) name := by
  intro hall
  have hstart : Owned plainText chromeListing [] emptyLibrary.library :=
    ⟨List.forall_mem_nil _, fun _ _ _ h => (by cases h), fun _ _ h => (by cases h)⟩
  have howned := owned_ingestSources plainText_same chromeListing_unique longId_fresh
    [⟨.nistCpe, "1"⟩, ⟨.chocolatey, "2"⟩, ⟨.nistCpe, "3"⟩] hstart
  have hstored := howned.patterns "Google Chrome" .nistCpe rfl
  rw [hall plainText plainText_same chromeListing chromeListing_unique longId longId_fresh _ _ rfl]
    at hstored
  have hmem : "*googlechrome*" ∈ listedPatterns plainText chromeListing
      [.nistCpe, .chocolatey, .nistCpe] "Google Chrome" :=
    ⟨.chocolatey, by decide, chocolateyChrome, by decide, by decide, "*googlechrome*", by decide, by
      decide⟩
  rw [show [SourceType.nistCpe, .chocolatey, .nistCpe] = [⟨.nistCpe, "1"⟩, ⟨.chocolatey, "2"⟩,
    ⟨.nistCpe, "3"⟩].map Ingestion.source from rfl, hstored] at hmem
  obtain ⟨source, hsource, raw, hraw, -, q, hq, heq⟩ := hmem
  have hnist : source = .nistCpe := List.mem_singleton.mp hsource
  rw [hnist] at hraw
  rw [List.mem_singleton.mp hraw] at hq
  rw [List.mem_singleton.mp hq] at heq
  exact absurd heq (by decide)

end Sentora.Library
