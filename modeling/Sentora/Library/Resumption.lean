import Mathlib.Data.Set.Basic
import Sentora.Library.Completion

/-!
# Interrupted ingestions

Runs of a source that are cancelled or crash, and are resumed from the checkpoint, beside
a run that goes through.

A checkpoint has the start of the page and a count of what was yielded.  A run that is
resumed yields the page again from its start and counts it a second time, and it has no
memory of the keys of the pages before.
-/

namespace Sentora.Library

open Lib Process

namespace Adapter

variable {ι : Type} {a : Adapter ι} {limit start fetched fuel fuel' : Nat} {seen : List String}
  {listing : List ι} {fails : Nat → Bool}

def between (a : Adapter ι) (listing : List ι) (start stop : Nat) : List ι :=
  ((listing.drop start).take (stop - start)).filter a.keeps

theorem between_append {mid stop : Nat} (h : start ≤ mid) (h' : mid ≤ stop) :
    a.between listing start stop = a.between listing start mid ++ a.between listing mid stop := by
  have hdrop : listing.drop mid = (listing.drop start).drop (mid - start) := by
    rw [List.drop_drop]
    congr 1
    omega
  have hlength : stop - start = (mid - start) + (stop - mid) := by omega
  unfold between
  rw [hdrop, ← List.filter_append, hlength, List.take_add]

theorem between_self : a.between listing start start = [] := by
  unfold between
  rw [Nat.sub_self]
  rfl

theorem between_page : a.between listing start (start + a.pageSize) = a.parsed listing start := by
  unfold between parsed
  rw [Nat.add_sub_cancel_left]

theorem parsed_of_length_le (h : listing.length ≤ start) : a.parsed listing start = [] := by
  unfold parsed
  rw [List.drop_eq_nil_of_le h, List.take_nil, List.filter_nil]

/-- Pages enough are as good as any. -/
theorem reached_fuel (hsize : 0 < a.pageSize) (hfuel : listing.length < start + fuel)
    (hfuel' : listing.length < start + fuel') :
    a.reached listing fails fuel start = a.reached listing fails fuel' start := by
  have hempty : ∀ {fuel start}, listing.length ≤ start →
    a.reached listing fails fuel start = [] := by
    intro fuel start h
    cases fuel with
    | zero => rfl
    | succ fuel =>
      rw [reached, parsed_of_length_le h]
      exact ite_self []
  induction fuel generalizing start fuel' with
  | zero => rw [hempty (by omega), hempty (by omega)]
  | succ fuel ih =>
    cases fuel' with
    | zero => rw [hempty (by omega), hempty (by omega)]
    | succ fuel' =>
      rw [reached, reached, @ih (start + a.pageSize) fuel' (by omega) (by omega)]

def Stands (a : Adapter ι) (listing : List ι) (fails : Nat → Bool) (start fetched : Nat)
    (seen : List String) (i : Nat) (state : AdapterState) : Prop :=
  state.fetched = fetched + i ∧ start ≤ state.start ∧
    (firsts a.entry seen (a.between listing start state.start)).length ≤ i ∧
    a.reached listing fails (listing.length + 1) start =
      a.between listing start state.start ++
        a.reached listing fails (listing.length + 1) state.start

theorem stands_start {i : Nat} :
    a.Stands listing fails start fetched seen i ⟨start, fetched + i⟩ := by
  refine ⟨rfl, Nat.le_refl start, ?_, ?_⟩
  · rw [between_self]
    exact Nat.zero_le i
  · rw [between_self]
    rfl

theorem stands_getElem? (hsize : 0 < a.pageSize) (hfuel : listing.length < start + fuel) {i : Nat}
    {y : Yield} (h : (a.pages limit listing fails fuel start fetched seen)[i]? = some y) :
    a.Stands listing fails start fetched seen i y.state := by
  induction fuel generalizing start fetched seen i with
  | zero => cases h
  | succ fuel ih =>
    rw [pages] at h
    by_cases hlimit : limit ≤ fetched
    · rw [if_pos hlimit] at h
      cases h
    rw [if_neg hlimit] at h
    by_cases hfails : fails start = true
    · rw [if_pos hfails] at h
      cases h
    rw [if_neg hfails] at h
    obtain ⟨hyields, hfetched, hmarked⟩ := @page_eq ι a limit start fetched seen
      (a.parsed listing start) (Or.inr (Nat.lt_of_not_le hlimit))
    have hhere : (a.page limit start (a.parsed listing start) fetched seen).1[i]? = some y →
        a.Stands listing fails start fetched seen i y.state := by
      intro hy
      rw [hyields] at hy
      rw [state_yieldsAt hy]
      exact stands_start
    cases hparsed : a.parsed listing start with
    | nil =>
      rw [hparsed] at h
      cases h
    | cons item rest =>
      rw [hparsed] at h
      dsimp only at h
      rw [← hparsed] at h
      by_cases htotal : (a.stopsAtTotal && decide (listing.length ≤ start + a.pageSize)) = true
      · rw [if_pos htotal] at h
        exact hhere h
      rw [if_neg htotal] at h
      by_cases hlt : i < (a.page limit start (a.parsed listing start) fetched seen).1.length
      · rw [List.getElem?_append_left hlt] at h
        exact hhere h
      -- The entry is on a later page, so that the limit did not cut this one.
      rw [List.getElem?_append_right (Nat.le_of_not_lt hlt)] at h
      rw [hyields, length_yieldsAt] at h hlt
      have hbelow : (firsts a.entry seen (a.parsed listing start)).length < limit - fetched := by
        by_contra hfull
        rw [hfetched, List.length_take, Nat.min_eq_left (Nat.le_of_not_lt hfull)] at h
        cases fuel with
        | zero => cases h
        | succ fuel =>
          rw [pages, if_pos (by omega)] at h
          cases h
      rw [List.take_of_length_le (Nat.le_of_lt hbelow)] at h hfetched hlt
      rw [hfetched, hmarked hbelow] at h
      obtain ⟨hcount, hle, hbefore, hreached⟩ := ih (by omega) h
      have hmid : a.between listing start y.state.start =
          a.parsed listing start ++ a.between listing (start + a.pageSize) y.state.start := by
        rw [← between_page]
        exact between_append (Nat.le_add_right ..) hle
      refine ⟨?_, by omega, ?_, ?_⟩
      · rw [hcount]
        omega
      · rw [hmid, firsts_append, List.length_append]
        omega
      · have hnext : a.reached listing fails (listing.length + 1) (start + a.pageSize) =
            a.reached listing fails listing.length (start + a.pageSize) :=
          reached_fuel hsize (by omega) (by omega)
        rw [hmid, List.append_assoc, ← hreached, hnext]
        rw [reached, if_neg hfails, hparsed]
        dsimp only
        rw [if_neg htotal]

end Adapter

abbrev Row := Option String × String × List String × List String

def RawEntry.row (raw : RawEntry) : Row :=
  (some raw.upstreamId, raw.name, raw.patterns, raw.tags)

def LibraryEntry.row (e : LibraryEntry) : Row :=
  (e.upstreamId, e.name, e.markers.map LibraryMarker.pattern, e.tags)

def rows (source : SourceType) (s : LibraryStore) : Set Row :=
  {row | ∃ e ∈ s.entries, e.source = source ∧ e.row = row}

def Taken (text : Text) (source : SourceType) (s : LibraryStore) (name : String) : Prop :=
  ∃ e ∈ s.entries, e.source ≠ source ∧ text.matchesName name e.name = true

section Rows

variable {text : Text} {source : SourceType} {id : String} {raw : RawEntry} {c s t : LibraryStore}
  {d : LibraryEntry} {row row' : Row}

theorem row_eq_of_id (h : row ∈ rows source s) (h' : row' ∈ rows source s) (hid : row.1 = row'.1) :
    row = row' := by
  obtain ⟨e, he, hsource, hrow⟩ := h
  obtain ⟨e', he', hsource', hrow'⟩ := h'
  have hup : e.upstream = e'.upstream := by
    have heid : e.upstreamId = e'.upstreamId := by
      rw [← hrow, ← hrow'] at hid
      exact hid
    unfold LibraryEntry.upstream
    rw [hsource, hsource', heid]
  rw [← hrow, ← hrow', Indexed.eq_of_index he he' hup]

theorem taken_of_findSameName (h : findSameName text source raw.name s = some d) :
    Taken text source s raw.name := by
  obtain ⟨hmem, hmatch, hother⟩ := findSameName_eq_some h
  exact ⟨d, hmem, hother, hmatch⟩

theorem Puts.other (h : Puts d s t) {e : LibraryEntry} (he : e ∈ s.entries)
    (hup : d.upstream = e.upstream) (hname : d.name = e.name) (hother : e.source ≠ source) :
    rows source t = rows source s ∧ ∀ name, Taken text source t name ↔
      Taken text source s name := by
  have hsource : d.source = e.source := congrArg Prod.fst hup
  have hdother : d.source ≠ source := by
    rw [hsource]
    exact hother
  constructor
  · ext row
    constructor
    · intro ⟨x, hx, hxs, hrow⟩
      rcases (h x).mp hx with heq | ⟨hx, -⟩
      · rw [heq] at hxs
        exact absurd hxs hdother
      · exact ⟨x, hx, hxs, hrow⟩
    · intro ⟨x, hx, hxs, hrow⟩
      refine ⟨x, (h x).mpr (Or.inr ⟨hx, fun heq => hdother ?_⟩), hxs, hrow⟩
      exact (congrArg Prod.fst heq).symm.trans hxs
  · intro name
    constructor
    · intro ⟨x, hx, hxs, hmatch⟩
      rcases (h x).mp hx with heq | ⟨hx, -⟩
      · rw [heq, hname] at hmatch
        exact ⟨e, he, hother, hmatch⟩
      · exact ⟨x, hx, hxs, hmatch⟩
    · intro ⟨x, hx, hxs, hmatch⟩
      by_cases hsame : x.upstream = d.upstream
      · have heq : x = e := Indexed.eq_of_index hx he (hsame.trans hup)
        rw [heq, ← hname] at hmatch
        exact ⟨d, (h d).mpr (Or.inl rfl), hdother, hmatch⟩
      · exact ⟨x, (h x).mpr (Or.inr ⟨hx, hsame⟩), hxs, hmatch⟩

theorem Puts.own (h : Puts d s t) (hup : d.upstream = (source, some raw.upstreamId))
    (hrow : d.row = raw.row) :
    (∀ row, row ∈ rows source t ↔
      row = raw.row ∨ (row ∈ rows source s ∧ row.1 ≠ some raw.upstreamId)) ∧
      ∀ name, Taken text source t name ↔ Taken text source s name := by
  have hsource : d.source = source := congrArg Prod.fst hup
  constructor
  · intro row
    constructor
    · intro ⟨x, hx, hxs, hxrow⟩
      rcases (h x).mp hx with heq | ⟨hx, hne⟩
      · rw [← hxrow, heq]
        exact Or.inl hrow
      · refine Or.inr ⟨⟨x, hx, hxs, hxrow⟩, fun hid => hne ?_⟩
        rw [hup, ← hid, ← hxrow, ← hxs]
        rfl
    · intro hor
      rcases hor with heq | ⟨⟨x, hx, hxs, hxrow⟩, hne⟩
      · exact ⟨d, (h d).mpr (Or.inl rfl), hsource, hrow.trans heq.symm⟩
      · refine ⟨x, (h x).mpr (Or.inr ⟨hx, fun heq => hne ?_⟩), hxs, hxrow⟩
        rw [← hxrow]
        exact congrArg Prod.snd (heq.trans hup)
  · intro name
    constructor
    · intro ⟨x, hx, hxs, hmatch⟩
      rcases (h x).mp hx with heq | ⟨hx, -⟩
      · rw [heq] at hxs
        exact absurd hsource hxs
      · exact ⟨x, hx, hxs, hmatch⟩
    · intro ⟨x, hx, hxs, hmatch⟩
      refine ⟨x, (h x).mpr (Or.inr ⟨hx, fun heq => hxs ?_⟩), hxs, hmatch⟩
      exact (congrArg Prod.fst heq).trans hsource

end Rows

/-- How far a library is on the way from `c` to one with all the entries of a listing:
some of them are done, and what does not belong to the listing is as it was. -/
structure Settled (text : Text) (source : SourceType) (c : LibraryStore) (all done : List RawEntry)
    (s : LibraryStore) : Prop where
  taken : ∀ name, Taken text source s name ↔ Taken text source c name
  known : ∀ row ∈ rows source s, row ∈ rows source c ∨
    ∃ raw ∈ all, ¬Taken text source c raw.name ∧ raw.row = row
  kept : ∀ row ∈ rows source c,
    (∀ raw ∈ all, ¬Taken text source c raw.name → some raw.upstreamId ≠ row.1) → row ∈ rows source s
  written : ∀ raw ∈ done, ¬Taken text source c raw.name → raw.row ∈ rows source s

/-- Every row of some entries is one of others. -/
def Covers (all some : List RawEntry) : Prop := ∀ raw ∈ some, ∃ own ∈ all, own.row = raw.row

section Settled

variable {text : Text} {source : SourceType} {id : String} {raw : RawEntry} {c s t : LibraryStore}
  {all done done' : List RawEntry}

theorem settled_start : Settled text source c all [] c :=
  ⟨fun _ => Iff.rfl, fun _ h => Or.inl h, fun _ h _ => h, fun _ h => absurd h List.not_mem_nil⟩

theorem Settled.mono (h : Settled text source c all done s) (hcovers : Covers done done') :
    Settled text source c all done' s := by
  refine ⟨h.taken, h.known, h.kept, fun raw hraw hfree => ?_⟩
  obtain ⟨own, hown, hrow⟩ := hcovers raw hraw
  have hname : own.name = raw.name := congrArg (fun row => row.2.1) hrow
  rw [← hrow]
  exact h.written own hown (by rw [hname]; exact hfree)

theorem row_eq_of_upstreamId (hunique : (all.map RawEntry.upstreamId).Nodup) {raw' : RawEntry}
    (hraw : raw ∈ all) (hraw' : raw' ∈ all) (hid : raw.upstreamId = raw'.upstreamId) :
    raw.row = raw'.row :=
  congrArg RawEntry.row (List.inj_on_of_nodup_map hunique hraw hraw' hid)

theorem Settled.ingested (h : Settled text source c all done s)
    (hunique : (all.map RawEntry.upstreamId).Nodup) (hdone : Covers all done)
    (hraw : ∃ own ∈ all, own.row = raw.row) (hid : ∀ e ∈ s.entries, e.id ≠ id) :
    Settled text source c all (done ++ [raw]) (ingested text source id raw s) := by
  obtain ⟨own, hown, hrow⟩ := hraw
  have hownid : own.upstreamId = raw.upstreamId :=
    Option.some.inj (congrArg Prod.fst hrow)
  have hname : own.name = raw.name := congrArg (fun row => row.2.1) hrow
  cases hfound : findSameName text source raw.name s with
  | some existing =>
    obtain ⟨hmem, -, hother⟩ := findSameName_eq_some hfound
    obtain ⟨d, hput, hup, hdname, -⟩ := @puts_of_merge text source id raw s existing hfound
    obtain ⟨hrows, htaken⟩ := @Puts.other text source s _ d hput existing hmem hup hdname hother
    refine ⟨fun name => (htaken name).trans (h.taken name), ?_, ?_, ?_⟩
    · rw [hrows]
      exact h.known
    · rw [hrows]
      exact h.kept
    · rw [hrows]
      intro x hx hfree
      rcases List.mem_append.mp hx with hx | hx
      · exact h.written x hx hfree
      · rw [List.mem_singleton.mp hx] at hfree
        exact absurd ((h.taken raw.name).mp (taken_of_findSameName hfound)) hfree
  | none =>
    obtain ⟨d, hput, hup, hdname, hmarkers, htags⟩ := puts_of_upsert hfound hid
    have hdrow : d.row = raw.row := by
      have hid' : d.upstreamId = some raw.upstreamId := congrArg Prod.snd hup
      have hpatterns : (rawMarkers source raw).map LibraryMarker.pattern = raw.patterns := by
        unfold rawMarkers
        rw [List.map_map]
        exact List.map_id _
      unfold LibraryEntry.row
      rw [hid', hdname, hmarkers, htags, hpatterns]
      rfl
    obtain ⟨hrows, htaken⟩ := @Puts.own text source raw s _ d hput hup hdrow
    have hfreeRaw : ¬Taken text source c raw.name := by
      intro htake
      obtain ⟨e, he, hother, hmatch⟩ := (h.taken raw.name).mpr htake
      exact hother (findSameName_eq_none.mp hfound e he hmatch)
    refine ⟨fun name => (htaken name).trans (h.taken name), ?_, ?_, ?_⟩
    · intro row hmem
      rcases (hrows row).mp hmem with heq | ⟨hmem, -⟩
      · rw [heq]
        exact Or.inr ⟨own, hown, by rw [hname]; exact hfreeRaw, hrow⟩
      · exact h.known row hmem
    · intro row hmem hnone
      refine (hrows row).mpr (Or.inr ⟨h.kept row hmem hnone, fun heq => ?_⟩)
      refine hnone own hown (by rw [hname]; exact hfreeRaw) ?_
      rw [hownid, heq]
    · intro x hx hfree
      rcases List.mem_append.mp hx with hx | hx
      · by_cases hsame : some x.upstreamId = some raw.upstreamId
        · obtain ⟨own', hown', hrow'⟩ := hdone x hx
          have hownid' : own'.upstreamId = x.upstreamId :=
            Option.some.inj (congrArg Prod.fst hrow')
          refine (hrows _).mpr (Or.inl ?_)
          rw [← hrow', ← hrow]
          refine row_eq_of_upstreamId hunique hown' hown ?_
          rw [hownid', hownid]
          exact Option.some.inj hsame
        · exact (hrows _).mpr (Or.inr ⟨h.written x hx hfree, hsame⟩)
      · rw [List.mem_singleton.mp hx]
        exact (hrows _).mpr (Or.inl rfl)

theorem rows_eq_of_settled (hs : Settled text source c all all s)
    (ht : Settled text source c all all t) : rows source s = rows source t := by
  have hsub : ∀ {s t}, Settled text source c all all s → Settled text source c all all t →
      rows source s ⊆ rows source t := by
    intro s t hs ht row hrow
    rcases hs.known row hrow with hold | ⟨raw, hraw, hfree, heq⟩
    · by_cases hnone : ∀ raw ∈ all, ¬Taken text source c raw.name → some raw.upstreamId ≠ row.1
      · exact ht.kept row hold hnone
      · simp only [not_forall, not_not] at hnone
        obtain ⟨raw, hraw, hfree, hid⟩ := hnone
        rw [← row_eq_of_id (hs.written raw hraw hfree) hrow hid]
        exact ht.written raw hraw hfree
    · rw [← heq]
      exact ht.written raw hraw hfree
  exact Set.Subset.antisymm (hsub hs ht) (hsub ht hs)

def StaleRow (source : SourceType) (row : Row) : Prop :=
  source = .nistCpe ∧ (row.1.any fun id => "cpe:".toList.isPrefixOf id.toList) = true

theorem mem_rows_cleaned {row : Row} :
    row ∈ rows source (cleaned source s) ↔ row ∈ rows source s ∧ ¬StaleRow source row := by
  unfold cleaned
  by_cases hsource : source = .nistCpe
  · rw [if_pos hsource]
    have hstale : ∀ e : LibraryEntry, e.source = source →
        (isStale source e = false ↔ ¬StaleRow source e.row) := by
      intro e he
      unfold isStale StaleRow
      rw [he, beq_self_eq_true, Bool.true_and, Bool.eq_false_iff, not_and]
      exact ⟨fun h _ => h, fun h => h hsource⟩
    constructor
    · intro ⟨e, he, hes, hrow⟩
      obtain ⟨he, hkeep⟩ := Indexed.mem_deleteMany.mp he
      rw [← hrow]
      exact ⟨⟨e, he, hes, rfl⟩, (hstale e hes).mp hkeep⟩
    · intro ⟨⟨e, he, hes, hrow⟩, hkeep⟩
      rw [← hrow] at hkeep
      exact ⟨e, Indexed.mem_deleteMany.mpr ⟨he, (hstale e hes).mpr hkeep⟩, hes, hrow⟩
  · rw [if_neg hsource]
    exact ⟨fun h => ⟨h, fun hstale => hsource hstale.1⟩, fun h => h.1⟩

theorem taken_cleaned {name : String} :
    Taken text source (cleaned source s) name ↔ Taken text source s name := by
  unfold cleaned
  split
  · constructor
    · intro ⟨e, he, hother, hmatch⟩
      exact ⟨e, (Indexed.mem_deleteMany.mp he).1, hother, hmatch⟩
    · intro ⟨e, he, hother, hmatch⟩
      refine ⟨e, Indexed.mem_deleteMany.mpr ⟨he, ?_⟩, hother, hmatch⟩
      unfold isStale
      rw [beq_false_of_ne hother, Bool.false_and]
  · exact Iff.rfl

/-- A fresh run starts again. -/
theorem Settled.cleaned (h : Settled text source (cleaned source c) all done s) :
    Settled text source (Library.cleaned source c) all [] (Library.cleaned source s) := by
  refine ⟨fun name => taken_cleaned.trans (h.taken name), fun row hrow => ?_,
    fun row hrow hnone => ?_,
    fun _ hraw => absurd hraw List.not_mem_nil⟩
  · exact h.known row (mem_rows_cleaned.mp hrow).1
  · exact mem_rows_cleaned.mpr ⟨h.kept row hrow hnone, (mem_rows_cleaned.mp hrow).2⟩

end Settled

section Pages

variable (r : PagedRunner) (listing : List r.paged.Item)

def served (_ : Nat) : Bool := false

def PagedRunner.before (start : Nat) : List RawEntry :=
  firsts r.adapter.entry [] (r.adapter.between listing 0 start)

/-- The entries of a page and of those behind it, without a memory of the pages before. -/
def PagedRunner.entriesFrom (start : Nat) : List RawEntry :=
  firsts r.adapter.entry [] (r.adapter.reached listing served (listing.length + 1) start)

def PagedRunner.straight (limit : Nat) : List RawEntry := (r.entriesFrom listing 0).take limit

/-- Within the limit that is left, the page and those behind it give every entry of the
run that goes through again, and none that it has otherwise. -/
structure Resumable (limit : Nat) (state : AdapterState) : Prop where
  reaches : ∀ raw ∈ (r.straight listing limit).drop (r.before listing state.start).length,
    ∃ again ∈ (r.entriesFrom listing state.start).take (limit - state.fetched),
      again.upstreamId = raw.upstreamId
  agrees : Covers (r.straight listing limit)
    ((r.entriesFrom listing state.start).take (limit - state.fetched))

def IsPage (start : Nat) : Prop :=
  r.adapter.reached listing served (listing.length + 1) 0 =
    r.adapter.between listing 0 start ++
      r.adapter.reached listing served (listing.length + 1) start

variable {r listing} {limit start fetched i : Nat} {state : AdapterState}

theorem isPage_zero : IsPage r listing 0 := by
  unfold IsPage
  rw [Adapter.between_self]
  rfl

theorem before_zero : r.before listing 0 = [] := by
  unfold PagedRunner.before
  rw [Adapter.between_self]
  rfl

theorem covers_of_stands (hpage : IsPage r listing start)
    (hstands : r.adapter.Stands listing served start fetched [] i state)
    (hi : i < ((r.entriesFrom listing start).take (limit - fetched)).length) :
    IsPage r listing state.start ∧
      Covers ((r.straight listing limit).take (r.before listing start).length ++
          ((r.entriesFrom listing start).take (limit - fetched)).take i)
        ((r.straight listing limit).take (r.before listing state.start).length) := by
  obtain ⟨-, hle, hbefore, hreached⟩ := hstands
  have hall : r.adapter.between listing 0 state.start =
      r.adapter.between listing 0 start ++ r.adapter.between listing start state.start :=
    Adapter.between_append (Nat.zero_le start) hle
  constructor
  · unfold IsPage
    rw [hall, List.append_assoc, ← hreached]
    exact hpage
  · intro raw hraw
    obtain ⟨rest, hfrom⟩ : ∃ rest, r.entriesFrom listing 0 = r.before listing start ++
        (firsts r.adapter.entry (marked r.adapter.entry [] (r.adapter.between listing 0 start))
          (r.adapter.between listing start state.start) ++ rest) := by
      unfold PagedRunner.entriesFrom PagedRunner.before
      unfold IsPage at hpage
      rw [hpage, hreached, firsts_append, firsts_append]
      exact ⟨_, rfl⟩
    have hpages : (r.before listing state.start).length = (r.before listing start).length +
        (firsts r.adapter.entry (marked r.adapter.entry [] (r.adapter.between listing 0 start))
          (r.adapter.between listing start state.start)).length := by
      unfold PagedRunner.before
      rw [← List.length_append, ← firsts_append, hall]
    obtain ⟨rest', hthis⟩ : ∃ rest', r.entriesFrom listing start =
        firsts r.adapter.entry [] (r.adapter.between listing start state.start) ++ rest' := by
      unfold PagedRunner.entriesFrom
      rw [hreached, firsts_append]
      exact ⟨_, rfl⟩
    refine ⟨raw, List.mem_append.mpr ?_, rfl⟩
    rw [hpages, List.take_add, List.mem_append] at hraw
    refine hraw.imp_right fun hlater => ?_
    -- The entry is on a page from the start on, where it comes first with its key.
    rw [PagedRunner.straight, List.drop_take, hfrom, List.drop_left, List.take_take, Nat.min_comm,
      ← List.take_take, List.take_left] at hlater
    have hfirst : raw ∈ firsts r.adapter.entry [] (r.adapter.between listing start state.start) :=
      (firsts_sublist fun _ hk => absurd hk List.not_mem_nil).subset (List.mem_of_mem_take hlater)
    rw [List.length_take] at hi
    rw [List.take_take, Nat.min_eq_left (by omega), hthis, List.take_append,
      List.take_of_length_le hbefore]
    exact List.mem_append_left _ hfirst

end Pages

/-- When a cancellation is asked for, by the number of entries before, and behind how many
steps the process crashes. -/
structure Interruption where
  cancelled : Nat → Bool := fun _ => false
  crash : Option Nat := none

section Interrupted

variable (r : PagedRunner) (listing : List r.paged.Item) (config : Config)

/-- `trigger`, or `resume` where there is a checkpoint. -/
def PagedRunner.start (given : Conditions) (s : IngestState) :
    Process IngestState RunnerOp LoopEnd :=
  match s.checkpoint with
  | some checkpoint => r.session given listing served (some checkpoint) checkpoint.config
  | none => r.session given listing served none config

/-- What a run leaves. -/
def PagedRunner.interrupted (x : Interruption) (s : IngestState) : IngestState :=
  match x.crash with
  | some n => (r.start listing config { cancelled := x.cancelled } s).cut n s
  | none => ((r.start listing config { cancelled := x.cancelled } s).run s).1

def PagedRunner.interruptedAll (xs : List Interruption) (s : IngestState) : IngestState :=
  let t := xs.foldl (fun s x => r.interrupted listing config x s) s
  ((r.start listing config {} t).run t).1

def Resumes (s : IngestState) : Prop :=
  ∀ checkpoint, s.checkpoint = some checkpoint → ∀ state, checkpoint.adapterState = some state →
    Resumable r listing (r.adapter.maxResults checkpoint.config) state

def AllResume : List Interruption → IngestState → Prop
  | [], s => Resumes r listing s
  | x :: xs, s => Resumes r listing s ∧ AllResume xs (r.interrupted listing config x s)

end Interrupted

section Endures

variable {r : Runner} {given : Conditions} {n : Nat} {raw : RawEntry} {I : IngestState → Prop}
  {s : IngestState}

theorem endures_tryIngest (hfresh : FreshIds r.newId) (hfault : given.fault n = none) (hs : I s)
    (hI : I (s.setLibrary (ingested r.text r.source (r.newId s.library) raw s.library))) :
    Endures Eq I (fun t result =>
      t = s.setLibrary (ingested r.text r.source (r.newId s.library) raw s.library) ∧
        ∃ x, result = .ok x) s (tryIngest r given n raw) := by
  have hrun := run_zoom_entry (ingest r.text r.source (r.newId s.library) raw) s
  have hcut : ∀ k, I (((ingest r.text r.source (r.newId s.library) raw).zoom IngestState.library
      IngestState.setLibrary RunnerOp.entry).cut k s) := by
    intro k
    have hzoom := @cut_zoom LibraryStore SourceOp Ingested IngestState RunnerOp IngestState.library
      IngestState.setLibrary RunnerOp.entry (fun _ _ => rfl) (fun _ _ _ => rfl) (fun _ => rfl) k
      (ingest r.text r.source (r.newId s.library) raw) s
    rw [hzoom]
    rcases cut_ingest r.text r.source (r.newId s.library) raw k s.library with h | h
    · rw [h]
      exact hs
    · rw [h]
      exact hI
  have hresult : ((ingest r.text r.source (r.newId s.library) raw).run s.library).2 ≠ .skipped :=
    result_ingest (hfresh s.library)
  have hdraw : Endures Eq I (fun t id => t = s ∧ id = r.newId s.library) s
      (Process.read RunnerOp.drawId fun s => r.newId s.library) :=
    endures_atomic fun t ht hI => ht ▸ ⟨hs, rfl, rfl⟩
  unfold tryIngest
  refine hdraw.bind fun t id ⟨ht, hid⟩ => ?_
  subst ht hid
  dsimp only
  rw [hfault]
  dsimp only
  refine Endures.bind (endures_of_cut hcut ⟨rfl, rfl⟩ :
    Endures Eq I (fun u x => u = _ ∧ x = _) t _) fun u x ⟨hu, hx⟩ => ?_
  rw [hrun] at hu hx
  rw [state_ingest] at hu
  have hok : x ≠ .skipped := by
    rw [hx]
    exact hresult
  cases x with
  | created => exact ⟨hu, _, rfl⟩
  | updated => exact ⟨hu, _, rfl⟩
  | skipped => exact absurd rfl hok

end Endures

section Runs

variable (r : PagedRunner) (listing : List r.paged.Item) (config : Config) (c : LibraryStore)

/-- The entries of the run that goes through, with the limit of the configuration. -/
def PagedRunner.target : List RawEntry := r.straight listing (r.adapter.maxResults config)

def PagedRunner.pagesBefore (start : Nat) : List RawEntry :=
  (r.target listing config).take (r.before listing start).length

/-- Some entries are done, those of the pages before the one of the checkpoint among them. -/
structure Progress (done : List RawEntry) (s : IngestState) : Prop where
  listed : Covers (r.target listing config) done
  settled : Settled r.py.toText r.paged.source (cleaned r.paged.source c) (r.target listing config)
    done s.library
  saved : ∀ checkpoint, s.checkpoint = some checkpoint → checkpoint.config = config ∧
    ∃ state, checkpoint.adapterState = some state ∧ IsPage r listing state.start ∧
      Covers done (r.pagesBefore listing config state.start)

/-- What every cut leaves: a checkpoint and what was done before its page, or nothing that
a fresh run does not do again. -/
structure Resting (s : IngestState) : Prop where
  fresh : s.checkpoint = none → Settled r.py.toText r.paged.source (cleaned r.paged.source c)
    (r.target listing config) [] (cleaned r.paged.source s.library)
  saved : ∀ checkpoint, s.checkpoint = some checkpoint → checkpoint.config = config ∧
    ∃ state, checkpoint.adapterState = some state ∧ IsPage r listing state.start ∧
      Settled r.py.toText r.paged.source (cleaned r.paged.source c) (r.target listing config)
        (r.pagesBefore listing config state.start) s.library

variable {r listing config c} {done base : List RawEntry} {s : IngestState}

theorem nodup_target : ((r.target listing config).map RawEntry.upstreamId).Nodup := by
  exact (r.nodup_admitted _ []).sublist ((List.take_sublist ..).map _)

theorem Progress.resting (h : Progress r listing config c done s) :
    Resting r listing config c s := by
  refine ⟨fun _ => h.settled.cleaned, fun checkpoint hsome => ?_⟩
  obtain ⟨hconfig, state, hstate, hpage, hcovers⟩ := h.saved checkpoint hsome
  exact ⟨hconfig, state, hstate, hpage, h.settled.mono hcovers⟩

theorem Progress.save (h : Progress r listing config c done s) {run : IngestionRun} {n : Nat}
    {state : AdapterState} {status : RunStatus} (hpage : IsPage r listing state.start)
    (hcovers : Covers done (r.pagesBefore listing config state.start)) :
    Progress r listing config c done
      (s.saveCheckpoint (progressCheckpoint run n config state status)) := by
  refine ⟨h.listed, h.settled, fun checkpoint hsome => ?_⟩
  rw [← Option.some.inj hsome]
  exact ⟨rfl, state, rfl, hpage, hcovers⟩

theorem Progress.putRun (h : Progress r listing config c done s) {run : IngestionRun} :
    Progress r listing config c done (s.putRun run) :=
  ⟨h.listed, h.settled, h.saved⟩

theorem Covers.append_right {all some more : List RawEntry} (h : Covers all some) :
    Covers (all ++ more) some := fun raw hraw =>
  (h raw hraw).imp fun _ hown => ⟨List.mem_append_left _ hown.1, hown.2⟩

theorem Progress.ingested (h : Progress r listing config c done s) {raw : RawEntry}
    (hraw : ∃ own ∈ r.target listing config, own.row = raw.row) (hfresh : FreshIds r.newId) :
    Progress r listing config c (done ++ [raw])
      (s.setLibrary (ingested r.py.toText r.paged.source (r.newId s.library) raw s.library)) := by
  refine ⟨fun x hx => ?_, h.settled.ingested nodup_target h.listed hraw (hfresh s.library),
    fun checkpoint hsome => ?_⟩
  · rcases List.mem_append.mp hx with hx | hx
    · exact h.listed x hx
    · rw [List.mem_singleton.mp hx]
      exact hraw
  · obtain ⟨hconfig, state, hstate, hpage, hcovers⟩ := h.saved checkpoint hsome
    exact ⟨hconfig, state, hstate, hpage, hcovers.append_right⟩

theorem endures_saveProgress {given : Conditions} (hsaves : given.saveFails = fun _ => none)
    (h : Progress r listing config c done s) {run : IngestionRun} {n : Nat} {state : AdapterState}
    (hpage : IsPage r listing state.start)
    (hcovers : Covers done (r.pagesBefore listing config state.start)) :
    Endures Eq (Resting r listing config c)
      (fun t exc? => exc? = none ∧ Progress r listing config c done t) s
      (saveProgress given config run n state) := by
  unfold saveProgress
  split
  · rw [hsaves]
    intro t ht _
    subst ht
    have hsaved := @Progress.save r listing config c done s h run n state .running hpage hcovers
    refine ⟨hsaved.resting, fun u hu _ => ?_⟩
    subst hu
    exact ⟨hsaved.putRun.resting, rfl, hsaved.putRun⟩
  · exact ⟨rfl, h⟩

/-- The loop, from any of the entries on. -/
theorem endures_ingestEach {given : Conditions} (hfault : given.fault = fun _ => none)
    (hsaves : given.saveFails = fun _ => none) (hfresh : FreshIds r.newId) {yields : List Yield}
    (hlisted : Covers (r.target listing config) (yields.map Yield.raw))
    (hpages : ∀ i y, yields[i]? = some y → IsPage r listing y.state.start ∧
      Covers (base ++ (yields.map Yield.raw).take i) (r.pagesBefore listing config y.state.start))
    {i n : Nat} {run : IngestionRun}
    (h : Progress r listing config c (base ++ (yields.map Yield.raw).take i) s) :
    Endures Eq (Resting r listing config c)
      (fun t e => e.status = .completed →
        Progress r listing config c (base ++ yields.map Yield.raw) t) s
      (ingestEach r.toRunner given config (yields.drop i) n run) := by
  generalize hrest : yields.drop i = rest
  induction rest generalizing i n run s with
  | nil =>
    intro _
    rw [List.drop_eq_nil_iff] at hrest
    rw [List.take_of_length_le (by rw [List.length_map]; exact hrest)] at h
    exact h
  | cons y rest ih =>
    have hget : yields[i]? = some y := by
      rw [← List.head?_drop, hrest]
      rfl
    have hnext : yields.drop (i + 1) = rest := by
      rw [← List.drop_drop, hrest]
      rfl
    have htake : (yields.map Yield.raw).take (i + 1) =
      (yields.map Yield.raw).take i ++ [y.raw] := by
      rw [List.take_add_one, List.getElem?_map, hget]
      rfl
    obtain ⟨hpage, hcovers⟩ := hpages i y hget
    rw [ingestEach]
    by_cases hcancel : given.cancelled n = true
    · rw [if_pos hcancel]
      intro t ht _
      subst ht
      exact ⟨(h.save hpage hcovers).resting, fun hstatus => by cases hstatus⟩
    · rw [if_neg hcancel]
      have hstep :=
        h.ingested (hlisted y.raw (List.mem_map_of_mem (List.mem_of_getElem? hget))) hfresh
      refine (endures_tryIngest hfresh (congrFun hfault n) h.resting hstep.resting).bind ?_
      intro t result hingested
      obtain ⟨ht, x, hx⟩ := hingested
      subst ht hx
      dsimp only
      rw [tooMany, if_neg Bool.false_ne_true]
      refine (endures_saveProgress hsaves hstep hpage hcovers.append_right).bind ?_
      intro u exc? hsaved
      obtain ⟨hexc, hu⟩ := hsaved
      subst hexc
      dsimp only
      rw [List.append_assoc, ← htake] at hu
      exact (ih hu hnext).bind fun v e he => he

theorem covers_refl {all : List RawEntry} : Covers all all := fun raw hraw => ⟨raw, hraw, rfl⟩

theorem covers_pagesBefore {start : Nat} :
    Covers (r.target listing config) (r.pagesBefore listing config start) :=
  fun raw hraw => ⟨raw, List.mem_of_mem_take hraw, rfl⟩

theorem Resumable.covers {state : AdapterState}
    (h : Resumable r listing (r.adapter.maxResults config) state) :
    Covers (r.pagesBefore listing config state.start ++
        (r.entriesFrom listing state.start).take (r.adapter.maxResults config - state.fetched))
      (r.target listing config) := by
  intro raw hraw
  have hsplit := hraw
  rw [← List.take_append_drop (r.before listing state.start).length (r.target listing config),
    List.mem_append] at hsplit
  rcases hsplit with hbefore | hbehind
  · exact ⟨raw, List.mem_append_left _ hbefore, rfl⟩
  · obtain ⟨again, hagain, hid⟩ := h.reaches raw hbehind
    obtain ⟨own, hown, hrow⟩ := h.agrees again hagain
    have hownid : own.upstreamId = raw.upstreamId :=
      (Option.some.inj (congrArg Prod.fst hrow)).trans hid
    refine ⟨again, List.mem_append_right _ hagain, ?_⟩
    rw [← hrow]
    exact row_eq_of_upstreamId nodup_target hown hraw hownid

theorem resumable_start {limit : Nat} : Resumable r listing limit {} := by
  refine ⟨fun raw hraw => ⟨raw, List.mem_of_mem_drop hraw, rfl⟩, covers_refl⟩

theorem resumable_of_new {limit : Nat} {state : AdapterState} (hpage : IsPage r listing state.start)
    (hcount : (r.before listing state.start).length ≤ state.fetched)
    (hnew : ∀ item ∈ r.adapter.reached listing served (listing.length + 1) state.start, ∀ key raw,
      r.adapter.entry item = some (key, raw) →
        key ∉ marked r.adapter.entry [] (r.adapter.between listing 0 state.start))
    (hlimit : state.fetched + (r.entriesFrom listing state.start).length ≤ limit ∨
      state.fetched = (r.before listing state.start).length) :
    Resumable r listing limit state := by
  have hfrom : r.entriesFrom listing 0 =
      r.before listing state.start ++ r.entriesFrom listing state.start := by
    unfold PagedRunner.entriesFrom PagedRunner.before
    unfold IsPage at hpage
    rw [hpage, firsts_append]
    refine congrArg _ (firsts_of_new fun item hitem key raw hentry => ?_)
    exact iff_of_false (hnew item hitem key raw hentry) List.not_mem_nil
  have hbehind : (r.straight listing limit).drop (r.before listing state.start).length =
      (r.entriesFrom listing state.start).take (limit - state.fetched) := by
    unfold PagedRunner.straight
    rw [hfrom, List.drop_take, List.drop_left]
    rcases hlimit with hlimit | hlimit
    · rw [List.take_of_length_le (by omega), List.take_of_length_le (by omega)]
    · rw [hlimit]
  refine ⟨fun raw hraw => ?_, fun raw hraw => ?_⟩
  · rw [hbehind] at hraw
    exact ⟨raw, hraw, rfl⟩
  · rw [← hbehind] at hraw
    exact ⟨raw, List.mem_of_mem_drop hraw, rfl⟩

theorem endures_loop {given : Conditions} (hsize : 0 < r.pageSize)
    (hfault : given.fault = fun _ => none) (hsaves : given.saveFails = fun _ => none)
    (hfresh : FreshIds r.newId) {state : AdapterState} (hpage : IsPage r listing state.start)
    (hgood : Resumable r listing (r.adapter.maxResults config) state)
    (h : Progress r listing config c (r.pagesBefore listing config state.start) s) {n : Nat}
    {run : IngestionRun} :
    Endures Eq (Resting r listing config c)
      (fun t e => e.status = .completed →
        Progress r listing config c (r.target listing config) t) s
      (ingestEach r.toRunner given config (r.adapter.fetch config listing served (some state)) n
        run) := by
  have hraws : (r.adapter.fetch config listing served (some state)).map Yield.raw =
      (r.entriesFrom listing state.start).take (r.adapter.maxResults config - state.fetched) :=
    Adapter.raws_pages (listing.length + 1)
  have hloop := @endures_ingestEach r listing config c (r.pagesBefore listing config state.start) s
    given hfault hsaves hfresh (r.adapter.fetch config listing served (some state))
    (by rw [hraws]; exact hgood.agrees)
  refine Endures.mono (@hloop ?_ 0 n run ?_) fun t e hprogress hcompleted => ?_
  · intro i y hget
    have hi : i < (r.adapter.fetch config listing served (some state)).length :=
      (List.getElem?_eq_some_iff.mp hget).1
    rw [← List.length_map Yield.raw, hraws] at hi
    rw [hraws]
    refine covers_of_stands hpage (Adapter.stands_getElem? ?_ (by omega) hget) hi
    rw [r.adapter_pageSize]
    exact hsize
  · rw [List.take_zero, List.append_nil]
    exact h
  · have hdone := hprogress hcompleted
    rw [hraws] at hdone
    refine ⟨covers_refl, hdone.settled.mono hgood.covers, fun checkpoint hsome => ?_⟩
    obtain ⟨hconfig, state', hstate, hpage', -⟩ := hdone.saved checkpoint hsome
    exact ⟨hconfig, state', hstate, hpage', covers_pagesBefore⟩

theorem Resting.putRun (h : Resting r listing config c s) {run : IngestionRun} :
    Resting r listing config c (s.putRun run) :=
  ⟨h.fresh, h.saved⟩

theorem Progress.clearCheckpoint (h : Progress r listing config c done s) :
    Progress r listing config c done s.clearCheckpoint :=
  ⟨h.listed, h.settled, fun _ hsome => by cases hsome⟩

theorem endures_finish {p : Process IngestState RunnerOp LoopEnd}
    (h : Endures Eq (Resting r listing config c)
      (fun t e => e.status = .completed →
        Progress r listing config c (r.target listing config) t) s p) :
    Endures Eq (Resting r listing config c)
      (fun t e => e.status = .completed →
        Progress r listing config c (r.target listing config) t) s
      (p >>= fun e => do
        Process.write .updateRun (IngestState.putRun e.finalized.run)
        pure e.finalized) := by
  refine h.bind fun t e hprogress => ?_
  intro u hu hrest
  subst hu
  exact ⟨hrest.putRun, fun hcompleted => (hprogress hcompleted).putRun⟩

theorem endures_deleteStale (hnone : s.checkpoint = none) (hrest : Resting r listing config c s) :
    Endures Eq (Resting r listing config c)
      (fun t _ => Progress r listing config c [] t) s (deleteStale r.toRunner none) := by
  have hstart := hrest.fresh hnone
  have hprogress : ∀ library, library = cleaned r.paged.source s.library →
      Progress r listing config c [] (s.setLibrary library) := by
    intro library hlibrary
    rw [hlibrary]
    refine ⟨fun _ hraw => absurd hraw List.not_mem_nil, hstart, fun checkpoint hsome => ?_⟩
    exact absurd (hnone.symm.trans hsome) (by simp)
  unfold deleteStale
  by_cases hsource : r.paged.source = .nistCpe
  · rw [if_pos ⟨rfl, hsource⟩]
    intro t ht _
    subst ht
    have hclean := hprogress (cleanUp r.paged.source s.library) (by
      unfold cleaned
      rw [if_pos hsource])
    exact ⟨hclean.resting, hclean⟩
  · rw [if_neg fun h => hsource h.2]
    exact hprogress s.library (by
      unfold cleaned
      rw [if_neg hsource])

theorem endures_execute {given : Conditions} (hsize : 0 < r.pageSize)
    (hfault : given.fault = fun _ => none) (hsaves : given.saveFails = fun _ => none)
    (hfresh : FreshIds r.newId) (hrest : Resting r listing config c s)
    (hgood : Resumes r listing s) :
    Endures Eq (Resting r listing config c)
      (fun t e => e.status = .completed →
        Progress r listing config c (r.target listing config) t) s
      (execute r.toRunner given s.checkpoint config
        (r.adapter.fetch config listing served (s.checkpoint.bind Checkpoint.adapterState))) := by
  cases hcheckpoint : s.checkpoint with
  | none =>
    refine (endures_deleteStale hcheckpoint hrest).bind fun t _ hclean => ?_
    intro u hu _
    subst hu
    refine ⟨hclean.putRun.resting, ?_⟩
    have hstart : Progress r listing config c (r.pagesBefore listing config 0)
        (t.putRun (startRun r.toRunner none)) := by
      unfold PagedRunner.pagesBefore
      rw [before_zero]
      exact hclean.putRun
    exact endures_finish
      (endures_loop hsize hfault hsaves hfresh isPage_zero resumable_start hstart)
  | some checkpoint =>
    obtain ⟨hconfig, state, hstate, hpage, hsettled⟩ := hrest.saved checkpoint hcheckpoint
    have hresumable := hgood checkpoint hcheckpoint state hstate
    rw [hconfig] at hresumable
    have hstart : Progress r listing config c (r.pagesBefore listing config state.start) s := by
      refine ⟨covers_pagesBefore, hsettled, fun checkpoint' hsome => ?_⟩
      obtain rfl := Option.some.inj (hcheckpoint.symm.trans hsome)
      exact ⟨hconfig, state, hstate, hpage, covers_refl⟩
    have hloop := @endures_loop r listing config c s given hsize hfault hsaves hfresh state hpage
      hresumable hstart checkpoint.synced (startRun r.toRunner (some checkpoint))
    rw [← hstate] at hloop
    exact endures_finish hloop

theorem endures_start {given : Conditions} (hsize : 0 < r.pageSize)
    (hfault : given.fault = fun _ => none) (hsaves : given.saveFails = fun _ => none)
    (hfresh : FreshIds r.newId) (hrest : Resting r listing config c s)
    (hgood : Resumes r listing s) :
    Endures Eq (Resting r listing config c)
      (fun t e => e.status = .completed →
        Progress r listing config c (r.target listing config) t) s
      (r.start listing config given s) := by
  have hexecute := endures_execute hsize hfault hsaves hfresh hrest hgood
  have hstart : r.start listing config given s =
      r.session given listing served s.checkpoint config := by
    unfold PagedRunner.start
    cases hcheckpoint : s.checkpoint with
    | none => rfl
    | some checkpoint =>
      dsimp only
      rw [(hrest.saved checkpoint hcheckpoint).1]
  rw [hstart]
  refine hexecute.bind fun t e hprogress => ?_
  by_cases hcompleted : e.status = .completed
  · rw [if_pos hcompleted]
    intro u hu _
    subst hu
    have hdone := (hprogress hcompleted).clearCheckpoint
    exact ⟨hdone.resting, fun _ => hdone⟩
  · rw [if_neg hcompleted]
    exact hprogress

theorem resting_start (hnone : s.checkpoint = none) :
    Resting r listing config s.library s :=
  ⟨fun _ => settled_start, fun _ hsome => absurd (hnone.symm.trans hsome) (by simp)⟩

theorem Resting.interrupted (hsize : 0 < r.pageSize) (hfresh : FreshIds r.newId)
    (hrest : Resting r listing config c s) (hgood : Resumes r listing s) (x : Interruption) :
    Resting r listing config c (r.interrupted listing config x s) := by
  have hrun := @endures_start r listing config c s { cancelled := x.cancelled } hsize rfl rfl hfresh
    hrest hgood
  unfold PagedRunner.interrupted
  cases x.crash with
  | none => exact (hrun.run hrest).1
  | some n => exact hrun.cut hrest n

theorem Resting.interruptedAll (hsize : 0 < r.pageSize) (hfresh : FreshIds r.newId)
    {xs : List Interruption} (hrest : Resting r listing config c s)
    (hgood : AllResume r listing config xs s) :
    Resting r listing config c (xs.foldl (fun s x => r.interrupted listing config x s) s) ∧
      Resumes r listing (xs.foldl (fun s x => r.interrupted listing config x s) s) := by
  induction xs generalizing s with
  | nil => exact ⟨hrest, hgood⟩
  | cons x xs ih => exact ih (hrest.interrupted hsize hfresh hgood.1 x) hgood.2

theorem status_start (hfresh : FreshIds r.newId) :
    ((r.start listing config {} s).run s).2.status = .completed := by
  have hsession : ∀ checkpoint config,
      ((r.session {} listing served checkpoint config).run s).2.status = .completed := by
    intro checkpoint config
    obtain ⟨t, -, -, hend⟩ := safeRun_loop r.toRunner {} checkpoint config
      (r.adapter.fetch config listing served (checkpoint.bind Checkpoint.adapterState)) s
    unfold PagedRunner.session
    rw [hend]
    exact (@run_ingestEach r.toRunner config _ _ _ hfresh t).2
  unfold PagedRunner.start
  split
  · exact hsession ..
  · exact hsession ..

theorem settled_of_start (hsize : 0 < r.pageSize) (hfresh : FreshIds r.newId)
    (hrest : Resting r listing config c s) (hgood : Resumes r listing s) :
    Settled r.py.toText r.paged.source (cleaned r.paged.source c) (r.target listing config)
      (r.target listing config) ((r.start listing config {} s).run s).1.library := by
  have hrun := @endures_start r listing config c s {} hsize rfl rfl hfresh hrest hgood
  exact ((hrun.run hrest).2 (status_start hfresh)).settled

end Runs

/-- Where every resumed run gives again what the run that goes through has from the page
on, and nothing else, interruptions leave the entries of the source as they are without. -/
theorem interrupted_rows (r : PagedRunner) (hsize : 0 < r.pageSize) (hfresh : FreshIds r.newId)
    (listing : List r.paged.Item) (config : Config) (xs : List Interruption) (s : IngestState)
    (hnone : s.checkpoint = none) (hresume : AllResume r listing config xs s) :
    rows r.paged.source (r.interruptedAll listing config xs s).library =
      rows r.paged.source ((r.start listing config {} s).run s).1.library := by
  have hrest : Resting r listing config s.library s := resting_start hnone
  have hstraight : Resumes r listing s := fun _ hsome => absurd (hnone.symm.trans hsome) (by simp)
  obtain ⟨hrest', hgood⟩ := hrest.interruptedAll hsize hfresh hresume
  exact rows_eq_of_settled (settled_of_start hsize hfresh hrest' hgood)
    (settled_of_start hsize hfresh hrest hstraight)

/-- Both products are on pages of their own. -/
theorem cpe_interrupted_rows :
    rows .nistCpe (cpeRunner.interruptedAll cpeListing {}
        [{ cancelled := fun n => n == 1 }] emptyLibrary).library =
      rows .nistCpe
        ((cpeRunner.start cpeListing {} {} emptyLibrary).run emptyLibrary).1.library := by
  refine interrupted_rows cpeRunner Nat.one_pos longId_fresh cpeListing {}
    [{ cancelled := fun n => n == 1 }] emptyLibrary rfl
    ⟨fun _ hsome => (by cases hsome), fun checkpoint hsome state hstate => ?_⟩
  have hsaved : (cpeRunner.interrupted cpeListing {} { cancelled := fun n => n == 1 }
      emptyLibrary).checkpoint.map (fun checkpoint =>
        (checkpoint.config, checkpoint.adapterState)) =
        some ({}, some ⟨1, 1⟩) := by decide +kernel
  rw [hsome] at hsaved
  have hconfig : checkpoint.config = {} := congrArg Prod.fst (Option.some.inj hsaved)
  have hadapter : checkpoint.adapterState = some ⟨1, 1⟩ :=
    congrArg Prod.snd (Option.some.inj hsaved)
  rw [hadapter] at hstate
  rw [hconfig, ← Option.some.inj hstate]
  refine resumable_of_new rfl (by decide) (fun item hitem key raw hentry => ?_) (Or.inr (by decide))
  have hitem' : item = ⟨"cpe:2.3:a:mozilla:firefox:*:*:*:*:*:*:*:*", []⟩ :=
    List.mem_singleton.mp hitem
  have hkey : (cpeEntry plainPyText item).map Prod.fst = some "mozilla:firefox" := by
    rw [hitem']
    decide
  rw [show cpeEntry plainPyText item = some (key, raw) from hentry] at hkey
  rw [show key = "mozilla:firefox" from Option.some.inj hkey]
  decide

def onePageRunner : PagedRunner := { cpeRunner with pageSize := 2 }

/-- Both are on one page and within the limit. -/
theorem resumed_page_counts_again :
    ¬∀ (r : PagedRunner), 0 < r.pageSize → FreshIds r.newId → ∀ (listing : List r.paged.Item)
      (config : Config) (xs : List Interruption) (s : IngestState), s.checkpoint = none →
        rows r.paged.source (r.interruptedAll listing config xs s).library =
          rows r.paged.source ((r.start listing config {} s).run s).1.library := by
  intro hall
  have heq := hall onePageRunner Nat.two_pos longId_fresh cpeListing { maxResults := some 2 }
    [{ cancelled := fun n => n == 1 }] emptyLibrary rfl
  have hids : (onePageRunner.interruptedAll cpeListing { maxResults := some 2 }
      [{ cancelled := fun n => n == 1 }] emptyLibrary).library.entries.docs.map
        LibraryEntry.upstreamId = [some "google:chrome"] := by decide +kernel
  have hsettled := @settled_of_start onePageRunner cpeListing { maxResults := some 2 }
    emptyLibrary.library emptyLibrary Nat.two_pos longId_fresh (resting_start rfl)
    fun _ hsome => by cases hsome
  have hstraight := hsettled.written cpeFirefox (by decide) fun ⟨_, he, _⟩ => by cases he
  have hmem := heq.symm ▸ hstraight
  obtain ⟨e, he, -, hrow⟩ := hmem
  have hid : e.upstreamId ∈ [some "google:chrome"] := by
    rw [← hids]
    exact List.mem_map_of_mem he
  have hfirefox : e.upstreamId = some "mozilla:firefox" := congrArg Prod.fst hrow
  rw [hfirefox] at hid
  exact absurd hid (by decide)

end Sentora.Library
