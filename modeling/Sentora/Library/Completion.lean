import Mathlib.Data.List.TakeDrop
import Sentora.Library.Orders

/-!
# Completed ingestions

Whether a run that ends as completed has reached every entry of the listing that the
adapter admits.

A request that fails, a page without usable items, the default limit and the hundred
and first error all leave a loop the way its natural end does, and the run is marked
as completed.
-/

namespace Sentora.Library

open Lib Process

def Adapter.Ends {ι : Type} (a : Adapter ι) (listing : List ι) (fails : Nat → Bool)
    (start : Nat) : Prop :=
  fails start = true ∨ a.parsed listing start = []

section Pages

variable {ι : Type} {a : Adapter ι} {listing : List ι} {fails : Nat → Bool} {start : Nat}
  {seen : List String}

theorem filter_drop_eq :
    (listing.drop start).filter a.keeps =
      a.parsed listing start ++ (listing.drop (start + a.pageSize)).filter a.keeps := by
  unfold Adapter.parsed
  rw [← List.filter_append, ← List.drop_drop, List.take_append_drop]

theorem filter_take_succ (k : Nat) :
    ((listing.drop start).take ((k + 1) * a.pageSize)).filter a.keeps =
      a.parsed listing start ++
        ((listing.drop (start + a.pageSize)).take (k * a.pageSize)).filter a.keeps := by
  unfold Adapter.parsed
  rw [← List.filter_append, ← List.drop_drop, Nat.succ_mul, Nat.add_comm, List.take_add]

theorem reached_of_ends {fuel : Nat} (h : a.Ends listing fails start) :
    a.reached listing fails (fuel + 1) start = [] := by
  rw [Adapter.reached]
  rcases h with hfails | hnil
  · rw [if_pos hfails]
  · rw [hnil]
    exact ite_self []

theorem reached_of_page {fuel : Nat} (h : ¬a.Ends listing fails start) :
    a.reached listing fails (fuel + 1) start =
      a.parsed listing start ++
        if a.stopsAtTotal && decide (listing.length ≤ start + a.pageSize) then []
        else a.reached listing fails fuel (start + a.pageSize) := by
  obtain ⟨item, rest, hparsed⟩ := List.exists_cons_of_ne_nil fun hnil => h (Or.inr hnil)
  rw [Adapter.reached, if_neg fun hfails => h (Or.inl hfails), hparsed]
  dsimp only
  split
  · rw [List.append_nil]
  · rfl

/-- What the pages give is all there is if and only if nothing is admitted behind a
request that ends the loop. -/
theorem firsts_reached (hsize : 0 < a.pageSize) {fuel : Nat}
    (hfuel : listing.length < start + fuel) :
    firsts a.entry seen (a.reached listing fails fuel start) <+:
        firsts a.entry seen ((listing.drop start).filter a.keeps) ∧
      (firsts a.entry seen (a.reached listing fails fuel start) =
          firsts a.entry seen ((listing.drop start).filter a.keeps) ↔
        ∀ k, a.Ends listing fails (start + k * a.pageSize) →
          firsts a.entry seen (((listing.drop start).take (k * a.pageSize)).filter a.keeps) =
            firsts a.entry seen ((listing.drop start).filter a.keeps)) := by
  induction fuel generalizing start seen with
  | zero =>
    have hnil : listing.drop start = [] := List.drop_eq_nil_of_le (by omega)
    rw [hnil]
    exact ⟨List.prefix_rfl, iff_of_true rfl fun k _ => by rw [List.take_nil]⟩
  | succ fuel ih =>
    by_cases hends : a.Ends listing fails start
    · rw [reached_of_ends hends]
      refine ⟨List.nil_prefix, fun hnil k _ => ?_, fun hall => ?_⟩
      · have hpre : (((listing.drop start).take (k * a.pageSize)).filter a.keeps) <+:
            (listing.drop start).filter a.keeps := (List.take_prefix ..).filter _
        obtain ⟨rest, hrest⟩ := hpre
        rw [← hrest, firsts_append] at hnil ⊢
        rw [(List.append_eq_nil_iff.mp hnil.symm).1, (List.append_eq_nil_iff.mp hnil.symm).2]
        rfl
      · have hzero := hall 0 (by rw [Nat.zero_mul, Nat.add_zero]; exact hends)
        rw [Nat.zero_mul, List.take_zero] at hzero
        exact hzero
    · rw [reached_of_page hends]
      by_cases htotal : a.stopsAtTotal && decide (listing.length ≤ start + a.pageSize)
      · have hlength : listing.length ≤ start + a.pageSize := by
          rw [Bool.and_eq_true, decide_eq_true_eq] at htotal
          exact htotal.2
        have hrest : listing.drop (start + a.pageSize) = [] := List.drop_eq_nil_of_le hlength
        have hall : (listing.drop start).filter a.keeps = a.parsed listing start := by
          rw [filter_drop_eq, hrest, List.filter_nil, List.append_nil]
        rw [if_pos htotal, hall, List.append_nil]
        refine ⟨List.prefix_rfl, iff_of_true rfl fun k hk => ?_⟩
        cases k with
        | zero =>
          rw [Nat.zero_mul, Nat.add_zero] at hk
          exact absurd hk hends
        | succ k => rw [filter_take_succ, hrest, List.take_nil, List.filter_nil, List.append_nil]
      · obtain ⟨hpre, hiff⟩ := @ih (start + a.pageSize)
          (marked a.entry seen (a.parsed listing start)) (by omega)
        rw [if_neg htotal, filter_drop_eq, firsts_append, firsts_append]
        refine ⟨(List.prefix_append_right_inj _).mpr hpre, ?_⟩
        rw [List.append_right_inj, hiff]
        constructor
        · intro hall k hk
          cases k with
          | zero =>
            rw [Nat.zero_mul, Nat.add_zero] at hk
            exact absurd hk hends
          | succ k =>
            rw [filter_take_succ, firsts_append, hall k]
            rw [show start + a.pageSize + k * a.pageSize = start + (k + 1) * a.pageSize by
              rw [Nat.succ_mul]; omega]
            exact hk
        · intro hall k hk
          have hk' := hall (k + 1) (by
            rw [show start + (k + 1) * a.pageSize = start + a.pageSize + k * a.pageSize by
              rw [Nat.succ_mul]; omega]
            exact hk)
          rw [filter_take_succ, firsts_append, List.append_right_inj] at hk'
          exact hk'

end Pages

section Errors

variable (given : Conditions)

def faultsUpTo : Nat → Nat → Nat
  | n, 0 => if (given.fault n).isSome then 1 else 0
  | n, i + 1 => (if (given.fault n).isSome then 1 else 0) + faultsUpTo (n + 1) i

def upToBreak : Nat → Nat → List RawEntry → List RawEntry
  | _, _, [] => []
  | n, errors, raw :: rest =>
    if (given.fault n).isSome then
      if 100 < errors + 1 then [raw] else raw :: upToBreak (n + 1) (errors + 1) rest
    else raw :: upToBreak (n + 1) errors rest

variable {given} {n errors : Nat} {raws : List RawEntry}

theorem upToBreak_isPrefix : upToBreak given n errors raws <+: raws := by
  induction raws generalizing n errors with
  | nil => exact List.prefix_rfl
  | cons raw rest ih =>
    rw [upToBreak]
    split
    · split
      · exact ⟨rest, rfl⟩
      · exact (List.prefix_cons_inj raw).mpr ih
    · exact (List.prefix_cons_inj raw).mpr ih

theorem upToBreak_eq_iff :
    upToBreak given n errors raws = raws ↔
      ∀ i, i + 1 < raws.length → (given.fault (n + i)).isSome →
        errors + faultsUpTo given n i ≤ 100 := by
  induction raws generalizing n errors with
  | nil => exact iff_of_true rfl fun i hi => absurd hi (Nat.not_lt_zero _)
  | cons raw rest ih =>
    have hshift : ∀ i, n + (i + 1) = n + 1 + i := fun i => by omega
    rw [upToBreak, List.length_cons]
    by_cases hfault : (given.fault n).isSome = true
    · rw [if_pos hfault]
      by_cases hmany : 100 < errors + 1
      · rw [if_pos hmany, List.cons_eq_cons]
        constructor
        · rintro ⟨-, rfl⟩ i hi
          exact absurd hi (by rw [List.length_nil]; omega)
        · intro hall
          refine ⟨rfl, ?_⟩
          by_contra hne
          have hlength : 0 < rest.length := List.length_pos_of_ne_nil fun h => hne h.symm
          have hfirst := hall 0 (by omega) hfault
          rw [faultsUpTo, if_pos hfault] at hfirst
          omega
      · rw [if_neg hmany, List.cons_eq_cons, eq_self_iff_true, true_and, ih]
        constructor
        · intro hall i hi hi'
          cases i with
          | zero =>
            rw [faultsUpTo, if_pos hfault]
            omega
          | succ i =>
            rw [hshift] at hi'
            have hrest := hall i (by omega) hi'
            rw [faultsUpTo, if_pos hfault]
            omega
        · intro hall i hi hi'
          rw [← hshift] at hi'
          have hrest := hall (i + 1) (by omega) hi'
          rw [faultsUpTo, if_pos hfault] at hrest
          omega
    · rw [if_neg hfault, List.cons_eq_cons, eq_self_iff_true, true_and, ih]
      constructor
      · intro hall i hi hi'
        cases i with
        | zero => exact absurd hi' hfault
        | succ i =>
          rw [hshift] at hi'
          have hrest := hall i (by omega) hi'
          rw [faultsUpTo, if_neg hfault]
          omega
      · intro hall i hi hi'
        rw [← hshift] at hi'
        have hrest := hall (i + 1) (by omega) hi'
        rw [faultsUpTo, if_neg hfault] at hrest
        omega

end Errors

def Written (text : Text) (source : SourceType) (raw : RawEntry) (s : LibraryStore) : Prop :=
  ∃ e ∈ s.entries,
    (e.upstream = (source, some raw.upstreamId) ∧ e.name = raw.name ∧ e.tags = raw.tags ∧
      e.markers = rawMarkers source raw) ∨
    (e.source ≠ source ∧ text.matchesName raw.name e.name = true ∧
      ∀ q ∈ raw.patterns, ∃ m ∈ e.markers, text.lower m.pattern = text.lower q)

section Written

variable {text : Text} {source : SourceType} {raw raw' : RawEntry} {s : LibraryStore} {id : String}

theorem written_ingested (hid : ∀ e ∈ s.entries, e.id ≠ id) :
    Written text source raw (ingested text source id raw s) := by
  cases hfound : findSameName text source raw.name s with
  | some existing =>
    obtain ⟨-, hmatch, hother⟩ := findSameName_eq_some hfound
    obtain ⟨d, hput, hup, hname, hpatterns⟩ := @puts_of_merge text source id raw s existing hfound
    have hsource : d.source = existing.source := congrArg Prod.fst hup
    refine ⟨d, (hput d).mpr (Or.inl rfl), Or.inr ⟨?_, ?_, fun q hq => ?_⟩⟩
    · rw [hsource]
      exact hother
    · rw [hname]
      exact hmatch
    · exact (hpatterns (text.lower q)).mpr (Or.inr ⟨q, hq, rfl⟩)
  | none =>
    obtain ⟨d, hput, hup, hname, hmarkers, htags⟩ := puts_of_upsert hfound hid
    exact ⟨d, (hput d).mpr (Or.inl rfl), Or.inl ⟨hup, hname, htags, hmarkers⟩⟩

theorem Written.ingested (h : Written text source raw s) (hid : ∀ e ∈ s.entries, e.id ≠ id)
    (hne : raw'.upstreamId ≠ raw.upstreamId) :
    Written text source raw (ingested text source id raw' s) := by
  obtain ⟨e, he, hwritten⟩ := h
  cases hfound : findSameName text source raw'.name s with
  | some existing =>
    obtain ⟨hmem, -, hother⟩ := findSameName_eq_some hfound
    obtain ⟨d, hput, hup, hname, hpatterns⟩ := @puts_of_merge text source id raw' s existing hfound
    by_cases hsame : e.upstream = d.upstream
    · have heq : e = existing := Indexed.eq_of_index he hmem (hsame.trans hup)
      subst heq
      rcases hwritten with hown | ⟨-, hmatch, hpats⟩
      · exact absurd (congrArg Prod.fst hown.1) hother
      · have hsource : d.source = e.source := congrArg Prod.fst hup
        refine ⟨d, (hput d).mpr (Or.inl rfl), Or.inr ⟨?_, ?_, fun q hq => ?_⟩⟩
        · rw [hsource]
          exact hother
        · rw [hname]
          exact hmatch
        · exact (hpatterns (text.lower q)).mpr (Or.inl (hpats q hq))
    · exact ⟨e, (hput e).mpr (Or.inr ⟨he, hsame⟩), hwritten⟩
  | none =>
    obtain ⟨d, hput, hup, -⟩ := puts_of_upsert hfound hid
    have hsame : e.upstream ≠ d.upstream := by
      intro heq
      rcases hwritten with hown | ⟨hother, -⟩
      · have hids := congrArg Prod.snd (hown.1.symm.trans (heq.trans hup))
        exact hne (Option.some.inj hids).symm
      · exact hother (congrArg Prod.fst (heq.trans hup))
    exact ⟨e, (hput e).mpr (Or.inr ⟨he, hsame⟩), hwritten⟩

end Written

/-- The entry was written, or is counted among those that were skipped. -/
def LoopEnd.Accounts (text : Text) (source : SourceType) (e : LoopEnd) (s : LibraryStore)
    (raw : RawEntry) : Prop :=
  (∃ result, (raw, .ok result) ∈ e.reached) ∧ Written text source raw s ∨
    ∃ exc, (raw, .error exc) ∈ e.reached

def isSkipped (x : RawEntry × Except String Ingested) : Bool :=
  match x.2 with
  | .ok _ => false
  | .error _ => true

section Loop

variable {r : Runner} {given : Conditions} {config : Config} {raw : RawEntry} {run : IngestionRun}
  {yields : List Yield} {n : Nat}

theorem tryIngest_cases (hfresh : FreshIds r.newId) (s : IngestState) :
    ∃ library result, (tryIngest r given n raw).run s = (s.setLibrary library, result) ∧
      (library = s.library ∨
        library = ingested r.text r.source (r.newId s.library) raw s.library) ∧
      (((given.fault n).isSome = true ∧ ∃ exc, result = .error exc) ∨
        ((given.fault n).isSome = false ∧ ∃ x, result = .ok x ∧
          library = ingested r.text r.source (r.newId s.library) raw s.library)) := by
  cases hfault : given.fault n with
  | none =>
    obtain ⟨x, hx⟩ := @run_tryIngest r given raw n hfresh hfault s
    exact ⟨_, _, hx, Or.inr rfl, Or.inr ⟨rfl, x, rfl, rfl⟩⟩
  | some fault =>
    refine ⟨(ingest r.text r.source (r.newId s.library) raw).cut fault.steps s.library,
      .error fault.exc, ?_, cut_ingest .., Or.inl ⟨rfl, _, rfl⟩⟩
    unfold tryIngest
    rw [run_bind, run_read, hfault]
    dsimp only
    rw [run_bind, run_zoom_entry, run_upTo]
    rfl

theorem library_saveProgress (state : AdapterState) (s : IngestState) :
    ((saveProgress given config run n state).run s).1.library = s.library := by
  unfold saveProgress
  split
  · split
    · rfl
    · rfl
  · rfl

theorem written_ingestEach (hfresh : FreshIds r.newId) {s : IngestState}
    (h : Written r.text r.source raw s.library)
    (hother : ∀ y ∈ yields, y.raw.upstreamId ≠ raw.upstreamId) :
    Written r.text r.source raw ((ingestEach r given config yields n run).run s).1.library := by
  induction yields generalizing n run s with
  | nil => exact h
  | cons y rest ih =>
    have hrest : ∀ y ∈ rest, y.raw.upstreamId ≠ raw.upstreamId :=
      fun z hz => hother z (List.mem_cons_of_mem _ hz)
    by_cases hcancel : given.cancelled n = true
    · rw [run_ingestEach_cancelled r given hcancel]
      exact h
    · obtain ⟨library, result, hrun, hlibrary, -⟩ := @tryIngest_cases r given y.raw n hfresh s
      have hwritten : Written r.text r.source raw library := by
        rcases hlibrary with rfl | rfl
        · exact h
        · exact h.ingested (hfresh s.library) (hother y (List.mem_cons_self ..))
      have hsaved := @library_saveProgress given config (run.record y.raw result) (n + 1) y.state
        (s.setLibrary library)
      rw [run_ingestEach_cons r given (eq_false_of_ne_true hcancel) hrun]
      dsimp only
      split
      · exact hwritten
      · split
        · rw [hsaved]
          exact hwritten
        · refine ih ?_ hrest
          rw [hsaved]
          exact hwritten

theorem entriesSkipped_record (result : Except String Ingested) :
    (run.record raw result).entriesSkipped =
      run.entriesSkipped + if isSkipped (raw, result) then 1 else 0 := by
  rcases result with exc | (_ | _ | _)
  · rfl
  · rfl
  · rfl
  · rfl

theorem upToBreak_cons {raws : List RawEntry} {result : Except String Ingested}
    (hresult : ((given.fault n).isSome = true ∧ ∃ exc, result = .error exc) ∨
      ((given.fault n).isSome = false ∧ ∃ x, result = .ok x)) :
    upToBreak given n run.errors.length (raw :: raws) =
      if tooMany (run.record raw result) result then [raw]
      else raw :: upToBreak given (n + 1) (run.record raw result).errors.length raws := by
  rw [upToBreak]
  rcases hresult with ⟨hfault, exc, rfl⟩ | ⟨hfault, x, rfl⟩
  · have herrors : (run.record raw (.error exc)).errors.length = run.errors.length + 1 :=
      List.length_append
    rw [if_pos hfault, tooMany, herrors]
    simp only [decide_eq_true_eq]
  · have herrors : (run.record raw (.ok x)).errors = run.errors := by
      cases x with
      | created => rfl
      | updated => rfl
      | skipped => rfl
    rw [hfault, if_neg Bool.false_ne_true, tooMany, if_neg Bool.false_ne_true, herrors]

theorem ingestEach_completed (hfresh : FreshIds r.newId)
    (hunique : (yields.map fun y => y.raw.upstreamId).Nodup) {s : IngestState}
    (hcompleted : ((ingestEach r given config yields n run).run s).2.status = .completed) :
    ((ingestEach r given config yields n run).run s).2.reached.map Prod.fst =
        upToBreak given n run.errors.length (yields.map Yield.raw) ∧
      ((ingestEach r given config yields n run).run s).2.run.entriesSkipped =
        run.entriesSkipped +
          ((ingestEach r given config yields n run).run s).2.reached.countP isSkipped ∧
      ∀ raw result, (raw, .ok result) ∈ ((ingestEach r given config yields n run).run s).2.reached →
        Written r.text r.source raw ((ingestEach r given config yields n run).run s).1.library := by
  induction yields generalizing n run s with
  | nil => exact ⟨rfl, rfl, fun raw result h => absurd h List.not_mem_nil⟩
  | cons y rest ih =>
    rw [List.map_cons, List.nodup_cons] at hunique
    by_cases hcancel : given.cancelled n = true
    · rw [run_ingestEach_cancelled r given hcancel] at hcompleted
      cases hcompleted
    · obtain ⟨library, result, hrun, -, hresult⟩ := @tryIngest_cases r given y.raw n hfresh s
      have hother : ∀ z ∈ rest, z.raw.upstreamId ≠ y.raw.upstreamId := fun z hz heq =>
        hunique.1 (List.mem_map.mpr ⟨z, hz, heq⟩)
      have hsaved := @library_saveProgress given config (run.record y.raw result) (n + 1) y.state
        (s.setLibrary library)
      have hwritten : ∀ x, result = .ok x → Written r.text r.source y.raw library := by
        intro x hx
        rcases hresult with ⟨-, exc, hexc⟩ | ⟨-, -, -, rfl⟩
        · rw [hexc] at hx
          cases hx
        · exact written_ingested (hfresh s.library)
      rw [run_ingestEach_cons r given (eq_false_of_ne_true hcancel) hrun]
        at hcompleted ⊢
      have hskip := @entriesSkipped_record y.raw run result
      rw [List.map_cons,
        upToBreak_cons (hresult.imp_right fun ⟨hfault, x, hx, _⟩ => ⟨hfault, x, hx⟩)]
      by_cases hmany : tooMany (run.record y.raw result) result = true
      · rw [if_pos hmany, if_pos hmany]
        refine ⟨rfl, ?_, fun raw x hx => ?_⟩
        · rw [List.countP_singleton]
          exact hskip
        · obtain ⟨rfl, rfl⟩ := Prod.mk.inj (List.mem_singleton.mp hx)
          exact hwritten x rfl
      · rw [if_neg hmany] at hcompleted ⊢
        rw [if_neg hmany]
        dsimp only at hcompleted ⊢
        cases hexc : ((saveProgress given config (run.record y.raw result) (n + 1) y.state).run
            (s.setLibrary library)).2 with
        | some exc =>
          rw [hexc] at hcompleted
          cases hcompleted
        | none =>
          rw [hexc] at hcompleted
          obtain ⟨hreached, hskipped, hall⟩ := ih hunique.2 hcompleted
          dsimp only [LoopEnd.before]
          refine ⟨?_, ?_, fun raw x hx => ?_⟩
          · rw [List.map_cons, hreached]
          · rw [List.countP_cons, hskipped, hskip]
            omega
          · rcases List.mem_cons.mp hx with heq | hx
            · obtain ⟨rfl, rfl⟩ := Prod.mk.inj heq
              refine written_ingestEach hfresh ?_ hother
              rw [hsaved]
              exact hwritten x rfl
            · exact hall raw x hx

theorem accounts_iff {e : LoopEnd} {library : LibraryStore} {text : Text} {source : SourceType}
    (hwritten : ∀ raw result, (raw, .ok result) ∈ e.reached → Written text source raw library) :
    e.Accounts text source library raw ↔ raw ∈ e.reached.map Prod.fst := by
  constructor
  · rintro (⟨⟨result, hmem⟩, -⟩ | ⟨exc, hmem⟩)
    · exact List.mem_map_of_mem hmem
    · exact List.mem_map_of_mem hmem
  · intro hmem
    obtain ⟨⟨raw', result⟩, hmem', rfl⟩ := List.mem_map.mp hmem
    cases result with
    | ok result => exact Or.inl ⟨⟨result, hmem'⟩, hwritten _ result hmem'⟩
    | error exc => exact Or.inr ⟨exc, hmem'⟩

end Loop

theorem upstreamId_of_cpeEntry {py : PyText} {p : CpeProduct} {key : String} {raw : RawEntry}
    (h : cpeEntry py p = some (key, some raw)) : raw.upstreamId = key := by
  unfold cpeEntry at h
  split at h
  · cases h
  · split at h
    · cases h
    · dsimp only at h
      split at h
      · cases h
      · cases h
        rfl

theorem upstreamId_of_packageEntry {py : PyText} {e : AtomEntry} {key : String} {raw : RawEntry}
    (h : packageEntry py e = some (key, some raw)) :
    raw.upstreamId = "chocolatey:" ++ py.strip e.title ∧ key = py.lower (py.strip e.title) := by
  unfold packageEntry at h
  split at h
  · cases h
  · dsimp only at h
    split at h
    · cases h
    · obtain ⟨hkey, hraw⟩ := Prod.mk.inj (Option.some.inj h)
      have hsome := (Option.ite_none_left_eq_some.mp hraw).2
      exact ⟨(congrArg RawEntry.upstreamId (Option.some.inj hsome)).symm, hkey.symm⟩

theorem key_of_upstreamId {py : PyText} {pageSize : Nat} {p : PagedSource} {i j : p.Item}
    {k k' : String} {raw raw' : RawEntry}
    (hi : (p.adapter py pageSize).entry i = some (k, some raw))
    (hj : (p.adapter py pageSize).entry j = some (k', some raw'))
    (h : raw.upstreamId = raw'.upstreamId) : k = k' := by
  cases p with
  | nistCpe => rw [← upstreamId_of_cpeEntry hi, ← upstreamId_of_cpeEntry hj, h]
  | chocolatey =>
    obtain ⟨hraw, hkey⟩ := upstreamId_of_packageEntry hi
    obtain ⟨hraw', hkey'⟩ := upstreamId_of_packageEntry hj
    rw [hraw, hraw', String.append_right_inj] at h
    rw [hkey, hkey', h]

section Completed

variable (r : PagedRunner) (given : Conditions) (config : Config) (listing : List r.paged.Item)
  (fails : Nat → Bool)

def startOf (checkpoint : Option Checkpoint) : AdapterState :=
  (checkpoint.bind Checkpoint.adapterState).getD {}

def errorsOf (checkpoint : Option Checkpoint) : List String :=
  (checkpoint.map Checkpoint.errors).getD []

/-- What the adapter admits from where the run starts. -/
def PagedRunner.admitted (checkpoint : Option Checkpoint) : List RawEntry :=
  r.adapter.admitted (listing.drop (startOf checkpoint).start)

/-- No limit, failed request, empty page or error too many comes before the last entry. -/
structure ReachesAll (checkpoint : Option Checkpoint) : Prop where
  within : (r.admitted listing checkpoint).length ≤
    r.adapter.maxResults config - (startOf checkpoint).fetched
  fetched : ∀ k, r.adapter.Ends listing fails ((startOf checkpoint).start + k * r.pageSize) →
    r.adapter.admitted ((listing.drop (startOf checkpoint).start).take (k * r.pageSize)) =
      r.admitted listing checkpoint
  tolerated : ∀ i, i + 1 < (r.admitted listing checkpoint).length →
    (given.fault (syncedOf checkpoint + i)).isSome →
      (errorsOf checkpoint).length + faultsUpTo given (syncedOf checkpoint) i ≤ 100

/-- Entries that are read out of distinct ones are all of them if and only if none is cut off. -/
theorem subset_iff_of_prefixes {α : Type} {b t p l : List α} (hl : l.Nodup) (hb : b <+: t)
    (ht : t <+: p) (hp : p <+: l) : (∀ x ∈ l, x ∈ b) ↔ b = t ∧ t = p ∧ p = l := by
  constructor
  · intro h
    have hle : l.length ≤ b.length := hl.length_le_of_subset fun x hx => h x hx
    have hbt := hb.length_le
    have htp := ht.length_le
    have hpl := hp.length_le
    exact ⟨hb.eq_of_length (by omega), ht.eq_of_length (by omega), hp.eq_of_length (by omega)⟩
  · rintro ⟨rfl, rfl, rfl⟩ x hx
    exact hx

theorem PagedRunner.adapter_pageSize : r.adapter.pageSize = r.pageSize := by
  unfold PagedRunner.adapter
  cases r.paged with
  | nistCpe => rfl
  | chocolatey => rfl

theorem PagedRunner.nodup_admitted (items : List r.paged.Item) (seen : List String) :
    ((firsts r.adapter.entry seen items).map RawEntry.upstreamId).Nodup :=
  nodup_firsts fun _ _ _ _ _ _ _ _ hi hj h => key_of_upstreamId hi hj h

theorem PagedRunner.raws_fetch (checkpoint : Option Checkpoint) :
    (r.adapter.fetch config listing fails (checkpoint.bind Checkpoint.adapterState)).map Yield.raw =
      (firsts r.adapter.entry []
        (r.adapter.reached listing fails (listing.length + 1) (startOf checkpoint).start)).take
          (r.adapter.maxResults config - (startOf checkpoint).fetched) :=
  Adapter.raws_pages (listing.length + 1)

/-- A run that ends as completed has written every entry that the adapter admits, or
counted it as skipped, if and only if nothing ended a loop before the last of them. -/
theorem completed_accounts_iff (r : PagedRunner) (hsize : 0 < r.pageSize)
    (hfresh : FreshIds r.newId) (given : Conditions) (listing : List r.paged.Item)
    (fails : Nat → Bool) (checkpoint : Option Checkpoint) (config : Config) (s : IngestState)
    (hcompleted :
      ((r.session given listing fails checkpoint config).run s).2.status = .completed) :
    ((r.session given listing fails checkpoint config).run s).2.run.entriesSkipped =
        (startRun r.toRunner checkpoint).entriesSkipped +
          ((r.session given listing fails checkpoint config).run s).2.reached.countP isSkipped ∧
      ((∀ raw ∈ r.admitted listing checkpoint,
          ((r.session given listing fails checkpoint config).run s).2.Accounts r.py.toText
            r.paged.source ((r.session given listing fails checkpoint config).run s).1.library
            raw) ↔
        ReachesAll r given config listing fails checkpoint) := by
  obtain ⟨t, -, hlibrary, hend⟩ := safeRun_loop r.toRunner given checkpoint config
    (r.adapter.fetch config listing fails (checkpoint.bind Checkpoint.adapterState)) s
  have hraws := r.raws_fetch config listing fails checkpoint
  have hfirsts := @firsts_reached _ r.adapter listing fails (startOf checkpoint).start []
    (by rw [r.adapter_pageSize]; exact hsize) (listing.length + 1) (by omega)
  obtain ⟨hpre, hfetched⟩ := hfirsts
  have hunique : ((r.adapter.fetch config listing fails
      (checkpoint.bind Checkpoint.adapterState)).map fun y => y.raw.upstreamId).Nodup := by
    rw [show (fun y : Yield => y.raw.upstreamId) = RawEntry.upstreamId ∘ Yield.raw from rfl,
      ← List.map_map, hraws]
    exact (r.nodup_admitted _ _).sublist ((List.take_sublist ..).map _)
  unfold PagedRunner.session at hcompleted ⊢
  rw [hlibrary, hend]
  rw [hend] at hcompleted
  obtain ⟨hreached, hskipped, hwritten⟩ := ingestEach_completed hfresh hunique hcompleted
  have herrors : (startRun r.toRunner checkpoint).errors = errorsOf checkpoint := by
    cases checkpoint with
    | none => rfl
    | some checkpoint => rfl
  rw [hraws, herrors] at hreached
  refine ⟨hskipped, ?_⟩
  set found := firsts r.adapter.entry []
    (r.adapter.reached listing fails (listing.length + 1) (startOf checkpoint).start)
  set limit := r.adapter.maxResults config - (startOf checkpoint).fetched
  have hall := subset_iff_of_prefixes (r.nodup_admitted _ []).of_map
    (@upToBreak_isPrefix given (syncedOf checkpoint) (errorsOf checkpoint).length _)
    (List.take_prefix limit found) hpre
  have hwithin : found.take limit = found ↔ found.length ≤ limit := List.take_eq_self_iff _
  refine Iff.trans (forall₂_congr fun raw _ => accounts_iff hwritten) ?_
  dsimp only [LoopEnd.finalized]
  rw [hreached]
  refine hall.trans ?_
  rw [upToBreak_eq_iff]
  constructor
  · rintro ⟨htolerated, hlimit, hpages⟩
    rw [hlimit, hpages] at htolerated
    refine ⟨?_, ?_, htolerated⟩
    · rw [hwithin, hpages] at hlimit
      exact hlimit
    · rw [← r.adapter_pageSize]
      exact hfetched.mp hpages
  · rintro ⟨hlimit, hends, htolerated⟩
    rw [← r.adapter_pageSize] at hends
    have hpages := hfetched.mpr hends
    have htake := hwithin.mpr (by rw [hpages]; exact hlimit)
    refine ⟨?_, htake, hpages⟩
    rw [htake, hpages]
    exact htolerated

end Completed

def titleChars : Bool → List Char → List Char
  | _, [] => []
  | inWord, c :: rest =>
    (if inWord then c.toLower else c.toUpper) :: titleChars c.isAlpha rest

def stripChars (cs : List Char) : List Char :=
  ((cs.dropWhile Char.isWhitespace).reverse.dropWhile Char.isWhitespace).reverse

def plainPyText : PyText where
  toText := plainText
  title s := String.ofList (titleChars false s.toList)
  strip s := String.ofList (stripChars s.toList)
  splitWords s := (splitOn ' ' s).filter (· ≠ "")

def cpeListing : List CpeProduct :=
  [⟨"cpe:2.3:a:google:chrome:*:*:*:*:*:*:*:*", []⟩,
    ⟨"cpe:2.3:a:mozilla:firefox:*:*:*:*:*:*:*:*", []⟩]

def cpeRunner : PagedRunner := ⟨plainPyText, .nistCpe, 1, longId, "run", ""⟩

theorem cpe_completed (fails : Nat → Bool) :
    ((cpeRunner.session {} cpeListing fails none {}).run emptyLibrary).2.status = .completed :=
  (run_safeRun longId_fresh emptyLibrary).2

def cpeFirefox : RawEntry where
  upstreamId := "mozilla:firefox"
  name := "Mozilla Firefox"
  vendor := "Mozilla"
  category := "cpe_software"
  description := "CPE: cpe:2.3:a:mozilla:firefox:*:*:*:*:*:*:*:*"
  tags := ["cpe", "nist"]
  patterns := ["*mozilla*firefox*", "*firefox*"]
  version := ""

/-- Both pages are served. -/
theorem cpe_accounts :
    ((cpeRunner.session {} cpeListing (fun _ => false) none {}).run emptyLibrary).2.Accounts
      plainText .nistCpe
      ((cpeRunner.session {} cpeListing (fun _ => false) none {}).run emptyLibrary).1.library
        cpeFirefox := by
  refine (completed_accounts_iff cpeRunner Nat.one_pos longId_fresh {} cpeListing (fun _ => false)
    none {} emptyLibrary (cpe_completed _)).2.mpr ⟨by decide, fun k hk => ?_, fun i _ h => ?_⟩
    cpeFirefox (by decide)
  · match k, hk with
    | 0, hk => exact (hk.resolve_left Bool.false_ne_true |> List.cons_ne_nil _ _).elim
    | 1, hk => exact (hk.resolve_left Bool.false_ne_true |> List.cons_ne_nil _ _).elim
    | k + 2, _ =>
      show firsts _ _ ((cpeListing.take ((k + 2) * 1)).filter _) = _
      rw [List.take_of_length_le (by show 2 ≤ _; omega)]
      rfl
  · exact absurd h Bool.false_ne_true

/-- The second request fails. -/
theorem failed_page_completes :
    ¬∀ (r : PagedRunner), 0 < r.pageSize → FreshIds r.newId → ∀ (given : Conditions)
      (listing : List r.paged.Item) (fails : Nat → Bool) (checkpoint : Option Checkpoint)
      (config : Config) (s : IngestState), config.maxResults = none →
        ((r.session given listing fails checkpoint config).run s).2.status = .completed →
          ∀ raw ∈ r.admitted listing checkpoint,
            ((r.session given listing fails checkpoint config).run s).2.Accounts r.py.toText
              r.paged.source
              ((r.session given listing fails checkpoint config).run s).1.library raw := by
  intro hall
  have haccounts := hall cpeRunner Nat.one_pos longId_fresh {} cpeListing (fun start => start == 1)
    none {} emptyLibrary rfl (cpe_completed _)
  have hreaches := (completed_accounts_iff cpeRunner Nat.one_pos longId_fresh {} cpeListing
    (fun start => start == 1) none {} emptyLibrary (cpe_completed _)).2.mp haccounts
  exact absurd (hreaches.fetched 1 (Or.inl rfl)) (by decide)

end Sentora.Library
