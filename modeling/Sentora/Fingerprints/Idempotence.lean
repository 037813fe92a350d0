import Sentora.Fingerprints.Merging
import Sentora.Fingerprints.RoundTrip

/-!
# Merging twice

When a second import of the same items with the strategy `merge` leaves all markers as the
first has left them.
-/

namespace Sentora.Fingerprints

open Lib

variable {db : Database} {l : List FingerprintMarker} {ms : List FingerprintExportMarker}
variable {m e : FingerprintMarker} {p g k : String} {now now' : Int} {next : Nat} {w : ℚ}
variable {item : FingerprintExportItem} {items : List FingerprintExportItem} {ws : List ℚ}

/-- The markers of every fingerprint have ids that were made for them. -/
def WellFormed (db : Database) : Prop := ∀ g, Identified db.nextId (markersIn db g)

/-- A second import of the items adds no marker and changes none. -/
def MergesOnce (now now' : Int) (db : Database) (items : List FingerprintExportItem) : Prop :=
  let first := (importFingerprints .merge now db items).1
  ∀ g, markersIn (importFingerprints .merge now' first items).1 g = markersIn first g

/-- What a fingerprint holds for a pattern: no marker, one whose weight no update sets, or one
with a weight. -/
inductive Held where
  | absent
  | unnamed
  | named (weight : ℚ)
deriving DecidableEq

def held (l : List FingerprintMarker) (p : String) : Held :=
  match existingPattern l p with
  | none => .absent
  | some e => if e.id.isSome then .named e.weight else .unnamed

/-- What the weights of an item for a pattern make of it. -/
def Held.pass : Held → List ℚ → Held
  | .absent, ws => (ws.getLast?.map Held.named).getD .absent
  | .unnamed, _ => .unnamed
  | .named w, ws => .named (settle w ws)

def rounds (items : List FingerprintExportItem) (g p : String) : List (List ℚ) :=
  (items.filter fun item => item.groupId = g).map fun item => weightsOf item.markers p

/-- The weights of the items do not swing between two values, or they come back to the last one
of the first item if and only if they came from it. -/
def Steady : Held → List (Turn ℚ) → Prop
  | _, [] => True
  | .unnamed, _ => True
  | .absent, t :: rest => Swings (t :: rest) → arrival t rest true ≠ t.last
  | .named w, t :: rest =>
    Swings (t :: rest) → (arrival t rest (w ≠ t.last) = t.last ↔ w = t.last)

theorem existingPattern_newMarkers (hp : existingPattern l p = none) :
    held (newMarkers now next (unknown l ms)) p =
      ((weightsOf ms p).getLast?.map Held.named).getD .absent := by
  induction ms using List.reverseRecOn with
  | nil => rfl
  | append_singleton ms x ih =>
    rw [unknown_append, weightsOf_append]
    by_cases hx : x.pattern = p
    · rw [if_pos hx, if_pos (by rw [hx]; exact hp), newMarkers_append, held,
        existingPattern_append]
      have hlast : existingPattern (newMarkers now (next + (unknown l ms).length) [x]) p =
          some (newMarker now x (next + (unknown l ms).length)) := by
        simp [existingPattern, newMarkers, newMarker, hx]
      rw [hlast]
      simp [newMarker]
    · rw [if_neg hx, List.append_nil, ← ih]
      split
      · rw [newMarkers_append, held, held, existingPattern_append]
        have hnone : existingPattern (newMarkers now (next + (unknown l ms).length) [x]) p =
            none := by
          rw [existingPattern_eq_none]
          intro m hm
          obtain ⟨i, _, _, _, x', hx', heq⟩ := mem_newMarkers hm
          rw [heq, List.mem_singleton.mp hx']
          exact hx
        rw [hnone, Option.none_or]
      · rw [List.append_nil]

theorem held_merged : held (merged now next l ms) p = (held l p).pass (weightsOf ms p) := by
  have hmap : existingPattern
      (l.map (reweigh l fun p w => settle w (weightsOf ms p))) p =
        (existingPattern l p).map (reweigh l fun p w => settle w (weightsOf ms p)) :=
    existingPattern_map fun _ => reweigh_pattern
  rw [merged]
  cases hp : existingPattern l p with
  | none =>
    have hheld : held l p = .absent := by rw [held, hp]
    rw [hheld, Held.pass, ← @existingPattern_newMarkers l ms p now next hp, held, held,
      existingPattern_append, hmap, hp, Option.map_none, Option.or_none]
  | some e =>
    have hnew : existingPattern (newMarkers now next (unknown l ms)) p = none := by
      rw [existingPattern_eq_none]
      intro m hm heq
      obtain ⟨i, _, _, _, x, hx, hpattern⟩ := mem_newMarkers hm
      have hnone := of_decide_eq_true (List.mem_filter.mp hx).2
      rw [← hpattern, heq, hp] at hnone
      cases hnone
    rw [held, existingPattern_append, hnew, Option.none_or, hmap, hp, held, hp]
    dsimp only [Option.map_some]
    rw [reweigh_id]
    by_cases hsome : e.id.isSome = true
    · rw [if_pos hsome, if_pos hsome, reweigh, if_pos (isTarget_of_existing hp hsome),
        (existingPattern_eq_some hp).2]
      rfl
    · rw [if_neg hsome, if_neg hsome]
      rfl

theorem Identified.mono {next' : Nat} (h : Identified next l) (hle : next ≤ next') :
    Identified next' l :=
  ⟨fun m hm i hi => (h.made m hm i hi).trans_le hle, h.distinct⟩

theorem importInto_cases {strategy : Strategy} :
    (Listed db item.groupId ∧ Readable db item.groupId) ∨
      importInto strategy now db item = db := by
  by_cases hlisted : Listed db item.groupId
  · by_cases hread : Readable db item.groupId
    · exact Or.inl ⟨hlisted, hread⟩
    · exact Or.inr (importInto_of_not_readable hread)
  · exact Or.inr (importInto_of_not_listed hlisted)

theorem importInto_keeps (hw : WellFormed db) :
    WellFormed (importInto .merge now db item) ∧
      (∀ g, Listed (importInto .merge now db item) g ↔ Listed db g) ∧
      (∀ g, Readable (importInto .merge now db item) g ↔ Readable db g) ∧
      ∀ g, g ≠ item.groupId →
        markersOf (importInto .merge now db item) g = markersOf db g := by
  rcases @importInto_cases db now item .merge with ⟨hlisted, hread⟩ | heq
  · obtain ⟨hmarkers, hreadable, hgroups, hnext⟩ :=
      importInto_merge_spec hlisted hread (hw item.groupId)
    refine ⟨fun g => ?_, fun g => by rw [Listed, Listed, hgroups], hreadable,
      fun g hg => by rw [hmarkers, if_neg hg]⟩
    rw [markersIn, hmarkers]
    split
    · exact (identified_merged (hw item.groupId)).mono hnext
    · exact (hw g).mono (by omega)
  · rw [heq]
    exact ⟨hw, fun _ => Iff.rfl, fun _ => Iff.rfl, fun _ _ => rfl⟩

theorem markersIn_importInto (hw : WellFormed db) (hlisted : Listed db item.groupId)
    (hread : Readable db item.groupId) :
    markersIn (importInto .merge now db item) item.groupId =
      merged now db.nextId (markersIn db item.groupId) item.markers := by
  rw [markersIn, (importInto_merge_spec hlisted hread (hw item.groupId)).markers, if_pos rfl]
  rfl

theorem markersIn_importInto_of_ne (hw : WellFormed db) (hg : item.groupId ≠ g) :
    markersIn (importInto .merge now db item) g = markersIn db g := by
  rw [markersIn, (importInto_keeps hw).2.2.2 g (Ne.symm hg)]
  rfl

theorem rounds_cons : rounds (item :: items) g p =
    if item.groupId = g then weightsOf item.markers p :: rounds items g p
    else rounds items g p := by
  rw [rounds, rounds]
  by_cases hg : item.groupId = g
  · rw [if_pos hg, List.filter_cons_of_pos (by simpa using hg), List.map_cons]
  · rw [if_neg hg, List.filter_cons_of_neg (by simpa using hg)]

/-- What a run leaves of a group that exists and can be read. -/
theorem held_foldl (hw : WellFormed db) (hlisted : Listed db g) (hread : Readable db g) :
    held (markersIn (items.foldl (importInto .merge now) db) g) p =
        (rounds items g p).foldl Held.pass (held (markersIn db g) p) := by
  induction items generalizing db with
  | nil => rfl
  | cons item rest ih =>
    obtain ⟨hw', hlisted', hread', _⟩ := @importInto_keeps db now item hw
    rw [List.foldl_cons, ih hw' ((hlisted' g).mpr hlisted) ((hread' g).mpr hread), rounds_cons]
    by_cases hg : item.groupId = g
    · rw [if_pos hg, List.foldl_cons]
      subst hg
      rw [markersIn_importInto hw hlisted hread, held_merged]
    · rw [if_neg hg, markersIn_importInto_of_ne hw hg]

theorem wellFormed_foldl (hw : WellFormed db) :
    WellFormed (items.foldl (importInto .merge now) db) ∧
      (∀ g, Listed (items.foldl (importInto .merge now) db) g ↔ Listed db g) ∧
      ∀ g, Readable (items.foldl (importInto .merge now) db) g ↔ Readable db g := by
  induction items generalizing db with
  | nil => exact ⟨hw, fun _ => Iff.rfl, fun _ => Iff.rfl⟩
  | cons item rest ih =>
    obtain ⟨hw', hlisted', hread', _⟩ := @importInto_keeps db now item hw
    obtain ⟨hw'', hlisted'', hread''⟩ := ih hw'
    exact ⟨hw'', fun g => (hlisted'' g).trans (hlisted' g), fun g => (hread'' g).trans (hread' g)⟩

theorem markersOf_foldl_refused (hw : WellFormed db) (h : ¬(Listed db g ∧ Readable db g)) :
    markersOf (items.foldl (importInto .merge now) db) g = markersOf db g := by
  induction items generalizing db with
  | nil => rfl
  | cons item rest ih =>
    obtain ⟨hw', hlisted', hread', hother⟩ := @importInto_keeps db now item hw
    rw [List.foldl_cons, ih hw' (by rwa [hlisted', hread'])]
    by_cases hg : item.groupId = g
    · subst hg
      rw [(@importInto_cases db now item .merge).resolve_left h]
    · exact hother g (Ne.symm hg)

theorem markersIn_foldl_known (hw : WellFormed db) (hlisted : Listed db g) (hread : Readable db g)
    (hknown : ∀ item ∈ items, item.groupId = g → ∀ x ∈ item.markers,
      existingPattern (markersIn db g) x.pattern ≠ none) :
    markersIn (items.foldl (importInto .merge now) db) g =
      (markersIn db g).map (reweigh (markersIn db g) fun p w =>
        (rounds items g p).foldl settle w) := by
  induction items generalizing db with
  | nil => exact (map_reweigh_eq_self_iff.mpr fun _ _ _ => rfl).symm
  | cons item rest ih =>
    obtain ⟨hw', hlisted', hread', _⟩ := @importInto_keeps db now item hw
    have hstep : markersIn (importInto .merge now db item) g =
        (markersIn db g).map (reweigh (markersIn db g) fun p w =>
          if item.groupId = g then settle w (weightsOf item.markers p) else w) := by
      by_cases hg : item.groupId = g
      · have hnone : unknown (markersIn db g) item.markers = [] := by
          rw [unknown, List.filter_eq_nil_iff]
          intro x hx
          simpa using hknown item List.mem_cons_self hg x hx
        subst hg
        rw [markersIn_importInto hw hlisted hread, merged, hnone]
        simp only [if_true]
        exact List.append_nil _
      · rw [markersIn_importInto_of_ne hw hg]
        simp only [if_neg hg]
        exact (map_reweigh_eq_self_iff.mpr fun _ _ _ => rfl).symm
    rw [List.foldl_cons, ih hw' ((hlisted' g).mpr hlisted) ((hread' g).mpr hread) ?_, hstep,
      map_reweigh_reweigh]
    · congr 2
      funext p w
      rw [rounds_cons]
      split
      · rfl
      · rfl
    · intro other hother' hg x hx
      rw [hstep, existingPattern_map fun _ => reweigh_pattern, ne_eq, Option.map_eq_none_iff]
      exact hknown other (List.mem_cons_of_mem item hother') hg x hx

theorem isTarget_iff (hl : Identified next l) (hm : m ∈ l) :
    IsTarget l m ↔ held l m.pattern = .named m.weight ∧ existingPattern l m.pattern = some m := by
  rw [held]
  constructor
  · intro ⟨hsome, hid⟩
    obtain ⟨e, he, heq⟩ := Option.map_eq_some_iff.mp hid
    have hsame := hl.eq (existingPattern_eq_some he).1 hm heq hsome
    rw [hsame] at he
    rw [he]
    exact ⟨if_pos hsome, rfl⟩
  · intro ⟨hheld, he⟩
    rw [he] at hheld
    refine ⟨?_, by rw [he]; rfl⟩
    dsimp only at hheld
    split at hheld
    · assumption
    · cases hheld

theorem map_reweigh_eq_self_iff_held (hl : Identified next l) {φ : String → ℚ → ℚ} :
    l.map (reweigh l φ) = l ↔ ∀ p w, held l p = .named w → φ p w = w := by
  rw [map_reweigh_eq_self_iff]
  constructor
  · intro hall p w hheld
    cases he : existingPattern l p with
    | none =>
      rw [held, he] at hheld
      cases hheld
    | some e =>
      obtain ⟨hmem, rfl⟩ := existingPattern_eq_some he
      rw [held, he] at hheld
      dsimp only at hheld
      split at hheld
      · next hsome =>
        rw [← Held.named.inj hheld]
        exact hall e hmem (isTarget_of_existing he hsome)
      · cases hheld
  · intro hall m hm htarget
    exact hall m.pattern m.weight ((isTarget_iff hl hm).mp htarget).1

theorem pass_ne_absent {h : Held} (hws : h ≠ .absent ∨ ws ≠ []) : h.pass ws ≠ .absent := by
  cases h with
  | absent =>
    have hne : ws ≠ [] := hws.resolve_left fun h => h rfl
    rw [Held.pass, List.getLast?_eq_some_getLast hne]
    exact fun h => nomatch h
  | unnamed => exact fun h => nomatch h
  | named w => exact fun h => nomatch h

theorem foldl_pass_ne_absent {h : Held} {passes : List (List ℚ)}
    (hpasses : h ≠ .absent ∨ ∃ ws ∈ passes, ws ≠ []) :
    passes.foldl Held.pass h ≠ .absent := by
  induction passes generalizing h with
  | nil => exact hpasses.resolve_right fun ⟨_, hmem, _⟩ => absurd hmem List.not_mem_nil
  | cons ws rest ih =>
    apply ih
    rcases hpasses with hne | ⟨ws', hmem, hne⟩
    · exact Or.inl (pass_ne_absent (Or.inl hne))
    · rcases List.mem_cons.mp hmem with rfl | hlater
      · exact Or.inl (pass_ne_absent (Or.inr hne))
      · exact Or.inr ⟨ws', hlater, hne⟩

theorem foldl_pass_named {passes : List (List ℚ)} :
    passes.foldl Held.pass (.named w) = .named (passes.foldl settle w) := by
  induction passes generalizing w with
  | nil => rfl
  | cons ws rest ih => exact ih

theorem foldl_pass_unnamed {passes : List (List ℚ)} :
    passes.foldl Held.pass .unnamed = .unnamed := by
  induction passes with
  | nil => rfl
  | cons ws rest ih => exact ih

theorem foldl_settle_eq {passes : List (List ℚ)} :
    passes.foldl settle w = (passes.filterMap Turn.of).foldl Turn.apply w := by
  induction passes generalizing w with
  | nil => rfl
  | cons ws rest ih =>
    rw [List.foldl_cons, ih, settle_eq]
    cases hturn : Turn.of ws with
    | none => rw [List.filterMap_cons_none hturn]; rfl
    | some t => rw [List.filterMap_cons_some hturn]; rfl

theorem foldl_pass_absent {passes : List (List ℚ)} :
    passes.foldl Held.pass .absent =
      match passes.filterMap Turn.of with
      | [] => .absent
      | t :: rest => .named (rest.foldl Turn.apply t.last) := by
  induction passes with
  | nil => rfl
  | cons ws rest ih =>
    rw [List.foldl_cons, Held.pass]
    cases hlast : ws.getLast? with
    | none =>
      have hturn : Turn.of ws = none := by rw [Turn.of, hlast]; rfl
      rw [List.filterMap_cons_none hturn]
      exact ih
    | some x =>
      have hturn : Turn.of ws = some ⟨x, (ws.filter (· ≠ x)).getLast?⟩ := by
        rw [Turn.of, hlast]
        rfl
      rw [List.filterMap_cons_some hturn, Option.map_some, Option.getD_some, foldl_pass_named,
        foldl_settle_eq]

theorem apart_filterMap {passes : List (List ℚ)} : Apart (passes.filterMap Turn.of) := by
  intro t ht
  obtain ⟨ws, _, hws⟩ := List.mem_filterMap.mp ht
  exact other_ne_last hws

theorem steady_iff {h : Held} {passes : List (List ℚ)} :
    (∀ w, passes.foldl Held.pass h = .named w → passes.foldl settle w = w) ↔
      Steady h (passes.filterMap Turn.of) := by
  have hapart := @apart_filterMap passes
  cases h with
  | unnamed =>
    rw [foldl_pass_unnamed]
    refine iff_of_true (fun w hw => nomatch hw) ?_
    cases passes.filterMap Turn.of <;> trivial
  | absent =>
    rw [foldl_pass_absent]
    simp only [foldl_settle_eq]
    cases hturns : passes.filterMap Turn.of with
    | nil => exact iff_of_true (fun w hw => nomatch hw) trivial
    | cons t rest =>
      rw [hturns] at hapart
      refine Iff.trans ?_ (foldl_last_iff hapart)
      simp only [Held.named.injEq, forall_eq']
  | named w =>
    rw [foldl_pass_named]
    simp only [Held.named.injEq, forall_eq', foldl_settle_eq]
    cases hturns : passes.filterMap Turn.of with
    | nil => exact iff_of_true rfl trivial
    | cons t rest =>
      rw [hturns] at hapart
      exact foldl_foldl_iff hapart

theorem known_foldl (hw : WellFormed db) (hlisted : Listed db g) (hread : Readable db g) :
    ∀ item ∈ items, item.groupId = g → ∀ x ∈ item.markers,
      existingPattern (markersIn (items.foldl (importInto .merge now) db) g) x.pattern ≠ none := by
  intro item hitem hg x hx hnone
  have hheld := @held_foldl db x.pattern g now items hw hlisted hread
  rw [held, hnone] at hheld
  refine foldl_pass_ne_absent (Or.inr ⟨weightsOf item.markers x.pattern, ?_, ?_⟩) hheld.symm
  · exact List.mem_map_of_mem (List.mem_filter.mpr ⟨hitem, decide_eq_true hg⟩)
  · have hmem : x.weight ∈ weightsOf item.markers x.pattern :=
      List.mem_map_of_mem (List.mem_filter.mpr ⟨hx, decide_eq_true rfl⟩)
    exact List.ne_nil_of_mem hmem

theorem mergesOnce_iff (hw : WellFormed db) :
    MergesOnce now now' db items ↔
      ∀ g, Listed db g → Readable db g → ∀ p,
        Steady (held (markersIn db g) p) ((rounds items g p).filterMap Turn.of) := by
  rw [MergesOnce, importFingerprints_fst, importFingerprints_fst]
  obtain ⟨hw', hlisted', hread'⟩ := @wellFormed_foldl db now items hw
  refine forall_congr' fun g => ?_
  by_cases hg : Listed db g ∧ Readable db g
  · obtain ⟨hlisted, hread⟩ := hg
    rw [forall_prop_of_true hlisted, forall_prop_of_true hread,
      markersIn_foldl_known hw' ((hlisted' g).mpr hlisted) ((hread' g).mpr hread)
        (known_foldl hw hlisted hread),
      map_reweigh_eq_self_iff_held (hw' g)]
    refine forall_congr' fun p => ?_
    rw [held_foldl hw hlisted hread]
    exact steady_iff
  · refine iff_of_true ?_ fun hlisted hread => absurd ⟨hlisted, hread⟩ hg
    rw [markersIn, markersOf_foldl_refused hw' (by rwa [hlisted', hread'])]
    rfl

/-- An export is restored by an import with the strategy `replace` if and only if it is
portable, and an import with the strategy `merge` changes nothing the second time if and only
if its weights are steady. -/
theorem roundTrips_iff_and_mergesOnce_iff (now now' : Int) (source target db : Database)
    (items : List FingerprintExportItem) :
    ((∀ fp ∈ source.fingerprints, Listed target fp.groupId) →
      (RoundTrips now source target ↔ Portable source target)) ∧
    (WellFormed db →
      (MergesOnce now now' db items ↔
        ∀ g, Listed db g → Readable db g → ∀ p,
          Steady (held (markersIn db g) p) ((rounds items g p).filterMap Turn.of))) :=
  ⟨roundTrips_iff_portable, mergesOnce_iff⟩

def oneFingerprint (id : DocId) : Database where
  fingerprints := ⟨[{ id, groupId := "g1", createdAt := 0, updatedAt := 0 }],
    List.nodup_singleton _⟩
  groups := [{ sourceId := "g1", name := "Engineering" }]
  sites := []
  nextId := 5

def chrome (weight : ℚ) : FingerprintExportMarker :=
  ⟨"chrome*", "Chrome", "name_pattern", weight, .manual, 1⟩

def twice : List FingerprintExportItem := [⟨"g1", [chrome 1, chrome 2]⟩]

theorem wellFormed_oneFingerprint (id : DocId) : WellFormed (oneFingerprint id) := by
  intro g
  have hempty : markersIn (oneFingerprint id) g = [] := by
    rw [markersIn, markersOf]
    cases hget : (oneFingerprint id).fingerprints.get g with
    | none => rfl
    | some fp =>
      rw [List.mem_singleton.mp (Collection.get_eq_some_iff.mp hget).1]
      rfl
  rw [hempty]
  exact ⟨List.forall_mem_nil _, List.Pairwise.nil⟩

theorem roundTrips_iff_and_mergesOnce_iff_oneFingerprint :
    (RoundTrips 1 (oneFingerprint (.text "f1")) (oneFingerprint (.objectId 1)) ↔
      Portable (oneFingerprint (.text "f1")) (oneFingerprint (.objectId 1))) ∧
    (MergesOnce 1 2 (oneFingerprint (.text "f1")) twice ↔
      ∀ g, Listed (oneFingerprint (.text "f1")) g → Readable (oneFingerprint (.text "f1")) g →
        ∀ p, Steady (held (markersIn (oneFingerprint (.text "f1")) g) p)
          ((rounds twice g p).filterMap Turn.of)) := by
  have hboth := roundTrips_iff_and_mergesOnce_iff 1 2 (oneFingerprint (.text "f1"))
    (oneFingerprint (.objectId 1)) (oneFingerprint (.text "f1")) twice
  refine ⟨hboth.1 fun fp hfp => ?_, hboth.2 (wellFormed_oneFingerprint _)⟩
  rw [List.mem_singleton.mp hfp]
  exact ⟨_, List.mem_singleton_self _, rfl⟩

/-- A fingerprint that a subscription of the library has made cannot be exported, and an item
that has a pattern with two weights changes a weight the second time. -/
theorem not_roundTrips_and_not_mergesOnce :
    ¬RoundTrips 1 (oneFingerprint (.objectId 1)) (oneFingerprint (.text "f1")) ∧
      ¬MergesOnce 1 2 (oneFingerprint (.text "f1")) twice := by
  constructor
  · intro ⟨items, hexport, _⟩
    have hread := (exportAllFingerprints_eq_ok_iff.mp hexport).1
    exact absurd (hread { id := .objectId 1, groupId := "g1", createdAt := 0, updatedAt := 0 }
      (by decide +kernel)) (by decide)
  · intro h
    exact absurd (congrArg (List.map FingerprintMarker.weight) (h "g1")) (by decide +kernel)

end Sentora.Fingerprints
