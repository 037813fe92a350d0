import Sentora.Classification.Patterns
import Sentora.Eol.Decisions
import Sentora.Lib.Overwrites

/-!
# The order of the dictionary

What `run_eol_matching` finds by the patterns of the entries of the dictionary, against the globs
that they are, and whether it hangs on the order in which the entries are read.

The patterns lose their outer stars and are compared as texts, the shorter one with a part of the
longer one.  A pattern of several entries is kept with the last of them, and the first pattern that
finds a product decides.
-/

namespace Sentora.Eol

open Lib Library Agents

def entryCpe (entry : LibraryEntry) : Option (String × String) :=
  if entry.source = .nistCpe then vendorProduct (entry.upstreamId.getD "") else none

/-- The texts that an entry adds to `cpe_map`. -/
def entryPatterns (py : Python) (entry : LibraryEntry) : List String :=
  if (entryCpe entry).isSome then
    (entry.markers.map fun marker => stripStars (py.lower marker.pattern)).filter fun p =>
      2 < p.length
  else []

/-- One of the texts is a part of the other. -/
def overlaps (normalizedName pattern : String) : Bool :=
  isPartOf pattern normalizedName || isPartOf normalizedName pattern

def touching (py : Python) (normalizedName : String) (entry : LibraryEntry) : List String :=
  (entryPatterns py entry).filter (overlaps normalizedName)

def mappedTo (py : Python) (products : Products) (entry : LibraryEntry) : Option String :=
  (entryCpe entry).bind fun cpe => (cpeToEolProduct py cpe.1 cpe.2).filter fun id =>
    id ≠ "" && hasProduct products id

/-- An entry of the dictionary maps to the product, and one of its patterns matches the name as a
glob. -/
def Qualifies (t : Taxonomy.CaseText) (py : Python) (data : MatchingData) (normalizedName : String)
    (id : String) : Prop :=
  ∃ entry ∈ data.libraryEntries, mappedTo py data.eolProducts entry = some id ∧
    ∃ marker ∈ entry.markers, Classification.matchesPattern t marker.pattern normalizedName = true

section Found

variable {py : Python} {data : MatchingData} {entries : List LibraryEntry} {entry : LibraryEntry}
  {name pattern : String}

/-- The items of `cpe_map` before any is overwritten. -/
def added (py : Python) (entry : LibraryEntry) : List (String × String × String) :=
  match vendorProduct (entry.upstreamId.getD "") with
  | some cpe =>
    if entry.source = .nistCpe then
      (entry.markers.map fun marker => (stripStars (py.lower marker.pattern), cpe)).filter
        fun p => 2 < p.1.length
    else []
  | none => []

theorem added_eq : added py entry = (entryPatterns py entry).filterMap fun pattern =>
    (entryCpe entry).map fun cpe => (pattern, cpe) := by
  unfold added entryPatterns entryCpe
  cases hcpe : vendorProduct (entry.upstreamId.getD "") with
  | none => simp
  | some cpe =>
    dsimp only
    by_cases hsource : entry.source = .nistCpe
    · rw [if_pos hsource, if_pos hsource, Option.isSome_some, if_pos rfl]
      simp only [Option.map_some]
      rw [List.filterMap_eq_map', List.filter_map, List.filter_map, List.map_map]
      rfl
    · rw [if_neg hsource, if_neg hsource]
      rfl

theorem map_fst_added : (added py entry).map Prod.fst = entryPatterns py entry := by
  rw [added_eq]
  unfold entryPatterns
  cases entryCpe entry with
  | none => rfl
  | some cpe =>
    rw [Option.isSome_some, if_pos rfl]
    simp only [Option.map_some]
    rw [List.filterMap_eq_map', List.map_map]
    exact List.map_id _

theorem isSome_of_mem_entryPatterns (h : pattern ∈ entryPatterns py entry) :
    (entryCpe entry).isSome = true := by
  unfold entryPatterns at h
  split at h
  · assumption
  · cases h

theorem lookup_added : (added py entry).reverse.lookup pattern =
    if pattern ∈ entryPatterns py entry then entryCpe entry else none := by
  rw [added_eq]
  cases hcpe : entryCpe entry with
  | none =>
    simp only [Option.map_none, List.filterMap_none]
    rw [ite_self]
    rfl
  | some cpe =>
    simp only [Option.map_some]
    rw [List.filterMap_eq_map', ← List.map_reverse, lookup_map_keys]
    simp only [List.mem_reverse]

theorem lookup_flatMap_added : (entries.flatMap (added py)).reverse.lookup pattern =
    (lastWith (entryPatterns py) entries pattern).bind entryCpe := by
  rw [List.lookup_eq_findSome?, List.reverse_flatMap, findSome?_flatMap, lastWith]
  simp only [Function.comp_def, ← List.lookup_eq_findSome?, lookup_added]
  induction entries.reverse with
  | nil => rfl
  | cons entry rest ih =>
    rw [List.findSome?_cons, List.find?_cons]
    by_cases hmem : pattern ∈ entryPatterns py entry
    · obtain ⟨cpe, hcpe⟩ := Option.isSome_iff_exists.mp (isSome_of_mem_entryPatterns hmem)
      rw [if_pos hmem, decide_eq_true hmem, hcpe]
      exact hcpe.symm
    · rw [if_neg hmem, decide_eq_false hmem]
      exact ih

theorem lastWith_touching (h : overlaps name pattern = true) :
    lastWith (touching py name) entries pattern = lastWith (entryPatterns py) entries pattern := by
  unfold lastWith touching
  simp [List.mem_filter, h]

theorem cpeMatch_eq : cpeMatch py data name =
    firstHit (touching py name) (mappedTo py data.eolProducts) data.libraryEntries := by
  have hmap : cpeMap py data.libraryEntries =
      (firstKeys ((data.libraryEntries.flatMap (added py)).map Prod.fst)).filterMap fun pattern =>
        ((data.libraryEntries.flatMap (added py)).reverse.lookup pattern).map fun cpe =>
          (pattern, cpe) := rfl
  unfold cpeMatch firstHit
  rw [hmap, findSome?_filterMap, findSome?_firstKeys, List.map_flatMap, findSome?_flatMap]
  simp only [map_fst_added, lookup_flatMap_added]
  congr 1
  funext entry
  have htouching : touching py name entry = (entryPatterns py entry).filter (overlaps name) := rfl
  rw [htouching, findSome?_filter]
  congr 1
  funext pattern
  by_cases hoverlaps : overlaps name pattern = true
  · rw [if_pos hoverlaps, hit, lastWith_touching hoverlaps]
    cases hlast : lastWith (entryPatterns py) data.libraryEntries pattern with
    | none => rfl
    | some last =>
      rw [Option.bind_some, Option.bind_some, mappedTo]
      cases entryCpe last with
      | none => rfl
      | some cpe => exact if_pos hoverlaps
  · rw [if_neg hoverlaps, Option.bind_eq_none_iff]
    intro p hp
    obtain ⟨cpe, -, rfl⟩ := Option.map_eq_some_iff.mp hp
    exact if_neg hoverlaps

end Found

section Stored

variable {py : Python} {data : MatchingData} {d : AppSummary} {m : EolMatchDoc}

theorem fuzzyScore_le {appWords : List String} {product : String × String} {score : Rat}
    (h : fuzzyScore py appWords product = some score) : score ≤ 7 / 10 := by
  unfold fuzzyScore at h
  dsimp only at h
  have hcap : (13 / 20 : Rat) ≤ 7 / 10 := by decide +kernel
  split at h
  · split at h
    · exact Option.some.inj h ▸ hcap
    · cases h
  · split at h
    · exact (Option.some.inj h).symm.le
    · split at h
      · cases h
      · exact Option.some.inj h ▸ (min_le_right _ _).trans hcap

theorem foldl_score_le {products : List (String × String)} {best : Option (String × Rat)}
    {step : Option (String × Rat) → String × String → Option (String × Rat)} {found : String × Rat}
    (hstep : ∀ best product found, step best product = some found →
      best = some found ∨ found.2 ≤ 7 / 10)
    (hbest : ∀ found, best = some found → found.2 ≤ 7 / 10)
    (h : products.foldl step best = some found) : found.2 ≤ 7 / 10 := by
  induction products generalizing best with
  | nil => exact hbest found h
  | cons product rest ih =>
    refine ih (fun found hfound => ?_) h
    exact (hstep best product found hfound).elim (hbest found) id

theorem fuzzyMatchProduct_le {appName : String} {products : List (String × String)}
    {found : String × Rat} (h : fuzzyMatchProduct py appName products = some found) :
    found.2 ≤ 7 / 10 := by
  unfold fuzzyMatchProduct at h
  dsimp only at h
  split at h
  · cases h
  · refine foldl_score_le (fun best product found hfound => ?_) (fun found hnone => by cases hnone)
      (Option.filter_eq_some_iff.mp h).1
    split at hfound
    · exact .inl hfound
    · next score hscore =>
      split at hfound
      · exact .inr (Option.some.inj hfound ▸ fuzzyScore_le hscore)
      · exact .inl hfound

/-- What is stored for an app that is not found by name, for what is found by patterns. -/
def ofCpe (py : Python) (data : MatchingData) (d : AppSummary) : Option String → Option EolMatchDoc
  | some id => some { eolProductId := id, matchSource := .cpe, matchConfidence := 9 / 10 }
  | none =>
    match fuzzyMatchProduct py d.displayName (productNames data.productDocs) with
    | some (id, confidence) =>
      if hasProduct data.eolProducts id then
        some { eolProductId := id, matchSource := .fuzzy, matchConfidence := confidence }
      else none
    | none => none

theorem matchApp_eq (hdirect : (directNameMatch d.normalizedName data.eolProducts
      data.userMappings).filter (· ≠ "") = none) :
    matchApp py data d = ofCpe py data d (cpeMatch py data d.normalizedName) := by
  unfold matchApp
  rw [hdirect]
  cases cpeMatch py data d.normalizedName with
  | none => rfl
  | some id => rfl

theorem ofCpe_none_ne (h : ofCpe py data d none = some m) : m.matchConfidence ≠ 9 / 10 := by
  intro hnine
  unfold ofCpe at h
  dsimp only at h
  split at h
  · next id confidence hfound =>
    have hle : confidence ≤ 7 / 10 := fuzzyMatchProduct_le hfound
    split at h
    · rw [← Option.some.inj h] at hnine
      have hnine : confidence = 9 / 10 := hnine
      rw [hnine] at hle
      exact absurd hle (by decide +kernel)
    · cases h
  · cases h

theorem ofCpe_confident_iff {found : Option String} {id : String} :
    (∃ m, ofCpe py data d found = some m ∧ m.matchConfidence = 9 / 10 ∧ m.eolProductId = id) ↔
      found = some id := by
  constructor
  · rintro ⟨m, hm, hnine, rfl⟩
    cases found with
    | none => exact absurd hnine (ofCpe_none_ne hm)
    | some id => rw [← Option.some.inj hm]
  · rintro rfl
    exact ⟨_, rfl, rfl, rfl⟩

theorem ofCpe_injective : Function.Injective (ofCpe py data d) := by
  intro found found' h
  refine Option.ext fun id => ?_
  rw [← @ofCpe_confident_iff py data d found id, h, ofCpe_confident_iff]

end Stored

section Order

variable (t : Taxonomy.CaseText) (py : Python) (data : MatchingData) (deltaOnly : Bool)
  (changedAppNames : List String) (w : World) (normalizedName : String)

def storedIn (order : List LibraryEntry) : Option EolMatchDoc :=
  (runEolMatching py { data with libraryEntries := order } deltaOnly changedAppNames w).stored
    normalizedName

/-- In whatever order the entries are read, a match of confidence 0.9 is stored if and only if an
entry qualifies, it is of the product of one that does, and the same is stored. -/
def FindsByGlob : Prop :=
  ∀ order : List LibraryEntry, order.Perm data.libraryEntries →
    ((∃ m, storedIn py data deltaOnly changedAppNames w normalizedName order = some m ∧
        m.matchConfidence = 9 / 10) ↔ ∃ id, Qualifies t py data normalizedName id) ∧
      (∀ m, storedIn py data deltaOnly changedAppNames w normalizedName order = some m →
        m.matchConfidence = 9 / 10 → Qualifies t py data normalizedName m.eolProductId) ∧
      storedIn py data deltaOnly changedAppNames w normalizedName order =
        storedIn py data deltaOnly changedAppNames w normalizedName data.libraryEntries

/-- An entry that maps to the product may be the last one that has some overlapping pattern, while
all overlapping patterns that are read before may be left to entries that map to none. -/
def Reachable (id : String) : Prop :=
  Reaches (touching py normalizedName) (mappedTo py data.eolProducts) data.libraryEntries id

/-- All entries that have some overlapping pattern map to products. -/
def Kept : Prop :=
  Secured (touching py normalizedName) (mappedTo py data.eolProducts) data.libraryEntries

end Order

section Exact

variable {t : Taxonomy.CaseText} {py : Python} {data : MatchingData} {deltaOnly : Bool}
  {changedAppNames : List String} {w : World} {d : AppSummary} {order : List LibraryEntry}

theorem storedIn_eq (hd : d ∈ w.summaries)
    (hcovers : covers deltaOnly changedAppNames d.normalizedName = true)
    (hdirect : (directNameMatch d.normalizedName data.eolProducts data.userMappings).filter
      (· ≠ "") = none) :
    storedIn py data deltaOnly changedAppNames w d.normalizedName order =
      ofCpe py data d
        (firstHit (touching py d.normalizedName) (mappedTo py data.eolProducts) order) := by
  unfold storedIn
  rw [stored_of_covers hd hcovers, @matchApp_eq py { data with libraryEntries := order } d hdirect,
    cpeMatch_eq]
  rfl

end Exact

/-- The entries of the dictionary are found as globs, in whatever order, just where no two products
are reachable, a reachable one is of an entry that qualifies, and all entries with some overlapping
pattern map to products if one qualifies. -/
theorem findsByGlob_iff (t : Taxonomy.CaseText) (py : Python) (data : MatchingData)
    (deltaOnly : Bool) (changedAppNames : List String) (w : World) (d : AppSummary)
    (hd : d ∈ w.summaries) (hcovers : covers deltaOnly changedAppNames d.normalizedName = true)
    (hdirect : (directNameMatch d.normalizedName data.eolProducts data.userMappings).filter
      (· ≠ "") = none) :
    FindsByGlob t py data deltaOnly changedAppNames w d.normalizedName ↔
      (∀ id id', Reachable py data d.normalizedName id → Reachable py data d.normalizedName id' →
        id = id') ∧
      (∀ id, Reachable py data d.normalizedName id → Qualifies t py data d.normalizedName id) ∧
      ((∃ id, Qualifies t py data d.normalizedName id) → Kept py data d.normalizedName) := by
  refine Iff.trans ?_ every_order_iff
  refine forall_congr' fun order => imp_congr_right fun _ => ?_
  simp only [storedIn_eq hd hcovers hdirect]
  refine and_congr ?_ (and_congr ?_ ofCpe_injective.eq_iff)
  · refine iff_congr ?_ Iff.rfl
    constructor
    · rintro ⟨m, hm, hnine⟩
      exact ⟨m.eolProductId, ofCpe_confident_iff.mp ⟨m, hm, hnine, rfl⟩⟩
    · rintro ⟨id, hid⟩
      obtain ⟨m, hm, hnine, -⟩ := ofCpe_confident_iff.mpr hid
      exact ⟨m, hm, hnine⟩
  · constructor
    · intro h id hid
      obtain ⟨m, hm, hnine, rfl⟩ := ofCpe_confident_iff.mpr hid
      exact h m hm hnine
    · intro h m hm hnine
      exact h m.eolProductId (ofCpe_confident_iff.mp ⟨m, hm, hnine, rfl⟩)

def acrobatEntry : LibraryEntry where
  id := "acrobat"
  name := "Adobe Acrobat"
  vendor := "adobe"
  source := .nistCpe
  upstreamId := some "adobe:acrobat"
  markers := [⟨"*adobe*acrobat*", "Adobe Acrobat", "name_pattern", 1, "", "system"⟩,
    ⟨"*acrobat*", "Acrobat", "name_pattern", 4 / 5, "", "system"⟩]

def acrobatData : MatchingData where
  eolProducts := [("adobe-acrobat", [])]
  libraryEntries := [acrobatEntry]

def summaryNamed (normalizedName : String) : AppSummary :=
  { zoomSummary with normalizedName := normalizedName, displayName := normalizedName }

def worldWith (normalizedName : String) : World where
  apps := []
  agents := []
  summaries := ⟨[summaryNamed normalizedName], List.nodup_singleton _⟩

theorem vendor_not_direct :
    (directNameMatch "adobe" acrobatData.eolProducts acrobatData.userMappings).filter (· ≠ "") =
      none := by
  decide +kernel

theorem findsByGlob_vendor :
    FindsByGlob Enforcement.asciiCase plainPython acrobatData false [] (worldWith "adobe")
        "adobe" ↔
      (∀ id id', Reachable plainPython acrobatData "adobe" id →
        Reachable plainPython acrobatData "adobe" id' → id = id') ∧
      (∀ id, Reachable plainPython acrobatData "adobe" id →
        Qualifies Enforcement.asciiCase plainPython acrobatData "adobe" id) ∧
      ((∃ id, Qualifies Enforcement.asciiCase plainPython acrobatData "adobe" id) →
        Kept plainPython acrobatData "adobe") :=
  findsByGlob_iff Enforcement.asciiCase plainPython acrobatData false [] (worldWith "adobe")
    (summaryNamed "adobe") List.mem_cons_self rfl vendor_not_direct

/-- It is taken for the product. -/
theorem vendor_is_taken_for_product :
    ¬∀ (t : Taxonomy.CaseText) (py : Python) (data : MatchingData) (deltaOnly : Bool)
      (changedAppNames : List String) (w : World), ∀ d ∈ w.summaries,
      covers deltaOnly changedAppNames d.normalizedName = true →
      (directNameMatch d.normalizedName data.eolProducts data.userMappings).filter (· ≠ "") =
        none → FindsByGlob t py data deltaOnly changedAppNames w d.normalizedName := by
  intro h
  have hfinds := h Enforcement.asciiCase plainPython acrobatData false [] (worldWith "adobe")
    (summaryNamed "adobe") List.mem_cons_self rfl vendor_not_direct
  have hhit : firstHit (touching plainPython "adobe")
      (mappedTo plainPython acrobatData.eolProducts) [acrobatEntry] = some "adobe-acrobat" := by
    decide +kernel
  have hstored : storedIn plainPython acrobatData false [] (worldWith "adobe") "adobe"
      [acrobatEntry] = ofCpe plainPython acrobatData (summaryNamed "adobe") _ :=
    @storedIn_eq plainPython acrobatData false [] (worldWith "adobe") (summaryNamed "adobe")
      [acrobatEntry] List.mem_cons_self rfl vendor_not_direct
  obtain ⟨m, hm, hnine, -⟩ :=
    (@ofCpe_confident_iff plainPython acrobatData (summaryNamed "adobe") _ _).mpr hhit
  obtain ⟨id, entry, hentry, -, marker, hmarker, hmatch⟩ :=
    (hfinds [acrobatEntry] (List.Perm.refl _)).1.mp ⟨m, hstored.trans hm, hnine⟩
  obtain rfl := List.mem_singleton.mp hentry
  have hnone : (acrobatEntry.markers.any fun marker =>
      Classification.matchesPattern Enforcement.asciiCase marker.pattern "adobe") = false := by
    decide +kernel
  rw [List.any_eq_true.mpr ⟨marker, hmarker, hmatch⟩] at hnone
  cases hnone

end Sentora.Eol
