import Sentora.Enforcement.Engine

/-!
# What a pattern means

Whether the checks, the two matchers and a preview take the same names for those of a
category.

The checks translate a pattern as it is written and match it without regard to case.
The others translate it in lower case and match it exactly, so that a range from a capital
letter is another range there.
-/

namespace Sentora.Enforcement

open Lib Taxonomy

def engineAccepts (t : CaseText) (docs : List EntryDoc) (categoryId name : String) : Bool :=
  (getTaxonomyPatterns categoryId docs).any fun patterns =>
    matchesAny t name (compilePatterns patterns)

def entriesOf (categoryId : String) (entries : List SoftwareEntry) : List SoftwareEntry :=
  entries.filter fun entry => entry.category == categoryId

/-- The readers agree on a name. -/
structure OneMeaning (t : CaseText) (entries : List SoftwareEntry) (categoryId name : String) :
    Prop where
  taxonomy : engineAccepts t (entries.map entityToDoc) categoryId name = true ↔
    ∃ display, (taxonomyMatcher t (entriesOf categoryId entries)).matchName name =
      some (categoryId, display)
  detail : engineAccepts t (entries.map entityToDoc) categoryId name = true ↔
    ∃ entry ∈ entriesOf categoryId entries,
      (detailTaxonomyMatcher t (entriesOf categoryId entries)).matchName name = some entry
  preview : engineAccepts t (entries.map entityToDoc) categoryId name = true ↔
    ∃ entry ∈ entriesOf categoryId entries, ∃ p ∈ entry.patterns, previewMatches t [p] name = true

/-- The entries whose patterns are all of a kind have one meaning, for every name in lower
case. -/
def AllOneMeaning (t : CaseText) (P : String → Prop) : Prop :=
  ∀ (entries : List SoftwareEntry) (categoryId : String),
    (∀ entry ∈ entriesOf categoryId entries, ∀ p ∈ entry.patterns, P p) →
      ∀ name, t.lower name = name → OneMeaning t entries categoryId name

def Folded (t : CaseText) (x : Char) : Prop :=
  t.lower (String.singleton x) = String.singleton x

/-- A pattern and its lower case stand for the same characters of names, token by token, or
match none of them. -/
def Agrees (t : CaseText) (p : String) : Prop :=
  Glob.Agree (Folded t) t.variants (fun c => [c]) (Glob.translate p.toList)
      (Glob.translate (t.lower p).toList) ∨
    (Glob.Dead (Folded t) t.variants (Glob.translate p.toList) ∧
      Glob.Dead (Folded t) (fun c => [c]) (Glob.translate (t.lower p).toList))

/-- The lower case of a pattern has as many tokens, with the stars at the same places. -/
def KeepsPlaces (t : CaseText) (p : String) : Prop :=
  Glob.Aligned (Glob.translate p.toList) (Glob.translate (t.lower p).toList)

/-- Whether the checks take a name for one of a pattern. -/
def matchesWritten (t : CaseText) (p name : String) : Bool :=
  Glob.matchTokens t.variants (Glob.translate p.toList) name.toList

section Meaning

variable {t : CaseText} {entries : List SoftwareEntry} {categoryId name p : String}

theorem mem_entriesOf {entry : SoftwareEntry} :
    entry ∈ entriesOf categoryId entries ↔ entry ∈ entries ∧ entry.category = categoryId := by
  rw [entriesOf, List.mem_filter, beq_iff_eq]

theorem getTaxonomyPatterns_entityToDoc :
    getTaxonomyPatterns categoryId (entries.map entityToDoc) =
      some ((entriesOf categoryId entries).flatMap SoftwareEntry.patterns) := by
  have hsame : (EntryDoc.inCategory categoryId ∘ entityToDoc) =
      fun entry => entry.category == categoryId := by
    funext entry
    show (some entry.category == some categoryId) = _
    simp
  have hpatterns : EntryDoc.patterns ∘ entityToDoc = pure ∘ SoftwareEntry.patterns := rfl
  unfold getTaxonomyPatterns
  rw [List.filter_map, hsame, List.mapM_map, hpatterns]
  exact congrArg (Option.map List.flatten) List.mapM_pure

theorem engineAccepts_iff :
    engineAccepts t (entries.map entityToDoc) categoryId name = true ↔
      ∃ entry ∈ entriesOf categoryId entries, ∃ p ∈ entry.patterns,
        matchesWritten t p name = true := by
  unfold engineAccepts
  rw [getTaxonomyPatterns_entityToDoc, Option.any_some, matchesAny, compilePatterns, List.any_map,
    List.any_eq_true]
  simp only [List.mem_flatMap]
  constructor
  · rintro ⟨p, ⟨entry, hentry, hp⟩, hmatch⟩
    exact ⟨entry, hentry, p, hp, hmatch⟩
  · rintro ⟨entry, hentry, p, hp, hmatch⟩
    exact ⟨p, ⟨entry, hentry, hp⟩, hmatch⟩

theorem folded_of_mem (hname : t.lower name = name) {x : Char} (hx : x ∈ name.toList) :
    Folded t x := (t.lower_eq_self_iff name).mp hname x hx

theorem Agrees.matches_eq (h : Agrees t p) (hname : t.lower name = name) :
    matchesWritten t p name = globMatches (t.lower p) name := by
  have hall : ∀ x ∈ name.toList, Folded t x := fun x hx => folded_of_mem hname hx
  rcases h with hagree | ⟨hwritten, hlower⟩
  · exact hagree.matchTokens_eq hall
  · exact (hwritten.matchTokens_eq hall).trans (hlower.matchTokens_eq hall).symm

theorem agrees_of_matches_eq (hplaces : KeepsPlaces t p)
    (h : ∀ name, t.lower name = name → matchesWritten t p name = globMatches (t.lower p) name) :
    Agrees t p := by
  refine Glob.agree_or_dead hplaces fun xs hxs => ?_
  have hname : t.lower (String.ofList xs) = String.ofList xs := by
    rw [t.lower_eq_self_iff, String.toList_ofList]
    exact hxs
  have hsame := h (String.ofList xs) hname
  unfold matchesWritten globMatches at hsame
  rw [String.toList_ofList] at hsame
  exact hsame

theorem agrees_of_letterwise {f : Char → Char} (hopen : '[' ∉ p.toList)
    (hlower : (t.lower p).toList = p.toList.map f)
    (hwild : ∀ c ∈ p.toList, ∀ d ∈ Glob.wildcards, f c = d ↔ c = d)
    (hvariants : ∀ c ∈ p.toList, ∀ x, Folded t x → (c ∈ t.variants x ↔ f c = x)) : Agrees t p := by
  refine Or.inl ?_
  rw [hlower]
  refine Glob.agree_of_letterwise hopen hwild fun c hc x hx => ?_
  rw [hvariants c hc x hx, List.mem_singleton]

theorem mem_patternsWith {α : Type} {f : SoftwareEntry → α} {q : String × α} :
    q ∈ patternsWith f entries ↔ ∃ entry ∈ entries, ∃ p ∈ entry.patterns, (p, f entry) = q := by
  simp only [patternsWith, List.mem_flatMap, List.mem_map]

theorem matchName_patternsWith {α : Type} {f : SoftwareEntry → α} :
    (∃ entry ∈ entries, (Matcher.build t (patternsWith f entries)).matchName name =
        some (f entry)) ↔
      ∃ entry ∈ entries, ∃ p ∈ entry.patterns, globMatches (t.lower p) name = true := by
  constructor
  · rintro ⟨entry, -, hmatch⟩
    obtain ⟨q, hq, -, hglob⟩ := Matcher.of_matchName hmatch
    obtain ⟨source, hsource, p, hp, heq⟩ := mem_patternsWith.mp hq
    rw [← heq] at hglob
    exact ⟨source, hsource, p, hp, hglob⟩
  · rintro ⟨entry, hentry, p, hp, hglob⟩
    have hq : (p, f entry) ∈ patternsWith f entries :=
      mem_patternsWith.mpr ⟨entry, hentry, p, hp, rfl⟩
    obtain ⟨a, ha⟩ := Matcher.exists_matchName hq hglob
    obtain ⟨q, hq, hvalue, -⟩ := Matcher.of_matchName ha
    obtain ⟨source, hsource, _, _, heq⟩ := mem_patternsWith.mp hq
    refine ⟨source, hsource, ?_⟩
    rw [ha, ← hvalue, ← heq]

theorem oneMeaning_iff :
    OneMeaning t entries categoryId name ↔
      ((∃ entry ∈ entriesOf categoryId entries, ∃ p ∈ entry.patterns,
          matchesWritten t p name = true) ↔
        ∃ entry ∈ entriesOf categoryId entries, ∃ p ∈ entry.patterns,
          globMatches (t.lower p) name = true) := by
  have hdetail := @matchName_patternsWith t (entriesOf categoryId entries) name SoftwareEntry id
  have htaxonomy := @matchName_patternsWith t (entriesOf categoryId entries) name _
    fun entry => (entry.category, entry.categoryDisplay)
  have hcategory : (∃ display,
      (taxonomyMatcher t (entriesOf categoryId entries)).matchName name =
        some (categoryId, display)) ↔
      ∃ entry ∈ entriesOf categoryId entries,
        (taxonomyMatcher t (entriesOf categoryId entries)).matchName name =
          some (entry.category, entry.categoryDisplay) := by
    constructor
    · rintro ⟨display, hmatch⟩
      obtain ⟨q, hq, hvalue, -⟩ := Matcher.of_matchName hmatch
      obtain ⟨entry, hentry, _, _, heq⟩ := mem_patternsWith.mp hq
      refine ⟨entry, hentry, ?_⟩
      rw [hmatch, ← hvalue, ← heq]
    · rintro ⟨entry, hentry, hmatch⟩
      rw [(mem_entriesOf.mp hentry).2] at hmatch
      exact ⟨entry.categoryDisplay, hmatch⟩
  constructor
  · intro h
    rw [← engineAccepts_iff, h.detail]
    exact hdetail
  · intro h
    refine ⟨?_, ?_, ?_⟩
    · rw [engineAccepts_iff, h, hcategory]
      exact htaxonomy.symm
    · rw [engineAccepts_iff, h]
      exact hdetail.symm
    · rw [engineAccepts_iff, h]
      simp only [previewMatches_singleton]

def entryWith (p : String) : SoftwareEntry where
  id := ""
  name := p
  patterns := [p]
  category := "browsers"

theorem exists_entryWith_iff {Q : String → Prop} :
    (∃ entry ∈ entriesOf "browsers" [entryWith p], ∃ q ∈ entry.patterns, Q q) ↔ Q p := by
  have hentries : entriesOf "browsers" [entryWith p] = [entryWith p] := rfl
  have hpatterns : (entryWith p).patterns = [p] := rfl
  rw [hentries]
  simp only [List.mem_singleton, exists_eq_left, hpatterns]

/-- Where every pattern of a kind agrees with its lower case, the readers agree on every
name.  Where they do, the patterns of the kind whose lower case keeps the places agree. -/
theorem one_meaning_iff (t : CaseText) (P : String → Prop) :
    ((∀ p, P p → Agrees t p) → AllOneMeaning t P) ∧
      (AllOneMeaning t P → ∀ p, P p → KeepsPlaces t p → Agrees t p) := by
  constructor
  · intro hagrees entries categoryId hP name hname
    refine oneMeaning_iff.mpr (exists_congr fun entry => and_congr_right fun hentry =>
      exists_congr fun p => and_congr_right fun hp => ?_)
    rw [(hagrees p (hP entry hentry p hp)).matches_eq hname]
  · intro hall p hp hplaces
    refine agrees_of_matches_eq hplaces fun name hname => ?_
    have hmeaning := hall [entryWith p] "browsers" (fun entry hentry q hq => ?_) name hname
    · have hiff := oneMeaning_iff.mp hmeaning
      rw [exists_entryWith_iff, exists_entryWith_iff] at hiff
      exact Bool.eq_iff_iff.mpr hiff
    · have hentry' : entry = entryWith p := List.mem_singleton.mp (mem_entriesOf.mp hentry).1
      rw [hentry'] at hq
      rw [List.mem_singleton.mp hq]
      exact hp

end Meaning

theorem toNat_toLower (c : Char) :
    c.toLower.toNat = if 65 ≤ c.toNat ∧ c.toNat ≤ 90 then c.toNat + 32 else c.toNat := by
  have hupper : (c.val ≥ 'A'.val ∧ c.val ≤ 'Z'.val) ↔ (65 ≤ c.toNat ∧ c.toNat ≤ 90) := by
    rw [ge_iff_le, UInt32.le_iff_toNat_le, UInt32.le_iff_toNat_le]
    rfl
  unfold Char.toLower
  simp only [hupper]
  split
  · rename_i h
    show (c.val + 32).toNat = _
    rw [UInt32.toNat_add]
    show (c.toNat + 32) % _ = _
    omega
  · rfl

theorem toNat_toUpper (c : Char) :
    c.toUpper.toNat = if 97 ≤ c.toNat ∧ c.toNat ≤ 122 then c.toNat - 32 else c.toNat := by
  have hlower : (c.val ≥ 'a'.val ∧ c.val ≤ 'z'.val) ↔ (97 ≤ c.toNat ∧ c.toNat ≤ 122) := by
    rw [ge_iff_le, UInt32.le_iff_toNat_le, UInt32.le_iff_toNat_le]
    rfl
  unfold Char.toUpper
  simp only [hlower]
  split
  · rename_i h
    show (c.val + ('A'.val - 'a'.val)).toNat = _
    rw [UInt32.toNat_add]
    show (c.toNat + 4294967264) % _ = _
    omega
  · rfl

theorem mem_variants_iff {c x : Char} (hx : x.toLower = x) :
    c ∈ [x.toLower, x.toUpper] ↔ c.toLower = x := by
  rw [hx, List.mem_cons, List.mem_singleton]
  simp only [← Char.toNat_inj, toNat_toLower, toNat_toUpper] at hx ⊢
  split_ifs at hx ⊢ <;> omega

theorem toLower_eq_wildcard_iff {c d : Char} (hd : d ∈ Glob.wildcards) :
    c.toLower = d ↔ c = d := by
  have hval : d.toNat = 42 ∨ d.toNat = 63 ∨ d.toNat = 91 := by
    simp only [Glob.wildcards, List.mem_cons, List.not_mem_nil, or_false] at hd
    rcases hd with rfl | rfl | rfl
    · exact Or.inl rfl
    · exact Or.inr (Or.inl rfl)
    · exact Or.inr (Or.inr rfl)
  rw [← Char.toNat_inj, ← Char.toNat_inj, toNat_toLower]
  split_ifs
  · omega
  · rfl

theorem map_toLower_singleton {c : Char} :
    (String.singleton c).map Char.toLower = String.singleton c ↔ c.toLower = c := by
  rw [← String.toList_inj, String.toList_map, String.toList_singleton, List.map_singleton,
    List.singleton_inj]

def asciiCase : CaseText where
  lower s := s.map Char.toLower
  variants c := [c.toLower, c.toUpper]
  lower_eq_self_iff s := by
    simp only [map_toLower_singleton]
    rw [← String.toList_inj, String.toList_map]
    constructor
    · intro h c hc
      exact List.map_inj_left.mp (h.trans (List.map_id _).symm) c hc
    · intro h
      exact (List.map_inj_left.mpr h).trans (List.map_id _)
  wildcard_of_lower s c hc hmem := by
    rw [String.toList_map] at hmem
    obtain ⟨d, hd, hlower⟩ := List.mem_map.mp hmem
    rw [← (toLower_eq_wildcard_iff hc).mp hlower]
    exact hd

/-- Patterns without brackets have one meaning. -/
theorem bracketless_have_one_meaning : AllOneMeaning asciiCase fun p => '[' ∉ p.toList := by
  refine (one_meaning_iff asciiCase fun p => '[' ∉ p.toList).1 fun p hopen => ?_
  refine agrees_of_letterwise hopen (String.toList_map ..) ?_ ?_
  · exact fun c _ d hd => toLower_eq_wildcard_iff hd
  · exact fun c _ x hx => mem_variants_iff (map_toLower_singleton.mp hx)

/-- The range from `A` to `_` has the letters when a pattern is translated as it is written,
and no character in lower case. -/
theorem capital_range_means_two :
    asciiCase.lower "chrome" = "chrome" ∧
      ¬OneMeaning asciiCase [entryWith "[A-_]*"] "browsers" "chrome" := by
  refine ⟨by decide +kernel, fun hmeaning => ?_⟩
  have hiff := oneMeaning_iff.mp hmeaning
  rw [exists_entryWith_iff, exists_entryWith_iff] at hiff
  have hlower : globMatches (asciiCase.lower "[A-_]*") "chrome" = true :=
    hiff.mp (by decide +kernel)
  exact absurd hlower (by decide +kernel)

end Sentora.Enforcement
