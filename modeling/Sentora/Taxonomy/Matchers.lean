import Sentora.Lib.Glob
import Sentora.Taxonomy.Documents

/-!
# Pattern matchers

`TaxonomyMatcher` and `DetailTaxonomyMatcher` of `domains/agents/app_cache.py`, and
the matcher of `preview_pattern` in `domains/taxonomy/service.py`.
-/

namespace Sentora.Taxonomy

open Lib

/-- `str.lower`, and the characters that `re.IGNORECASE` takes for the same.  Whether a
character is in lower case does not depend on the others. -/
structure CaseText where
  lower : String → String
  variants : Char → List Char
  lower_eq_self_iff : ∀ s, lower s = s ↔
    ∀ c ∈ s.toList, lower (String.singleton c) = String.singleton c
  wildcard_of_lower : ∀ s, ∀ c ∈ Glob.wildcards, c ∈ (lower s).toList → c ∈ s.toList

def globMatches (pattern name : String) : Bool :=
  Glob.matchTokens (fun c => [c]) (Glob.translate pattern.toList) name.toList

def hasWildcard (s : String) : Bool := s.toList.any Glob.wildcards.contains

/-- The exact patterns, from the last on, and the others with their translations. -/
structure Matcher (α : Type) where
  exact : List (String × α) := []
  globs : List (String × α) := []

namespace Matcher

variable {α : Type}

def add (t : CaseText) (m : Matcher α) (p : String × α) : Matcher α :=
  let key := t.lower p.1
  if hasWildcard key then { m with globs := m.globs ++ [(key, p.2)] }
  else { m with exact := (key, p.2) :: m.exact }

def build (t : CaseText) (patterns : List (String × α)) : Matcher α := patterns.foldl (add t) {}

def matchName (m : Matcher α) (name : String) : Option α :=
  match m.exact.lookup name with
  | some hit => some hit
  | none => (m.globs.find? fun g => globMatches g.1 name).map Prod.snd

end Matcher

def patternsWith {α : Type} (f : SoftwareEntry → α) (entries : List SoftwareEntry) :
    List (String × α) :=
  entries.flatMap fun entry => entry.patterns.map fun p => (p, f entry)

def taxonomyMatcher (t : CaseText) (entries : List SoftwareEntry) : Matcher (String × String) :=
  .build t (patternsWith (fun entry => (entry.category, entry.categoryDisplay)) entries)

def detailTaxonomyMatcher (t : CaseText) (entries : List SoftwareEntry) : Matcher SoftwareEntry :=
  .build t (patternsWith id entries)

/-- Whether `preview_pattern` has a name among its matches. -/
def previewMatches (t : CaseText) (patterns : List String) (name : String) : Bool :=
  if patterns.any hasWildcard then patterns.any fun p => globMatches (t.lower p) name
  else (patterns.map t.lower).contains name

section Matches

variable {α : Type} {t : CaseText} {p name : String} {a : α}
variable {q : String × α}

theorem hasWildcard_eq_false_iff {s : String} :
    hasWildcard s = false ↔ ∀ c ∈ s.toList, c ∉ Glob.wildcards := by
  simp [hasWildcard]

theorem globMatches_plain (h : hasWildcard p = false) : globMatches p name = true ↔ p = name := by
  unfold globMatches
  rw [Glob.translate_plain (hasWildcard_eq_false_iff.mp h), Glob.matchTokens_lit fun _ => rfl,
    String.toList_inj]

namespace Matcher

variable {m : Matcher α} {patterns : List (String × α)}

theorem add_of_wildcard (h : hasWildcard (t.lower q.1) = true) :
    m.add t q = { m with globs := m.globs ++ [(t.lower q.1, q.2)] } := if_pos h

theorem add_of_plain (h : hasWildcard (t.lower q.1) = false) :
    m.add t q = { m with exact := (t.lower q.1, q.2) :: m.exact } :=
  if_neg (Bool.not_eq_true _ ▸ h)

theorem mem_exact_add :
    (p, a) ∈ (m.add t q).exact ↔
      (p, a) ∈ m.exact ∨ (t.lower q.1 = p ∧ q.2 = a ∧ hasWildcard p = false) := by
  cases hq : hasWildcard (t.lower q.1) with
  | true =>
    rw [add_of_wildcard hq]
    refine (or_iff_left ?_).symm
    rintro ⟨hp, -, hplain⟩
    rw [← hp, hq] at hplain
    cases hplain
  | false =>
    rw [add_of_plain hq]
    show (p, a) ∈ (t.lower q.1, q.2) :: m.exact ↔ _
    rw [List.mem_cons, Prod.mk.injEq, or_comm]
    refine or_congr_right ⟨fun ⟨hp, ha⟩ => ⟨hp.symm, ha.symm, ?_⟩, fun ⟨hp, ha, _⟩ =>
      ⟨hp.symm, ha.symm⟩⟩
    rw [hp, hq]

theorem mem_globs_add :
    (p, a) ∈ (m.add t q).globs ↔
      (p, a) ∈ m.globs ∨ (t.lower q.1 = p ∧ q.2 = a ∧ hasWildcard p = true) := by
  cases hq : hasWildcard (t.lower q.1) with
  | true =>
    rw [add_of_wildcard hq]
    show (p, a) ∈ m.globs ++ [(t.lower q.1, q.2)] ↔ _
    rw [List.mem_append, List.mem_singleton, Prod.mk.injEq]
    refine or_congr_right ⟨fun ⟨hp, ha⟩ => ⟨hp.symm, ha.symm, ?_⟩, fun ⟨hp, ha, _⟩ =>
      ⟨hp.symm, ha.symm⟩⟩
    rw [hp, hq]
  | false =>
    rw [add_of_plain hq]
    refine (or_iff_left ?_).symm
    rintro ⟨hp, -, hwild⟩
    rw [← hp, hq] at hwild
    cases hwild

theorem mem_exact_foldl :
    (p, a) ∈ (patterns.foldl (add t) m).exact ↔
      (p, a) ∈ m.exact ∨ ∃ q ∈ patterns, t.lower q.1 = p ∧ q.2 = a ∧ hasWildcard p = false := by
  induction patterns generalizing m with
  | nil => simp
  | cons q rest ih => rw [List.foldl_cons, ih, mem_exact_add, List.exists_mem_cons_iff, or_assoc]

theorem mem_globs_foldl :
    (p, a) ∈ (patterns.foldl (add t) m).globs ↔
      (p, a) ∈ m.globs ∨ ∃ q ∈ patterns, t.lower q.1 = p ∧ q.2 = a ∧ hasWildcard p = true := by
  induction patterns generalizing m with
  | nil => simp
  | cons q rest ih => rw [List.foldl_cons, ih, mem_globs_add, List.exists_mem_cons_iff, or_assoc]

theorem mem_exact_build :
    (p, a) ∈ (build t patterns).exact ↔
      ∃ q ∈ patterns, t.lower q.1 = p ∧ q.2 = a ∧ hasWildcard p = false := by
  rw [build, mem_exact_foldl, or_iff_right List.not_mem_nil]

theorem mem_globs_build :
    (p, a) ∈ (build t patterns).globs ↔
      ∃ q ∈ patterns, t.lower q.1 = p ∧ q.2 = a ∧ hasWildcard p = true := by
  rw [build, mem_globs_foldl, or_iff_right List.not_mem_nil]

theorem of_matchName (h : (build t patterns).matchName name = some a) :
    ∃ q ∈ patterns, q.2 = a ∧ globMatches (t.lower q.1) name = true := by
  unfold matchName at h
  cases hexact : (build t patterns).exact.lookup name with
  | some hit =>
    rw [hexact] at h
    obtain ⟨before, after, hsplit, -⟩ := List.lookup_eq_some_iff.mp hexact
    have hmem : (name, hit) ∈ (build t patterns).exact := by
      rw [hsplit]
      exact List.mem_append_right before List.mem_cons_self
    obtain ⟨q, hq, hp, ha, hplain⟩ := mem_exact_build.mp hmem
    refine ⟨q, hq, ha.trans (Option.some.inj h), ?_⟩
    rw [hp]
    exact (globMatches_plain hplain).mpr rfl
  | none =>
    rw [hexact] at h
    obtain ⟨⟨p, b⟩, hfound, hb⟩ := Option.map_eq_some_iff.mp h
    obtain ⟨q, hq, hp, ha, -⟩ := mem_globs_build.mp (List.mem_of_find?_eq_some hfound)
    refine ⟨q, hq, ha.trans hb, ?_⟩
    rw [hp]
    exact List.find?_some (p := fun g : String × α => globMatches g.1 name) hfound

theorem exists_matchName (hq : q ∈ patterns)
    (h : globMatches (t.lower q.1) name = true) :
    ∃ a, (build t patterns).matchName name = some a := by
  unfold matchName
  cases hexact : (build t patterns).exact.lookup name with
  | some hit => exact ⟨hit, rfl⟩
  | none =>
    have hwild : hasWildcard (t.lower q.1) = true := by
      by_contra hplain
      rw [Bool.not_eq_true] at hplain
      have hname := (globMatches_plain hplain).mp h
      have hmem : (name, q.2) ∈ (build t patterns).exact :=
        mem_exact_build.mpr ⟨q, hq, hname, rfl, hname ▸ hplain⟩
      exact bne_iff_ne.mp (List.lookup_eq_none_iff.mp hexact _ hmem) rfl
    have hmem : (t.lower q.1, q.2) ∈ (build t patterns).globs :=
      mem_globs_build.mpr ⟨q, hq, rfl, rfl, hwild⟩
    have hsome : ((build t patterns).globs.find? fun g => globMatches g.1 name).isSome = true :=
      List.find?_isSome.mpr ⟨_, hmem, h⟩
    obtain ⟨g, hg⟩ := Option.isSome_iff_exists.mp hsome
    exact ⟨g.2, Option.map_eq_some_iff.mpr ⟨g, hg, rfl⟩⟩

end Matcher

theorem hasWildcard_lower (h : hasWildcard p = false) : hasWildcard (t.lower p) = false := by
  rw [hasWildcard_eq_false_iff] at h ⊢
  exact fun c hc hmem => h c (t.wildcard_of_lower p c hmem hc) hmem

theorem previewMatches_eq {patterns : List String} :
    previewMatches t patterns name = patterns.any fun p => globMatches (t.lower p) name := by
  unfold previewMatches
  split
  · rfl
  · rename_i hplain
    rw [Bool.not_eq_true, List.any_eq_false] at hplain
    rw [Bool.eq_iff_iff, List.contains_iff_mem, List.mem_map, List.any_eq_true]
    refine exists_congr fun p => and_congr_right fun hp => ?_
    exact (globMatches_plain (hasWildcard_lower (Bool.not_eq_true _ ▸ hplain p hp))).symm

theorem previewMatches_singleton :
    previewMatches t [p] name = true ↔ globMatches (t.lower p) name = true := by
  rw [previewMatches_eq, List.any_cons, List.any_nil, Bool.or_false]

end Matches

end Sentora.Taxonomy
