import Mathlib.Data.Bool.AllAny
import Sentora.Library.Adapters

/-!
# CPE names

The formatted names of CPE 2.3, and what `parse_cpe_uri` of
`domains/library/adapters/nist_cpe.py` reads in a text, which it cuts at every colon before it
removes the escapes.
-/

namespace Sentora.Library

/-- The characters that a backslash escapes in a name. -/
def cpeSpecial : List Char := "!\"#$%&'()*+,/:;<=>?@[\\]^`\x7b|\x7d~".toList

/-- A value as it stands in a name.  A lone hyphen is not a value there, nor is an asterisk. -/
def cpeEscape (s : String) : String :=
  if s = "-" then "\\-"
  else String.ofList (s.toList.flatMap fun c => if c ∈ cpeSpecial then ['\\', c] else [c])

def cpeName (vendor product version : String) (attributes : List String) : String :=
  joinOn ':' (["cpe", "2.3", "a", cpeEscape vendor, cpeEscape product, cpeEscape version] ++
    attributes)

/-- The fields of a name, which a colon ends that no backslash escapes. -/
def cpeFields : List Char → List (List Char)
  | [] => [[]]
  | '\\' :: c :: rest => (cpeFields rest).modifyHead fun field => '\\' :: c :: field
  | c :: rest =>
    if c = ':' then [] :: cpeFields rest else (cpeFields rest).modifyHead fun field => c :: field

/-- A field with a value: it is not empty, and neither the asterisk that stands for any value nor
the hyphen that stands for none. -/
def Present (field : List Char) : Prop := field ∉ [[], ['*'], ['-']]

instance (field : List Char) : Decidable (Present field) := inferInstanceAs (Decidable (_ ∉ _))

def ApplicationName (s : String) : Prop :=
  ∃ vendor product attributes,
    cpeFields s.toList =
      "cpe".toList :: "2.3".toList :: "a".toList :: vendor :: product :: attributes ∧
    Present vendor ∧ Present product

def cpeClean (field : String) : String := removeChar '\\' (replaceChar '_' ' ' field)

/-- A value with blanks for its underscores. -/
def cpeSpaced (s : String) : String := replaceChar '_' ' ' s

/-- Cut at every colon, the text has the fields that are looked at, and a vendor and a product
that are neither empty nor an asterisk. -/
def LooksLikeName (s : String) : Prop :=
  ∃ first vendor product version attributes,
    splitOn ':' s = first :: "2.3" :: "a" :: vendor :: product :: version :: attributes ∧
    cpeClean vendor ∉ ["", "*"] ∧ cpeClean product ∉ ["", "*"]

section Parse

variable {s : String} {vendor product version : String} {attributes : List String} {r : ParsedCpe}

theorem parseCpeUri_eq_some_iff : parseCpeUri s = some r ↔
    ∃ first vendor product version attributes,
      splitOn ':' s = first :: "2.3" :: "a" :: vendor :: product :: version :: attributes ∧
      cpeClean vendor ∉ ["", "*"] ∧ cpeClean product ∉ ["", "*"] ∧
      r = ⟨cpeClean vendor, cpeClean product,
        if version = "*" ∨ version = "-" then "" else version⟩ := by
  unfold parseCpeUri
  constructor
  · intro h
    split at h
    · rename_i first f1 f2 f3 f4 f5 attributes hfields
      split at h
      · cases h
      · rename_i hkind
        dsimp only at h
        split at h
        · cases h
        · rename_i hvalues
          simp only [not_or, not_not] at hkind hvalues
          refine ⟨first, f3, f4, f5, attributes, ?_, ?_, ?_, (Option.some.inj h).symm⟩
          · rw [hfields, hkind.1, hkind.2]
          · simpa [cpeClean] using ⟨hvalues.1, hvalues.2.2.1⟩
          · simpa [cpeClean] using ⟨hvalues.2.1, hvalues.2.2.2⟩
    · cases h
  · rintro ⟨first, f3, f4, f5, attributes, hfields, hvendor, hproduct, rfl⟩
    rw [hfields]
    simp only [cpeClean, List.mem_cons, List.not_mem_nil, or_false, not_or] at hvendor hproduct
    simp [hvendor, hproduct, cpeClean]

theorem parseCpeUri_eq_none_iff : parseCpeUri s = none ↔ ¬LooksLikeName s := by
  rw [Option.eq_none_iff_forall_ne_some]
  constructor
  · rintro h ⟨first, f3, f4, f5, attributes, hfields, hvendor, hproduct⟩
    exact h _ (parseCpeUri_eq_some_iff.mpr
      ⟨first, f3, f4, f5, attributes, hfields, hvendor, hproduct, rfl⟩)
  · intro h r hr
    obtain ⟨first, f3, f4, f5, attributes, hfields, hvendor, hproduct, -⟩ :=
      parseCpeUri_eq_some_iff.mp hr
    exact h ⟨first, f3, f4, f5, attributes, hfields, hvendor, hproduct⟩

end Parse

section Formatted

variable {s v : String} {c : Char} {vendor product version : String} {attributes : List String}

theorem mem_toList_cpeSpaced : c ∈ (cpeSpaced s).toList ↔
    c ≠ '_' ∧ c ∈ s.toList ∨ c = ' ' ∧ '_' ∈ s.toList := by
  unfold cpeSpaced
  rw [toList_replaceChar, List.mem_map]
  constructor
  · rintro ⟨d, hd, rfl⟩
    by_cases hblank : d = '_'
    · rw [if_pos hblank]
      exact .inr ⟨rfl, hblank ▸ hd⟩
    · rw [if_neg hblank]
      exact .inl ⟨hblank, hd⟩
  · rintro (⟨hc, hmem⟩ | ⟨rfl, hmem⟩)
    · exact ⟨c, hmem, if_neg hc⟩
    · exact ⟨'_', hmem, if_pos rfl⟩

/-- A character that is no underscore and no blank stays where it is. -/
theorem mem_toList_cpeSpaced_iff (hunderscore : c ≠ '_') (hblank : c ≠ ' ') :
    c ∈ (cpeSpaced s).toList ↔ c ∈ s.toList := by
  rw [mem_toList_cpeSpaced]
  constructor
  · rintro (⟨-, h⟩ | ⟨h, -⟩)
    · exact h
    · exact absurd h hblank
  · exact fun h => .inl ⟨hunderscore, h⟩

theorem cpeSpaced_eq_star_iff : cpeSpaced s = "*" ↔ s = "*" := by
  rw [← String.toList_inj, ← String.toList_inj]
  unfold cpeSpaced
  rw [toList_replaceChar]
  show _ = ['*'] ↔ _ = ['*']
  rw [List.map_eq_singleton_iff]
  constructor
  · rintro ⟨c, hc, hstar⟩
    rw [hc]
    split at hstar
    · exact absurd hstar (by decide)
    · rw [hstar]
  · exact fun h => ⟨'*', h, by decide⟩

theorem cpeSpaced_eq_empty_iff : cpeSpaced s = "" ↔ s = "" := by
  rw [← String.toList_inj, ← String.toList_inj]
  unfold cpeSpaced
  rw [toList_replaceChar]
  exact List.map_eq_nil_iff

def escapeChar (c : Char) : List Char := if c ∈ cpeSpecial then ['\\', c] else [c]

theorem toList_cpeEscape (h : s ≠ "-") : (cpeEscape s).toList = s.toList.flatMap escapeChar := by
  unfold cpeEscape
  rw [if_neg h, String.toList_ofList]
  rfl

theorem mem_escapeChar {d : Char} (hc : c ≠ '\\') : c ∈ escapeChar d ↔ c = d := by
  unfold escapeChar
  split
  · simp [hc]
  · exact List.mem_singleton

theorem mem_toList_cpeEscape (hc : c ≠ '\\') : c ∈ (cpeEscape s).toList ↔ c ∈ s.toList := by
  by_cases hs : s = "-"
  · rw [hs]
    show c ∈ ['\\', '-'] ↔ c ∈ ['-']
    simp [hc]
  · rw [toList_cpeEscape hs, List.mem_flatMap]
    simp only [mem_escapeChar hc]
    exact exists_eq_right'

theorem cpeClean_cpeEscape : cpeClean (cpeEscape s) = removeChar '\\' (cpeSpaced s) := by
  by_cases hs : s = "-"
  · rw [hs]
    decide
  · unfold cpeClean cpeSpaced
    rw [← String.toList_inj, toList_removeChar, toList_removeChar, toList_replaceChar,
      toList_replaceChar, toList_cpeEscape hs]
    induction s.toList with
    | nil => rfl
    | cons c cs ih =>
      rw [List.flatMap_cons, List.map_append, List.filter_append, ih, List.map_cons,
        ← List.singleton_append, List.filter_append]
      congr 1
      unfold escapeChar
      split
      · rfl
      · rfl

theorem length_le_escaped (cs : List Char) : cs.length ≤ (cs.flatMap escapeChar).length := by
  induction cs with
  | nil => exact Nat.le_refl 0
  | cons c cs ih =>
    rw [List.flatMap_cons, List.length_append, List.length_cons]
    unfold escapeChar at ih ⊢
    split
    · simp only [List.length_cons, List.length_nil]
      omega
    · simp only [List.length_cons, List.length_nil]
      omega

theorem escaped_eq_self_iff {cs : List Char} :
    cs.flatMap escapeChar = cs ↔ ∀ c ∈ cs, c ∉ cpeSpecial := by
  induction cs with
  | nil => simp
  | cons c cs ih =>
    rw [List.flatMap_cons, List.forall_mem_cons, ← ih]
    unfold escapeChar
    split
    · rename_i hc
      refine iff_of_false (fun h => ?_) fun h => h.1 hc
      have hlength := congrArg List.length h
      have := length_le_escaped cs
      unfold escapeChar at this
      rw [List.length_append, List.length_cons] at hlength
      simp only [List.length_cons, List.length_nil] at hlength
      omega
    · rename_i hc
      rw [List.singleton_append, List.cons.injEq, and_iff_right rfl, and_iff_right hc]

theorem cpeEscape_eq_self_iff :
    cpeEscape s = s ↔ s ≠ "-" ∧ ∀ c ∈ s.toList, c ∉ cpeSpecial := by
  by_cases hs : s = "-"
  · rw [hs]
    decide
  · rw [← String.toList_inj, toList_cpeEscape hs, escaped_eq_self_iff, and_iff_right hs]

theorem cpeEscape_ne_logical : cpeEscape s ≠ "*" ∧ cpeEscape s ≠ "-" := by
  by_cases hs : s = "-"
  · rw [hs]
    decide
  · rw [ne_eq, ne_eq, ← String.toList_inj, ← String.toList_inj, toList_cpeEscape hs]
    show ¬_ = ['*'] ∧ ¬_ = ['-']
    cases hcs : s.toList with
    | nil => decide
    | cons c cs =>
      rw [List.flatMap_cons]
      unfold escapeChar
      split
      · simp
      · rename_i hc
        rw [List.singleton_append, List.cons.injEq, List.cons.injEq]
        refine ⟨fun h => hc (h.1 ▸ by decide), fun h => hs ?_⟩
        have hnil : cs = [] := by
          have := length_le_escaped cs
          unfold escapeChar at this
          rw [h.2] at this
          exact List.length_eq_zero_iff.mp (Nat.le_zero.mp this)
        rw [← String.toList_inj, hcs, h.1, hnil]
        rfl

def ReadBack (s : String) : Prop := ':' ∉ s.toList ∧ '\\' ∉ s.toList ∧ s ≠ "*"

instance (s : String) : Decidable (ReadBack s) := inferInstanceAs (Decidable (_ ∧ _))

theorem ReadBack.cpeClean_eq (h : ReadBack s) : cpeClean (cpeEscape s) = cpeSpaced s := by
  rw [cpeClean_cpeEscape, removeChar_of_not_mem]
  rw [mem_toList_cpeSpaced_iff (by decide) (by decide)]
  exact h.2.1

theorem readBack_of_cpeClean_eq {f : String} (hcolon : ':' ∉ f.toList) (hstar : cpeClean f ≠ "*")
    (h : cpeClean f = cpeSpaced s) : ReadBack s := by
  have hmem : ∀ c : Char, c ≠ '_' → c ≠ ' ' → c ∈ s.toList →
      c ∈ (cpeSpaced f).toList ∧ c ≠ '\\' := by
    intro c hunderscore hblank hc
    rw [← mem_toList_cpeSpaced_iff hunderscore hblank, ← h] at hc
    simpa [cpeClean, cpeSpaced] using hc
  refine ⟨fun hc => ?_, fun hc => ?_, fun hs => ?_⟩
  · have hf := (hmem ':' (by decide) (by decide) hc).1
    exact hcolon ((mem_toList_cpeSpaced_iff (by decide) (by decide)).mp hf)
  · exact (hmem '\\' (by decide) (by decide) hc).2 rfl
  · rw [h] at hstar
    exact hstar (cpeSpaced_eq_star_iff.mpr hs)

theorem splitOn_cpeEscape (h : ':' ∉ s.toList) : splitOn ':' (cpeEscape s) = [cpeEscape s] :=
  splitOn_of_not_mem fun hc => h ((mem_toList_cpeEscape (by decide)).mp hc)

theorem splitOn_cpeName : splitOn ':' (cpeName vendor product version attributes) =
    "cpe" :: "2.3" :: "a" :: (splitOn ':' (cpeEscape vendor) ++ (splitOn ':' (cpeEscape product) ++
      (splitOn ':' (cpeEscape version) ++ attributes.flatMap (splitOn ':')))) := by
  unfold cpeName
  rw [splitOn_joinOn_flatMap (List.append_ne_nil_of_left_ne_nil (List.cons_ne_nil _ _) _),
    List.flatMap_append]
  simp only [List.flatMap_cons, List.flatMap_nil, List.append_nil, List.append_assoc]
  have hcpe : splitOn ':' "cpe" = ["cpe"] := by decide
  have hversion : splitOn ':' "2.3" = ["2.3"] := by decide
  have hpart : splitOn ':' "a" = ["a"] := by decide
  rw [hcpe, hversion, hpart]
  rfl

theorem parseCpeUri_cpeName_iff (hvendor : vendor ≠ "") (hproduct : product ≠ "") :
    parseCpeUri (cpeName vendor product version attributes) =
        some ⟨cpeSpaced vendor, cpeSpaced product, version⟩ ↔
      ReadBack vendor ∧ ReadBack product ∧ cpeEscape version = version := by
  rw [parseCpeUri_eq_some_iff]
  constructor
  · rintro ⟨first, f3, f4, f5, rest, hfields, hf3, hf4, hr⟩
    simp only [ParsedCpe.mk.injEq] at hr
    obtain ⟨hr3, hr4, hr5⟩ := hr
    have hcolon : ∀ f ∈ [f3, f4, f5], ':' ∉ f.toList := by
      intro f hf
      apply not_mem_of_mem_splitOn (s := cpeName vendor product version attributes)
      rw [hfields]
      simp only [List.mem_cons, List.not_mem_nil, or_false] at hf ⊢
      tauto
    simp only [List.forall_mem_cons] at hcolon
    have hv : ReadBack vendor := readBack_of_cpeClean_eq hcolon.1
      (fun h => hf3 (by rw [h]; decide)) hr3.symm
    have hp : ReadBack product := readBack_of_cpeClean_eq hcolon.2.1
      (fun h => hf4 (by rw [h]; decide)) hr4.symm
    refine ⟨hv, hp, ?_⟩
    have hnone : ':' ∉ version.toList := by
      rw [hr5]
      split
      · decide
      · exact hcolon.2.2.1
    rw [splitOn_cpeName, splitOn_cpeEscape hv.1, splitOn_cpeEscape hp.1,
      splitOn_cpeEscape hnone] at hfields
    simp only [List.cons_append, List.nil_append, List.cons.injEq] at hfields
    obtain ⟨-, -, -, -, -, rfl, -⟩ := hfields
    rw [if_neg (not_or.mpr cpeEscape_ne_logical)] at hr5
    exact hr5.symm
  · rintro ⟨hv, hp, hversion⟩
    have hnone : ':' ∉ version.toList := fun hc =>
      (cpeEscape_eq_self_iff.mp hversion).2 ':' hc (by decide)
    refine ⟨"cpe", cpeEscape vendor, cpeEscape product, cpeEscape version,
      attributes.flatMap (splitOn ':'), ?_, ?_, ?_, ?_⟩
    · rw [splitOn_cpeName, splitOn_cpeEscape hv.1, splitOn_cpeEscape hp.1,
        splitOn_cpeEscape hnone]
      rfl
    · rw [hv.cpeClean_eq]
      simp [cpeSpaced_eq_star_iff, cpeSpaced_eq_empty_iff, hvendor, hv.2.2]
    · rw [hp.cpeClean_eq]
      simp [cpeSpaced_eq_star_iff, cpeSpaced_eq_empty_iff, hproduct, hp.2.2]
    · rw [if_neg (not_or.mpr cpeEscape_ne_logical), hv.cpeClean_eq, hp.cpeClean_eq, hversion]

end Formatted

section Names

variable {s : String} {vendor product version : String} {attributes : List String}
  {field rest : List Char}

/-- What is formatted is read back exactly where the vendor and the product have no colon and no
backslash and are not an asterisk, and the version has nothing to escape.  A text that is not the
name of an application is refused exactly where it does not look like one. -/
theorem parseCpeUri_decodes_iff (vendor product version : String) (attributes : List String)
    (s : String) :
    (vendor ≠ "" → product ≠ "" →
      (parseCpeUri (cpeName vendor product version attributes) =
          some ⟨cpeSpaced vendor, cpeSpaced product, version⟩ ↔
        ReadBack vendor ∧ ReadBack product ∧
          version ≠ "-" ∧ ∀ c ∈ version.toList, c ∉ cpeSpecial)) ∧
      ((¬ApplicationName s → parseCpeUri s = none) ↔ (LooksLikeName s → ApplicationName s)) := by
  constructor
  · intro hvendor hproduct
    rw [parseCpeUri_cpeName_iff hvendor hproduct, cpeEscape_eq_self_iff]
  · rw [parseCpeUri_eq_none_iff]
    exact not_imp_not

theorem parseCpeUri_decodes_chrome :
    parseCpeUri (cpeName "google" "chrome_os" "120.0" ["*", "*", "*", "*", "*", "*", "*"]) =
      some ⟨"google", "chrome os", "120.0"⟩ :=
  ((parseCpeUri_decodes_iff "google" "chrome_os" "120.0" ["*", "*", "*", "*", "*", "*", "*"]
    "").1 (by decide) (by decide)).mpr
    ⟨by decide, by decide, by decide, List.all_iff_forall_prop.mp (by decide)⟩

/-- An escaped colon ends the vendor, and a text with another first field is read. -/
theorem parseCpeUri_shifts :
    ¬((∀ vendor product version attributes, vendor ≠ "" → product ≠ "" →
        parseCpeUri (cpeName vendor product version attributes) =
          some ⟨cpeSpaced vendor, cpeSpaced product, version⟩) ∧
      ∀ s, ¬ApplicationName s → parseCpeUri s = none) := by
  intro h
  have hshift := h.1 "perl" "http::tiny" "0.76" [] (by decide) (by decide)
  exact absurd hshift (by decide)

end Names

end Sentora.Library
