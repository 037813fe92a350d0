import Sentora.Classification.Classifier
import Sentora.Enforcement.Meaning

/-!
# What patterns stand for

`matches_pattern` against the globs that it documents, for ASCII text.  A dot of the
regular expression is no line feed, and its dollar also stands before a line feed at the
end, so that the two differ in the line feeds of the text.
-/

namespace Sentora.Classification

open Lib Taxonomy

/-- A star is any sequence of characters and a question mark one character; any other
character is itself, in upper or lower case. -/
inductive Accepts : List Char → List Char → Prop where
  | nil : Accepts [] []
  | star {pattern text : List Char} (skipped : List Char) (h : Accepts pattern text) :
    Accepts ('*' :: pattern) (skipped ++ text)
  | any {pattern text : List Char} (x : Char) (h : Accepts pattern text) :
    Accepts ('?' :: pattern) (x :: text)
  | lit {pattern text : List Char} {c x : Char} (hstar : c ≠ '*') (hany : c ≠ '?')
    (hsame : c.toLower = x.toLower) (h : Accepts pattern text) :
    Accepts (c :: pattern) (x :: text)

def IsAscii (s : String) : Prop := ∀ c ∈ s.toList, c.toNat < 128

/-- `str.lower` and `re.IGNORECASE` on ASCII. -/
structure AsciiText (t : CaseText) : Prop where
  lower : ∀ s, IsAscii s → (t.lower s).toList = s.toList.map Char.toLower
  variants : ∀ c x : Char, c.toNat < 128 → x.toNat < 128 →
    (c ∈ t.variants x ↔ c.toLower = x.toLower)

theorem asciiText_asciiCase : AsciiText Enforcement.asciiCase := by
  refine ⟨fun s _ => String.toList_map, fun c x _ _ => ?_⟩
  show c ∈ [x.toLower, x.toUpper] ↔ _
  rw [List.mem_cons, List.mem_singleton]
  simp only [← Char.toNat_inj, Enforcement.toNat_toLower, Enforcement.toNat_toUpper]
  split_ifs <;> omega

def feeds (text : List Char) : Nat := text.count '\n'

/-- The text has the line feeds of the pattern, or nothing hangs on those that it has
more: it is accepted if and only if it has one more, at its end, and is accepted without. -/
def FeedsFit (pattern text : String) : Prop :=
  isExact pattern = true ∨ feeds text.toList = feeds pattern.toList ∨
    (Accepts pattern.toList text.toList ↔ ∃ line, text.toList = line ++ ['\n'] ∧
      feeds line = feeds pattern.toList ∧ Accepts pattern.toList line)

section Globs

variable {v : Char → List Char} {tokens : List Glob.Token} {pattern text line rest : List Char}
  {c x : Char}

theorem toLower_eq_feed_iff : c.toLower = '\n' ↔ c = '\n' := by
  simp only [← Char.toNat_inj, Enforcement.toNat_toLower]
  have hfeed : '\n'.toNat = 10 := rfl
  split_ifs <;> omega

def tokensOf (pattern : List Char) : List Glob.Token :=
  pattern.map fun c => if c = '*' then .star else if c = '?' then .any else .lit c

/-- The characters stand for those with the same lower case. -/
def Folds (v : Char → List Char) (pattern text : List Char) : Prop :=
  ∀ c ∈ pattern, ∀ x ∈ text, c ∈ v x ↔ c.toLower = x.toLower

theorem Folds.tail (h : Folds v (c :: pattern) text) (hsub : line ⊆ text) : Folds v pattern line :=
  fun d hd x hx => h d (List.mem_cons_of_mem _ hd) x (hsub hx)

theorem accepts_nil_iff : Accepts [] text ↔ text = [] := by
  constructor
  · intro h
    cases h
    rfl
  · rintro rfl
    exact .nil

theorem accepts_star_iff :
    Accepts ('*' :: pattern) text ↔
      ∃ skipped line, text = skipped ++ line ∧ Accepts pattern line := by
  constructor
  · intro h
    cases h with
    | star skipped h => exact ⟨skipped, _, rfl, h⟩
    | lit hstar => exact absurd rfl hstar
  · rintro ⟨skipped, line, rfl, h⟩
    exact .star skipped h

theorem accepts_any_iff :
    Accepts ('?' :: pattern) text ↔ ∃ x line, text = x :: line ∧ Accepts pattern line := by
  constructor
  · intro h
    cases h with
    | any x h => exact ⟨x, _, rfl, h⟩
    | lit _ hany => exact absurd rfl hany
  · rintro ⟨x, line, rfl, h⟩
    exact .any x h

theorem accepts_lit_iff (hstar : c ≠ '*') (hany : c ≠ '?') :
    Accepts (c :: pattern) text ↔
      ∃ x line, text = x :: line ∧ c.toLower = x.toLower ∧ Accepts pattern line := by
  constructor
  · intro h
    cases h with
    | star => exact absurd rfl hstar
    | any => exact absurd rfl hany
    | lit _ _ hsame h => exact ⟨_, _, rfl, hsame, h⟩
  · rintro ⟨x, line, rfl, hsame, h⟩
    exact .lit hstar hany hsame h

theorem tokensOf_star : tokensOf ('*' :: pattern) = .star :: tokensOf pattern := rfl

theorem tokensOf_any : tokensOf ('?' :: pattern) = .any :: tokensOf pattern := rfl

theorem tokensOf_lit (hstar : c ≠ '*') (hany : c ≠ '?') :
    tokensOf (c :: pattern) = .lit c :: tokensOf pattern := by
  simp [tokensOf, hstar, hany]

theorem pattern_induction {P : List Char → Prop} (nil : P [])
    (star : ∀ pattern, P pattern → P ('*' :: pattern))
    (any : ∀ pattern, P pattern → P ('?' :: pattern))
    (lit : ∀ c pattern, c ≠ '*' → c ≠ '?' → P pattern → P (c :: pattern)) :
    ∀ pattern, P pattern := by
  intro pattern
  induction pattern with
  | nil => exact nil
  | cons c pattern ih =>
    by_cases hstar : c = '*'
    · exact hstar ▸ star pattern ih
    · by_cases hany : c = '?'
      · exact hany ▸ any pattern ih
      · exact lit c pattern hstar hany ih

theorem mem_lineTails :
    line ∈ lineTails text ↔ ∃ skipped, text = skipped ++ line ∧ '\n' ∉ skipped := by
  induction text with
  | nil => simp [lineTails]
  | cons x text ih =>
    rw [lineTails, List.mem_cons]
    constructor
    · rintro (rfl | h)
      · exact ⟨[], rfl, List.not_mem_nil⟩
      · split at h
        · cases h
        · rename_i hx
          obtain ⟨skipped, rfl, hfeed⟩ := ih.mp h
          exact ⟨x :: skipped, rfl, by simp [Ne.symm hx, hfeed]⟩
    · rintro ⟨skipped, heq, hfeed⟩
      cases skipped with
      | nil => exact Or.inl heq.symm
      | cons y skipped =>
        obtain ⟨rfl, rfl⟩ := List.cons.inj heq
        rw [List.mem_cons, not_or] at hfeed
        rw [if_neg (Ne.symm hfeed.1)]
        exact Or.inr (ih.mpr ⟨skipped, rfl, hfeed.2⟩)

theorem feed_congr (h : c.toLower = x.toLower) :
    (if c = '\n' then 1 else 0) = if x = '\n' then 1 else 0 := by
  have hfeed : c = '\n' ↔ x = '\n' := by
    rw [← toLower_eq_feed_iff, h, toLower_eq_feed_iff]
  simp [hfeed]

theorem feeds_cons : feeds (x :: text) = feeds text + if x = '\n' then 1 else 0 := by
  simp [feeds, List.count_cons]

theorem feeds_le (h : Accepts pattern text) : feeds pattern ≤ feeds text := by
  induction h with
  | nil => exact Nat.le_refl _
  | star skipped _ ih => simp [feeds] at *; omega
  | any x _ ih => simp [feeds, List.count_cons] at *; omega
  | lit _ _ hsame _ ih =>
    rw [feeds_cons, feeds_cons, feed_congr hsame]
    omega

theorem feeds_append : feeds (text ++ line) = feeds text + feeds line := List.count_append ..

theorem feeds_eq_zero_iff : feeds text = 0 ↔ '\n' ∉ text := List.count_eq_zero

theorem matchLine_star : matchLine v (.star :: tokens) text = true ↔
    ∃ skipped rest, text = skipped ++ rest ∧ '\n' ∉ skipped ∧ matchLine v tokens rest = true := by
  rw [matchLine, List.any_eq_true]
  constructor
  · rintro ⟨rest, hrest, hmatch⟩
    obtain ⟨skipped, heq, hfeed⟩ := mem_lineTails.mp hrest
    exact ⟨skipped, rest, heq, hfeed, hmatch⟩
  · rintro ⟨skipped, rest, heq, hfeed, hmatch⟩
    exact ⟨rest, mem_lineTails.mpr ⟨skipped, heq, hfeed⟩, hmatch⟩

theorem matchLine_any : matchLine v (.any :: tokens) text = true ↔
    ∃ x rest, text = x :: rest ∧ x ≠ '\n' ∧ matchLine v tokens rest = true := by
  cases text with
  | nil => simp [matchLine]
  | cons x text => simp [matchLine, Glob.Token.accepts]

theorem matchLine_lit : matchLine v (.lit c :: tokens) text = true ↔
    ∃ x rest, text = x :: rest ∧ c ∈ v x ∧ matchLine v tokens rest = true := by
  cases text with
  | nil => simp [matchLine]
  | cons x text => simp [matchLine, Glob.Token.accepts]

def Ends (text line : List Char) : Prop := text = line ∨ text = line ++ ['\n']

theorem Ends.cons (h : Ends text line) : Ends (x :: text) (x :: line) := by
  rcases h with rfl | rfl
  · exact Or.inl rfl
  · exact Or.inr rfl

theorem ends_cons (h : Ends text (x :: line)) : ∃ rest, text = x :: rest ∧ Ends rest line := by
  rcases h with rfl | rfl
  · exact ⟨line, rfl, Or.inl rfl⟩
  · exact ⟨line ++ ['\n'], rfl, Or.inr rfl⟩

theorem Ends.append {skipped : List Char} (h : Ends text line) :
    Ends (skipped ++ text) (skipped ++ line) := by
  induction skipped with
  | nil => exact h
  | cons x skipped ih => exact ih.cons

theorem ends_append {skipped : List Char} (h : Ends text (skipped ++ line)) :
    ∃ rest, text = skipped ++ rest ∧ Ends rest line := by
  induction skipped generalizing text with
  | nil => exact ⟨text, rfl, h⟩
  | cons x skipped ih =>
    obtain ⟨tail, rfl, htail⟩ := ends_cons h
    obtain ⟨rest, rfl, hrest⟩ := ih htail
    exact ⟨rest, rfl, hrest⟩

theorem matchLine_iff (h : Folds v pattern text) :
    matchLine v (tokensOf pattern) text = true ↔
      ∃ line, Ends text line ∧ Accepts pattern line ∧ feeds line = feeds pattern := by
  induction pattern using pattern_induction generalizing text with
  | nil =>
    simp only [accepts_nil_iff]
    simp [matchLine, tokensOf, Ends, feeds]
  | star pattern ih =>
    rw [tokensOf_star, matchLine_star]
    constructor
    · rintro ⟨skipped, rest, rfl, hfeed, hmatch⟩
      obtain ⟨line, hends, haccepts, hfeeds⟩ :=
        (ih (h.tail (List.subset_append_right ..))).mp hmatch
      refine ⟨skipped ++ line, hends.append, .star skipped haccepts, ?_⟩
      rw [feeds_append, feeds_eq_zero_iff.mpr hfeed, hfeeds]
      simp [feeds]
    · rintro ⟨line, hends, haccepts, hfeeds⟩
      obtain ⟨skipped, rest, rfl, hrest⟩ := accepts_star_iff.mp haccepts
      -- the line feeds of the pattern are all in the rest
      have hle : feeds pattern ≤ feeds rest := feeds_le hrest
      have hstar : feeds ('*' :: pattern) = feeds pattern := by simp [feeds]
      rw [feeds_append, hstar] at hfeeds
      have hfeed : '\n' ∉ skipped := feeds_eq_zero_iff.mp (by omega)
      obtain ⟨tail, rfl, htail⟩ := ends_append hends
      exact ⟨skipped, tail, rfl, hfeed, (ih (h.tail (List.subset_append_right ..))).mpr
        ⟨rest, htail, hrest, by omega⟩⟩
  | any pattern ih =>
    have hany : feeds ('?' :: pattern) = feeds pattern := by simp [feeds]
    rw [tokensOf_any, matchLine_any, hany]
    constructor
    · rintro ⟨x, rest, rfl, hx, hmatch⟩
      obtain ⟨line, hends, haccepts, hfeeds⟩ := (ih (h.tail (List.subset_cons_self ..))).mp hmatch
      refine ⟨x :: line, hends.cons, .any x haccepts, ?_⟩
      rw [feeds_cons, if_neg hx, hfeeds]
      rfl
    · rintro ⟨line, hends, haccepts, hfeeds⟩
      obtain ⟨x, line, rfl, hline⟩ := accepts_any_iff.mp haccepts
      obtain ⟨rest, rfl, hrest⟩ := ends_cons hends
      have hle : feeds pattern ≤ feeds line := feeds_le hline
      rw [feeds_cons] at hfeeds
      have hx : x ≠ '\n' := fun hx => by rw [if_pos hx] at hfeeds; omega
      rw [if_neg hx] at hfeeds
      exact ⟨x, rest, rfl, hx, (ih (h.tail (List.subset_cons_self ..))).mpr
        ⟨line, hrest, hline, hfeeds⟩⟩
  | lit c pattern hstar hany ih =>
    rw [tokensOf_lit hstar hany, matchLine_lit]
    constructor
    · rintro ⟨x, rest, rfl, hmem, hmatch⟩
      have hsame : c.toLower = x.toLower := (h c List.mem_cons_self x List.mem_cons_self).mp hmem
      obtain ⟨line, hends, haccepts, hfeeds⟩ := (ih (h.tail (List.subset_cons_self ..))).mp hmatch
      refine ⟨x :: line, hends.cons, .lit hstar hany hsame haccepts, ?_⟩
      rw [feeds_cons, feeds_cons, hfeeds, feed_congr hsame]
    · rintro ⟨line, hends, haccepts, hfeeds⟩
      obtain ⟨x, line, rfl, hsame, hline⟩ := (accepts_lit_iff hstar hany).mp haccepts
      obtain ⟨rest, rfl, hrest⟩ := ends_cons hends
      rw [feeds_cons, feeds_cons, feed_congr hsame] at hfeeds
      exact ⟨x, rest, rfl, (h c List.mem_cons_self x List.mem_cons_self).mpr hsame,
        (ih (h.tail (List.subset_cons_self ..))).mpr ⟨line, hrest, hline, by omega⟩⟩

theorem accepts_exact (hstar : '*' ∉ pattern) (hany : '?' ∉ pattern) :
    Accepts pattern text ↔ pattern.map Char.toLower = text.map Char.toLower := by
  induction pattern generalizing text with
  | nil => simp [accepts_nil_iff, eq_comm]
  | cons c pattern ih =>
    rw [List.mem_cons, not_or] at hstar hany
    rw [accepts_lit_iff (Ne.symm hstar.1) (Ne.symm hany.1)]
    cases text with
    | nil => simp
    | cons x text =>
      have hrest := @ih text hstar.2 hany.2
      simp [hrest]

end Globs

section Matching

variable {t : CaseText} {pattern text : String}

theorem isAscii_of_all {s : String} (h : (s.toList.all fun c => c.toNat < 128) = true) :
    IsAscii s :=
  fun c hc => of_decide_eq_true (List.all_eq_true.mp h c hc)

theorem folds_of_ascii (ht : AsciiText t) (hpattern : IsAscii pattern) (htext : IsAscii text) :
    Folds t.variants pattern.toList text.toList :=
  fun c hc x hx => ht.variants c x (hpattern c hc) (htext x hx)

theorem matchesPattern_of_exact (ht : AsciiText t) (hpattern : IsAscii pattern)
    (htext : IsAscii text) (hexact : isExact pattern = true) :
    matchesPattern t pattern text = true ↔ Accepts pattern.toList text.toList := by
  obtain ⟨hstar, hany⟩ : '*' ∉ pattern.toList ∧ '?' ∉ pattern.toList := by
    simpa [isExact] using hexact
  rw [matchesPattern, if_pos hexact, beq_iff_eq, ← String.toList_inj, ht.lower pattern hpattern,
    ht.lower text htext, accepts_exact hstar hany]

theorem matchesPattern_of_wildcard (ht : AsciiText t) (hpattern : IsAscii pattern)
    (htext : IsAscii text) (hexact : ¬isExact pattern = true) :
    matchesPattern t pattern text = true ↔ ∃ line, Ends text.toList line ∧
      Accepts pattern.toList line ∧ feeds line = feeds pattern.toList := by
  rw [matchesPattern, if_neg hexact]
  exact matchLine_iff (folds_of_ascii ht hpattern htext)

theorem matchesPattern_iff_feedsFit (ht : AsciiText t) (hpattern : IsAscii pattern)
    (htext : IsAscii text) :
    (matchesPattern t pattern text = true ↔ Accepts pattern.toList text.toList) ↔
      FeedsFit pattern text := by
  unfold FeedsFit
  by_cases hexact : isExact pattern = true
  · exact iff_of_true (matchesPattern_of_exact ht hpattern htext hexact) (Or.inl hexact)
  · rw [matchesPattern_of_wildcard ht hpattern htext hexact]
    by_cases hfeeds : feeds text.toList = feeds pattern.toList
    · refine iff_of_true ?_ (Or.inr (Or.inl hfeeds))
      constructor
      · rintro ⟨line, hends, haccepts, hline⟩
        rcases hends with heq | heq
        · exact heq ▸ haccepts
        · rw [heq, feeds_append, hline] at hfeeds
          simp [feeds] at hfeeds
      · intro haccepts
        exact ⟨_, Or.inl rfl, haccepts, hfeeds⟩
    · have hends : (∃ line, Ends text.toList line ∧ Accepts pattern.toList line ∧
          feeds line = feeds pattern.toList) ↔ ∃ line, text.toList = line ++ ['\n'] ∧
            feeds line = feeds pattern.toList ∧ Accepts pattern.toList line := by
        refine exists_congr fun line => ⟨?_, ?_⟩
        · rintro ⟨heq | heq, haccepts, hline⟩
          · exact absurd (heq ▸ hline) hfeeds
          · exact ⟨heq, hline, haccepts⟩
        · rintro ⟨heq, hline, haccepts⟩
          exact ⟨Or.inr heq, haccepts, hline⟩
      rw [hends]
      constructor
      · exact fun h => Or.inr (Or.inr h.symm)
      · rintro (h | h | h)
        · exact absurd h hexact
        · exact absurd h hfeeds
        · exact h.symm

theorem markerMatched_eq {F : Type} {marker : FingerprintMarker F} {installed : List String} :
    markerMatched t installed marker = installed.any (matchesPattern t marker.pattern) := by
  unfold markerMatched
  split
  · rename_i hexact
    unfold matchesPattern
    simp only [if_pos hexact]
    induction installed with
    | nil => rfl
    | cons name installed ih =>
      rw [List.map_cons, List.contains_cons, ih, List.any_cons]
  · rfl

/-- `matches_pattern` is glob matching exactly where the line feeds fit, and a marker is found
if and only if it accepts an installed name. -/
theorem marker_matching_iff (t : CaseText) (ht : AsciiText t) {F : Type}
    (marker : FingerprintMarker F) (text : String) (installed : List String)
    (hpattern : IsAscii marker.pattern) (htext : IsAscii text) :
    ((matchesPattern t marker.pattern text = true ↔
        Accepts marker.pattern.toList text.toList) ↔ FeedsFit marker.pattern text) ∧
      markerMatched t installed marker = installed.any (matchesPattern t marker.pattern) :=
  ⟨matchesPattern_iff_feedsFit ht hpattern htext, markerMatched_eq⟩

/-- The star takes a line feed of the name, which the dot does not. -/
theorem star_is_cut_at_feed :
    ¬(matchesPattern Enforcement.asciiCase "7-zip*" "7-zip\n22" = true ↔
      Accepts "7-zip*".toList "7-zip\n22".toList) := by
  intro h
  have haccepts : Accepts "7-zip*".toList "7-zip\n22".toList := by
    have hrest : Accepts ['*'] "\n22".toList := .star "\n22".toList .nil
    iterate 5 refine .lit (by decide) (by decide) rfl ?_
    exact hrest
  exact absurd (h.mpr haccepts) (by decide +kernel)

theorem marker_with_version :
    let marker : FingerprintMarker Nat := ⟨"7-zip*", "7-Zip", 1⟩
    ((matchesPattern Enforcement.asciiCase marker.pattern "7-Zip 22" = true ↔
        Accepts marker.pattern.toList "7-Zip 22".toList) ↔ FeedsFit marker.pattern "7-Zip 22") ∧
      markerMatched Enforcement.asciiCase ["7-Zip 22"] marker = true := by
  intro marker
  have h := marker_matching_iff Enforcement.asciiCase asciiText_asciiCase marker "7-Zip 22"
    ["7-Zip 22"] (isAscii_of_all (by decide +kernel)) (isAscii_of_all (by decide +kernel))
  exact ⟨h.1, h.2.trans (by decide +kernel)⟩

end Matching

end Sentora.Classification
