import Sentora.Classification.Patterns
import Sentora.Compliance.Balance

/-!
# Required and disallowed apps

Which agents `custom_app_presence` flags, against those with an app that `matches_pattern` accepts.

The check looks for the pattern anywhere in a name, and its question mark is a question mark.
-/

namespace Sentora.Compliance

open Lib

/-- A star stands for a part of a line, and any other character for itself, in either case. -/
inductive Spells (py : Python) : List Char → List Char → Prop where
  | nil : Spells py [] []
  | star {pattern piece : List Char} (skipped : List Char) (hline : '\n' ∉ skipped)
    (h : Spells py pattern piece) : Spells py ('*' :: pattern) (skipped ++ piece)
  | lit {pattern piece : List Char} {c x : Char} (hstar : c ≠ '*') (hsame : x ∈ py.variants c)
    (h : Spells py pattern piece) : Spells py (c :: pattern) (x :: piece)

def Contains (py : Python) (pattern name : String) : Prop :=
  ∃ before piece rest, name.toList = before ++ piece ++ rest ∧ Spells py pattern.toList piece

section Search

variable {py : Python} {pattern piece text line : List Char} {c : Char}

theorem spells_nil_iff : Spells py [] piece ↔ piece = [] := by
  constructor
  · intro h
    cases h
    rfl
  · rintro rfl
    exact .nil

theorem spells_star_iff : Spells py ('*' :: pattern) piece ↔
    ∃ skipped line, piece = skipped ++ line ∧ '\n' ∉ skipped ∧ Spells py pattern line := by
  constructor
  · intro h
    cases h with
    | star skipped hline h => exact ⟨skipped, _, rfl, hline, h⟩
    | lit hstar => exact absurd rfl hstar
  · rintro ⟨skipped, line, rfl, hline, h⟩
    exact .star skipped hline h

theorem spells_lit_iff (hstar : c ≠ '*') : Spells py (c :: pattern) piece ↔
    ∃ x line, piece = x :: line ∧ x ∈ py.variants c ∧ Spells py pattern line := by
  constructor
  · intro h
    cases h with
    | star => exact absurd rfl hstar
    | lit _ hsame h => exact ⟨_, _, rfl, hsame, h⟩
  · rintro ⟨x, line, rfl, hsame, h⟩
    exact .lit hstar hsame h

theorem lineSuffixes_eq : lineSuffixes text = Classification.lineTails text := by
  induction text with
  | nil => rfl
  | cons x text ih => rw [lineSuffixes, Classification.lineTails, ih]

theorem matchesHere_iff :
    matchesHere py (pattern.map fun c => if c = '*' then none else some c) text = true ↔
      ∃ piece rest, text = piece ++ rest ∧ Spells py pattern piece := by
  induction pattern generalizing text with
  | nil =>
    simp only [spells_nil_iff]
    simp [matchesHere]
  | cons c pattern ih =>
    by_cases hstar : c = '*'
    · rw [hstar, List.map_cons, if_pos rfl, matchesHere, List.any_eq_true, lineSuffixes_eq]
      constructor
      · rintro ⟨tail, htail, hmatch⟩
        obtain ⟨skipped, rfl, hline⟩ := Classification.mem_lineTails.mp htail
        obtain ⟨piece, rest, rfl, hspells⟩ := ih.mp hmatch
        exact ⟨skipped ++ piece, rest, (List.append_assoc ..).symm, .star skipped hline hspells⟩
      · rintro ⟨piece, rest, rfl, hspells⟩
        obtain ⟨skipped, line, rfl, hline, hspells⟩ := spells_star_iff.mp hspells
        refine ⟨line ++ rest, ?_, ih.mpr ⟨line, rest, rfl, hspells⟩⟩
        exact Classification.mem_lineTails.mpr ⟨skipped, List.append_assoc .., hline⟩
    · rw [List.map_cons, if_neg hstar]
      simp only [spells_lit_iff hstar]
      cases text with
      | nil => simp [matchesHere]
      | cons x text =>
        rw [matchesHere, Bool.and_eq_true, List.contains_iff_mem, ih]
        constructor
        · rintro ⟨hsame, piece, rest, rfl, hspells⟩
          exact ⟨x :: piece, rest, rfl, x, piece, rfl, hsame, hspells⟩
        · rintro ⟨piece, rest, heq, y, line, rfl, hsame, hspells⟩
          obtain ⟨rfl, rfl⟩ := List.cons.inj heq
          exact ⟨hsame, line, rest, rfl, hspells⟩

theorem search_iff {pattern name : String} :
    search py (starred pattern) name = true ↔ Contains py pattern name := by
  unfold search starred Contains
  rw [List.any_eq_true]
  constructor
  · rintro ⟨tail, htail, hmatch⟩
    obtain ⟨before, hbefore⟩ := (List.mem_tails _ _).mp htail
    obtain ⟨piece, rest, rfl, hspells⟩ := matchesHere_iff.mp hmatch
    exact ⟨before, piece, rest, by rw [← hbefore, List.append_assoc], hspells⟩
  · rintro ⟨before, piece, rest, hname, hspells⟩
    refine ⟨piece ++ rest, (List.mem_tails _ _).mpr ⟨before, ?_⟩,
      matchesHere_iff.mpr ⟨piece, rest, rfl, hspells⟩⟩
    rw [hname, List.append_assoc]

end Search

/-- The agent has an app that `matches_pattern` accepts. -/
def hasMatch (t : Taxonomy.CaseText) (pattern : String) (agent : AgentDoc) : Bool :=
  (installed agent).any (Classification.matchesPattern t pattern)

def mustExist (parameters : JsonDict) : Bool :=
  truthy (parameters.getD "must_exist" (.bool true))

def foundOn (py : Python) (parameters : JsonDict) (pattern : String) (agent : AgentDoc) :
    List ComplianceViolation :=
  if pattern = "" then [] else presenceOn py pattern (mustExist parameters) agent

/-- `custom_app_presence` returns, and finds the agents in scope for which it is not as it must be
whether an app is accepted. -/
def FlagsByGlob (py : Python) (t : Taxonomy.CaseText) (now : Int) (db : Database)
    (parameters : JsonDict) (scope : ScopeFilter) (pattern : String) : Prop :=
  ∃ o, customAppPresence py now db parameters scope = .ok o ∧
    Cut ((agentsIn db scope).flatMap (foundOn py parameters pattern)) o ∧
    ∀ agent ∈ agentsIn db scope, foundOn py parameters pattern agent ≠ [] ↔
      mustExist parameters ≠ hasMatch t pattern agent

/-- A name of the agent contains the pattern, and none is accepted. -/
def TooWide (py : Python) (t : Taxonomy.CaseText) (pattern : String) (agent : AgentDoc) : Prop :=
  (∃ name ∈ installed agent, Contains py pattern name) ∧
    ∀ name ∈ installed agent, Classification.matchesPattern t pattern name = false

/-- A name of the agent is accepted, and none contains the pattern. -/
def TooNarrow (py : Python) (t : Taxonomy.CaseText) (pattern : String) (agent : AgentDoc) : Prop :=
  (∃ name ∈ installed agent, Classification.matchesPattern t pattern name = true) ∧
    ∀ name ∈ installed agent, ¬Contains py pattern name

section Presence

variable {py : Python} {t : Taxonomy.CaseText} {now : Int} {db : Database} {parameters : JsonDict}
  {scope : ScopeFilter} {pattern : String} {agent : AgentDoc}

theorem customAppPresence_cut (hpattern : parameters.getD "app_pattern" (.str "") = .str pattern) :
    ∃ o, customAppPresence py now db parameters scope = .ok o ∧
      Cut ((agentsIn db scope).flatMap (foundOn py parameters pattern)) o := by
  have htext : patternText (parameters.getD "app_pattern" (.str "")) = .ok pattern := by
    rw [hpattern]
    rfl
  by_cases hgiven : pattern = ""
  · have hfalse : truthy (parameters.getD "app_pattern" (.str "")) = false := by
      rw [hpattern, hgiven]
      rfl
    obtain ⟨o, ho, h⟩ := @notApplicable_of_inapplicable .customAppPresence py now db parameters
      scope (fun _ => ⟨pattern, htext⟩) (.inr ⟨rfl, hfalse⟩)
    have hnothing : (agentsIn db scope).flatMap (foundOn py parameters pattern) = [] :=
      List.flatMap_eq_nil_iff.mpr fun _ _ => if_pos hgiven
    rw [hnothing]
    exact ⟨o, ho, h.cut⟩
  · refine @exists_result .customAppPresence py now db parameters scope _
      (fun _ => ⟨pattern, htext⟩) (fun hnone o h => ?_) fun hsome => ?_
    · rw [hnone]
      exact h.cut
    · have htrue : truthy (parameters.getD "app_pattern" (.str "")) = true := by
        rw [hpattern]
        exact decide_eq_true hgiven
      obtain ⟨o, ho, hcut, -⟩ :=
        @customAppPresence_counts py now db parameters scope pattern htrue htext hsome
      have hfound : foundOn py parameters pattern =
          presenceOn py pattern (mustExist parameters) := funext fun _ => if_neg hgiven
      rw [hfound]
      exact ⟨o, ho, hcut⟩

theorem presence_agrees_iff :
    (presenceOn py pattern (mustExist parameters) agent ≠ [] ↔
        mustExist parameters ≠ hasMatch t pattern agent) ↔
      ¬TooWide py t pattern agent ∧ ¬TooNarrow py t pattern agent := by
  have hsearch : (installed agent).any (search py (starred pattern)) = true ↔
      ∃ name ∈ installed agent, Contains py pattern name := by
    simp only [List.any_eq_true, search_iff]
  have hmatch : hasMatch t pattern agent = true ↔
      ∃ name ∈ installed agent, Classification.matchesPattern t pattern name = true :=
    List.any_eq_true
  have hwide : TooWide py t pattern agent ↔
      (installed agent).any (search py (starred pattern)) = true ∧
        ¬hasMatch t pattern agent = true := by
    rw [hsearch, hmatch]
    simp [TooWide]
  have hnarrow : TooNarrow py t pattern agent ↔ hasMatch t pattern agent = true ∧
      ¬(installed agent).any (search py (starred pattern)) = true := by
    rw [hsearch, hmatch]
    simp [TooNarrow]
  rw [presenceOn_ne_nil_iff, breaksPresence, bne_iff_ne, hwide, hnarrow]
  cases mustExist parameters <;> cases hasMatch t pattern agent <;>
    cases (installed agent).any (search py (starred pattern)) <;> simp

end Presence

/-- `re.IGNORECASE` on ASCII. -/
def FoldsAscii (py : Python) : Prop :=
  ∀ c x : Char, c.toNat < 128 → x.toNat < 128 → (x ∈ py.variants c ↔ c.toLower = x.toLower)

section Ascii

open Classification

variable {py : Python} {t : Taxonomy.CaseText} {pattern text piece rest : List Char}

/-- The characters stand for those with the same lower case. -/
def FoldsOn (py : Python) (pattern piece : List Char) : Prop :=
  ∀ c ∈ pattern, ∀ x ∈ piece, x ∈ py.variants c ↔ c.toLower = x.toLower

theorem FoldsOn.tail {c : Char} (h : FoldsOn py (c :: pattern) piece) (hsub : text ⊆ piece) :
    FoldsOn py pattern text :=
  fun d hd x hx => h d (List.mem_cons_of_mem _ hd) x (hsub hx)

theorem spells_iff_accepts (hany : '?' ∉ pattern) (hfolds : FoldsOn py pattern piece) :
    Spells py pattern piece ↔ Accepts pattern piece ∧ feeds piece = feeds pattern := by
  induction pattern using pattern_induction generalizing piece with
  | nil =>
    rw [spells_nil_iff, accepts_nil_iff]
    constructor
    · rintro rfl
      exact ⟨rfl, rfl⟩
    · exact And.left
  | star pattern ih =>
    have hrest : '?' ∉ pattern := fun h => hany (List.mem_cons_of_mem _ h)
    have hstar : feeds ('*' :: pattern) = feeds pattern := by simp [feeds]
    rw [spells_star_iff, accepts_star_iff, hstar]
    constructor
    · rintro ⟨skipped, line, rfl, hline, hspells⟩
      obtain ⟨haccepts, hfeeds⟩ :=
        (ih hrest (hfolds.tail (List.subset_append_right ..))).mp hspells
      refine ⟨⟨skipped, line, rfl, haccepts⟩, ?_⟩
      rw [feeds_append, feeds_eq_zero_iff.mpr hline, hfeeds, Nat.zero_add]
    · rintro ⟨⟨skipped, line, rfl, haccepts⟩, hfeeds⟩
      have hle : feeds pattern ≤ feeds line := feeds_le haccepts
      rw [feeds_append] at hfeeds
      exact ⟨skipped, line, rfl, feeds_eq_zero_iff.mp (by omega),
        (ih hrest (hfolds.tail (List.subset_append_right ..))).mpr ⟨haccepts, by omega⟩⟩
  | any pattern ih => exact absurd List.mem_cons_self hany
  | lit c pattern hstar hother ih =>
    have hrest : '?' ∉ pattern := fun h => hany (List.mem_cons_of_mem _ h)
    rw [spells_lit_iff hstar, accepts_lit_iff hstar hother]
    constructor
    · rintro ⟨x, line, rfl, hmem, hspells⟩
      have hsame := (hfolds c List.mem_cons_self x List.mem_cons_self).mp hmem
      obtain ⟨haccepts, hfeeds⟩ := (ih hrest (hfolds.tail (List.subset_cons_self ..))).mp hspells
      refine ⟨⟨x, line, rfl, hsame, haccepts⟩, ?_⟩
      rw [feeds_cons, feeds_cons, hfeeds, feed_congr hsame]
    · rintro ⟨⟨x, line, rfl, hsame, haccepts⟩, hfeeds⟩
      rw [feeds_cons, feeds_cons, feed_congr hsame] at hfeeds
      exact ⟨x, line, rfl, (hfolds c List.mem_cons_self x List.mem_cons_self).mpr hsame,
        (ih hrest (hfolds.tail (List.subset_cons_self ..))).mpr ⟨haccepts, by omega⟩⟩

theorem feeds_eq_of_exact (hstar : '*' ∉ pattern) (hany : '?' ∉ pattern)
    (h : Accepts pattern text) : feeds text = feeds pattern := by
  induction h with
  | nil => rfl
  | star => exact absurd List.mem_cons_self hstar
  | any => exact absurd List.mem_cons_self hany
  | lit _ _ hsame _ ih =>
    rw [List.mem_cons, not_or] at hstar hany
    rw [feeds_cons, feeds_cons, ih hstar.2 hany.2, feed_congr hsame]

theorem accepts_append (h : Accepts (pattern ++ ['*']) text) :
    Accepts (pattern ++ ['*']) (text ++ rest) := by
  induction pattern using pattern_induction generalizing text with
  | nil =>
    obtain ⟨skipped, line, rfl, hline⟩ := accepts_star_iff.mp h
    rw [accepts_nil_iff.mp hline, List.append_nil]
    exact accepts_star_iff.mpr ⟨skipped ++ rest, [], (List.append_nil _).symm, .nil⟩
  | star pattern ih =>
    obtain ⟨skipped, line, rfl, hline⟩ := accepts_star_iff.mp h
    exact accepts_star_iff.mpr ⟨skipped, line ++ rest, List.append_assoc .., ih hline⟩
  | any pattern ih =>
    obtain ⟨x, line, rfl, hline⟩ := accepts_any_iff.mp h
    exact .any x (ih hline)
  | lit c pattern hstar hany ih =>
    obtain ⟨x, line, rfl, hsame, hline⟩ := (accepts_lit_iff hstar hany).mp h
    exact .lit hstar hany hsame (ih hline)

section Names

variable {pattern name : String} {agent : AgentDoc}

theorem foldsOn_of_ascii (hpy : FoldsAscii py) (hpattern : IsAscii pattern) (hname : IsAscii name)
    (hsub : piece ⊆ name.toList) : FoldsOn py pattern.toList piece :=
  fun c hc x hx => hpy c x (hpattern c hc) (hname x (hsub hx))

theorem accepts_of_matchesPattern (ht : AsciiText t) (hpattern : IsAscii pattern)
    (hname : IsAscii name) (h : matchesPattern t pattern name = true) :
    ∃ line, Ends name.toList line ∧ Accepts pattern.toList line ∧
      feeds line = feeds pattern.toList := by
  by_cases hexact : isExact pattern = true
  · obtain ⟨hstar, hany⟩ : '*' ∉ pattern.toList ∧ '?' ∉ pattern.toList := by
      simpa [isExact] using hexact
    have haccepts := (matchesPattern_of_exact ht hpattern hname hexact).mp h
    exact ⟨name.toList, .inl rfl, haccepts, feeds_eq_of_exact hstar hany haccepts⟩
  · exact (matchesPattern_of_wildcard ht hpattern hname hexact).mp h

theorem matchesPattern_of_accepts (ht : AsciiText t) (hpattern : IsAscii pattern)
    (hname : IsAscii name) (haccepts : Accepts pattern.toList name.toList)
    (hfeeds : feeds name.toList = feeds pattern.toList) : matchesPattern t pattern name = true := by
  by_cases hexact : isExact pattern = true
  · exact (matchesPattern_of_exact ht hpattern hname hexact).mpr haccepts
  · exact (matchesPattern_of_wildcard ht hpattern hname hexact).mpr
      ⟨name.toList, .inl rfl, haccepts, hfeeds⟩

theorem not_tooNarrow (hpy : FoldsAscii py) (ht : AsciiText t) (hpattern : IsAscii pattern)
    (hnames : ∀ name ∈ installed agent, IsAscii name) (hany : '?' ∉ pattern.toList) :
    ¬TooNarrow py t pattern agent := by
  rintro ⟨⟨name, hname, hmatch⟩, hnone⟩
  obtain ⟨line, hends, haccepts⟩ :=
    accepts_of_matchesPattern ht hpattern (hnames name hname) hmatch
  obtain ⟨rest, hrest⟩ : ∃ rest, name.toList = line ++ rest := by
    rcases hends with heq | heq
    · exact ⟨[], by rw [heq, List.append_nil]⟩
    · exact ⟨['\n'], heq⟩
  have hsub : line ⊆ name.toList := hrest ▸ List.subset_append_left ..
  refine hnone name hname ⟨[], line, rest, hrest, ?_⟩
  exact (spells_iff_accepts hany (foldsOn_of_ascii hpy hpattern (hnames name hname) hsub)).mpr
    haccepts

theorem TooWide.part (hpy : FoldsAscii py) (ht : AsciiText t) (hpattern : IsAscii pattern)
    (hnames : ∀ name ∈ installed agent, IsAscii name) (hany : '?' ∉ pattern.toList)
    (h : TooWide py t pattern agent) :
    ∃ name ∈ installed agent, ∃ before piece rest, name.toList = before ++ piece ++ rest ∧
      Accepts pattern.toList piece ∧ (before ≠ [] ∨ rest ≠ []) := by
  obtain ⟨⟨name, hname, before, piece, rest, heq, hspells⟩, hnone⟩ := h
  have hsub : piece ⊆ name.toList := by
    rw [heq, List.append_assoc]
    exact fun x hx => List.mem_append_right _ (List.mem_append_left _ hx)
  obtain ⟨haccepts, hfeeds⟩ := (spells_iff_accepts hany
    (foldsOn_of_ascii hpy hpattern (hnames name hname) hsub)).mp hspells
  refine ⟨name, hname, before, piece, rest, heq, haccepts, ?_⟩
  by_contra hwhole
  simp only [ne_eq, not_or, not_not] at hwhole
  rw [hwhole.1, hwhole.2, List.nil_append, List.append_nil] at heq
  rw [← heq] at haccepts hfeeds
  have hmatch := matchesPattern_of_accepts ht hpattern (hnames name hname) haccepts hfeeds
  rw [hnone name hname] at hmatch
  cases hmatch

theorem not_tooWide (hpy : FoldsAscii py) (ht : AsciiText t) (hpattern : IsAscii pattern)
    (hnames : ∀ name ∈ installed agent, IsAscii name ∧ '\n' ∉ name.toList)
    (hany : '?' ∉ pattern.toList) (hfirst : pattern.toList.head? = some '*')
    (hlast : pattern.toList.getLast? = some '*') : ¬TooWide py t pattern agent := by
  intro h
  obtain ⟨name, hname, before, piece, rest, heq, haccepts, -⟩ :=
    h.part hpy ht hpattern (fun name hname => (hnames name hname).1) hany
  obtain ⟨hascii, hline⟩ := hnames name hname
  have hwhole : Accepts pattern.toList name.toList := by
    obtain ⟨front, hfront⟩ := List.getLast?_eq_some_iff.mp hlast
    rw [hfront] at haccepts
    have hrest : Accepts (front ++ ['*']) (piece ++ rest) := accepts_append haccepts
    rw [← hfront] at hrest
    obtain ⟨tail, htail⟩ := List.head?_eq_some_iff.mp hfirst
    rw [htail] at hrest ⊢
    obtain ⟨skipped, line, hline, hrest⟩ := accepts_star_iff.mp hrest
    rw [heq, List.append_assoc, hline, ← List.append_assoc]
    exact .star (before ++ skipped) hrest
  have hzero : feeds name.toList = 0 := feeds_eq_zero_iff.mpr hline
  have hle : feeds pattern.toList ≤ feeds name.toList := feeds_le hwhole
  have hmatch := matchesPattern_of_accepts ht hpattern hascii hwhole (by omega)
  rw [h.2 name hname] at hmatch
  cases hmatch

def bare (pattern : List Char) : List Char := pattern.filter fun c => c ≠ '*'

theorem spells_bare (hvariants : ∀ c ∈ piece, c ∈ py.variants c) :
    Spells py piece (bare piece) := by
  induction piece with
  | nil => exact .nil
  | cons c piece ih =>
    have hrest := ih fun d hd => hvariants d (List.mem_cons_of_mem _ hd)
    by_cases hstar : c = '*'
    · subst hstar
      simpa [bare] using Spells.star [] List.not_mem_nil hrest
    · simpa [bare, hstar] using Spells.lit hstar (hvariants c List.mem_cons_self) hrest

theorem accepts_concat {c : Char} (hstar : c ≠ '*') (hany : c ≠ '?')
    (h : Accepts (piece ++ [c]) text) : ∃ x, text.getLast? = some x ∧ c.toLower = x.toLower := by
  induction piece using pattern_induction generalizing text with
  | nil =>
    obtain ⟨x, line, rfl, hsame, hline⟩ := (accepts_lit_iff hstar hany).mp h
    rw [accepts_nil_iff.mp hline]
    exact ⟨x, rfl, hsame⟩
  | star piece ih =>
    obtain ⟨skipped, line, rfl, hline⟩ := accepts_star_iff.mp h
    obtain ⟨x, hx, hsame⟩ := ih hline
    exact ⟨x, List.mem_getLast?_append_of_mem_getLast? hx, hsame⟩
  | any piece ih =>
    obtain ⟨y, line, rfl, hline⟩ := accepts_any_iff.mp h
    obtain ⟨x, hx, hsame⟩ := ih hline
    exact ⟨x, List.mem_getLast?_cons hx, hsame⟩
  | lit d piece hdstar hdany ih =>
    obtain ⟨y, line, rfl, -, hline⟩ := (accepts_lit_iff hdstar hdany).mp h
    obtain ⟨x, hx, hsame⟩ := ih hline
    exact ⟨x, List.mem_getLast?_cons hx, hsame⟩

def otherThan (c : Char) : Char := if c.toLower = 'a' then 'b' else 'a'

theorem otherThan_ne (c : Char) : c.toLower ≠ (otherThan c).toLower := by
  unfold otherThan
  split
  · next h =>
    rw [h]
    decide
  · exact fun h => absurd h ‹_›

theorem otherThan_cases (c : Char) : otherThan c = 'a' ∨ otherThan c = 'b' := by
  unfold otherThan
  split
  · exact .inr rfl
  · exact .inl rfl

theorem otherThan_ascii (c : Char) : (otherThan c).toNat < 128 ∧ otherThan c ≠ '\n' := by
  rcases otherThan_cases c with h | h <;> rw [h] <;> decide

/-- What is found in a name, as the pattern stands for a part of it, and is not accepted. -/
theorem exists_around (hpy : FoldsAscii py) (ht : AsciiText t) (hpattern : IsAscii pattern)
    (hline : '\n' ∉ pattern.toList) (before rest : List Char)
    (hadded : ∀ x ∈ before ++ rest, x.toNat < 128 ∧ x ≠ '\n')
    (hnot : ¬Accepts pattern.toList (before ++ bare pattern.toList ++ rest)) :
    ∃ name, IsAscii name ∧ '\n' ∉ name.toList ∧ Contains py pattern name ∧
      matchesPattern t pattern name = false := by
  have hspells : Spells py pattern.toList (bare pattern.toList) :=
    spells_bare fun c hc => (hpy c c (hpattern c hc) (hpattern c hc)).mpr rfl
  have hchar : ∀ x ∈ before ++ bare pattern.toList ++ rest, x.toNat < 128 ∧ x ≠ '\n' := by
    intro x hx
    have hx' : x ∈ before ++ rest ∨ x ∈ bare pattern.toList := by
      simp only [List.mem_append] at hx ⊢
      tauto
    rcases hx' with hx | hx
    · exact hadded x hx
    · have hmem := List.mem_of_mem_filter hx
      exact ⟨hpattern x hmem, fun h => hline (h ▸ hmem)⟩
  obtain ⟨name, hname⟩ : ∃ name : String, name.toList = before ++ bare pattern.toList ++ rest :=
    ⟨String.ofList _, String.toList_ofList⟩
  rw [← hname] at hchar hnot
  have hascii : IsAscii name := fun x hx => (hchar x hx).1
  have hsingle : '\n' ∉ name.toList := fun h => (hchar _ h).2 rfl
  refine ⟨name, hascii, hsingle, ⟨before, _, rest, hname, hspells⟩, ?_⟩
  refine Bool.eq_false_iff.mpr fun h => ?_
  obtain ⟨line, hends, haccepts, -⟩ := accepts_of_matchesPattern ht hpattern hascii h
  rcases hends with heq | heq
  · rw [heq] at hnot
    exact hnot haccepts
  · exact hsingle (heq ▸ List.mem_append_right _ List.mem_cons_self)

/-- A pattern that does not begin and end with a star is found in a name that it does not accept. -/
theorem exists_tooWide (hpy : FoldsAscii py) (ht : AsciiText t) (hpattern : IsAscii pattern)
    (hline : '\n' ∉ pattern.toList) (hany : '?' ∉ pattern.toList) (hgiven : pattern.toList ≠ [])
    (hends : ¬(pattern.toList.head? = some '*' ∧ pattern.toList.getLast? = some '*')) :
    ∃ name, IsAscii name ∧ '\n' ∉ name.toList ∧ Contains py pattern name ∧
      matchesPattern t pattern name = false := by
  by_cases hfirst : pattern.toList.head? = some '*'
  · have hlast := fun h => hends ⟨hfirst, h⟩
    obtain ⟨front, c, hpat⟩ := (List.eq_nil_or_concat' pattern.toList).resolve_left hgiven
    refine exists_around hpy ht hpattern hline [] [otherThan c] ?_ ?_
    · simpa using otherThan_ascii c
    · intro h
      rw [hpat] at h hlast hany
      have hstar : c ≠ '*' := by simpa using hlast
      have hletter : c ≠ '?' := fun h => hany (h ▸ List.mem_concat_self)
      obtain ⟨x, hx, hsame⟩ := accepts_concat hstar hletter h
      rw [List.getLast?_concat] at hx
      exact otherThan_ne c (Option.some.inj hx ▸ hsame)
  · cases hpat : pattern.toList with
    | nil => exact absurd hpat hgiven
    | cons c tail =>
      refine exists_around hpy ht hpattern hline [otherThan c] [] ?_ ?_
      · simpa using otherThan_ascii c
      · intro h
        rw [hpat] at h hfirst hany
        have hstar : c ≠ '*' := by simpa using hfirst
        have hletter : c ≠ '?' := fun h => hany (h ▸ List.mem_cons_self)
        obtain ⟨x, line, hx, hsame, -⟩ := (accepts_lit_iff hstar hletter).mp h
        exact otherThan_ne c ((List.cons.inj hx).1 ▸ hsame)

end Names

end Ascii

/-- The check uses the glob just where no agent in scope has the pattern too wide or too narrow, and
without a pattern where none has to be flagged. -/
theorem flagsByGlob_iff (py : Python) (t : Taxonomy.CaseText) (now : Int) (db : Database)
    (parameters : JsonDict) (scope : ScopeFilter) (pattern : String)
    (hpattern : parameters.getD "app_pattern" (.str "") = .str pattern) :
    FlagsByGlob py t now db parameters scope pattern ↔ ∀ agent ∈ agentsIn db scope,
      (pattern = "" → mustExist parameters = hasMatch t pattern agent) ∧
        (pattern ≠ "" → ¬TooWide py t pattern agent ∧ ¬TooNarrow py t pattern agent) := by
  have hagent : ∀ agent, (foundOn py parameters pattern agent ≠ [] ↔
      mustExist parameters ≠ hasMatch t pattern agent) ↔
      (pattern = "" → mustExist parameters = hasMatch t pattern agent) ∧
        (pattern ≠ "" → ¬TooWide py t pattern agent ∧ ¬TooNarrow py t pattern agent) := by
    intro agent
    unfold foundOn
    by_cases hgiven : pattern = ""
    · rw [if_pos hgiven]
      simp [hgiven]
    · rw [if_neg hgiven, presence_agrees_iff]
      simp [hgiven]
  constructor
  · rintro ⟨o, -, -, h⟩ agent hin
    exact (hagent agent).mp (h agent hin)
  · intro h
    obtain ⟨o, ho, hcut⟩ := @customAppPresence_cut py now db parameters scope pattern hpattern
    exact ⟨o, ho, hcut, fun agent hin => (hagent agent).mpr (h agent hin)⟩

def asciiPython : Python := { plainPython with variants := Enforcement.asciiCase.variants }

theorem foldsAscii_asciiPython : FoldsAscii asciiPython := by
  intro c x hc hx
  exact (Classification.asciiText_asciiCase.variants x c hx hc).trans eq_comm

def browserDatabase : Database where
  agents := [{ sourceId := "laptop", installedAppNames := some ["chromedriver"] }]

def requires (pattern : String) : JsonDict := ⟨[("app_pattern", .str pattern)], by simp⟩

theorem flagsByGlob_star :
    FlagsByGlob asciiPython Enforcement.asciiCase 0 browserDatabase (requires "chrome*") .all
        "chrome*" ↔ ∀ agent ∈ agentsIn browserDatabase .all,
      ("chrome*" = "" →
        mustExist (requires "chrome*") = hasMatch Enforcement.asciiCase "chrome*" agent) ∧
      ("chrome*" ≠ "" → ¬TooWide asciiPython Enforcement.asciiCase "chrome*" agent ∧
        ¬TooNarrow asciiPython Enforcement.asciiCase "chrome*" agent) :=
  flagsByGlob_iff asciiPython Enforcement.asciiCase 0 browserDatabase (requires "chrome*") .all
    "chrome*" rfl

/-- It has another app, the name of which begins with the one that is required. -/
theorem other_app_counts :
    ¬∀ (py : Python) (t : Taxonomy.CaseText) (now : Int) (db : Database) (parameters : JsonDict)
      (scope : ScopeFilter) (pattern : String), FoldsAscii py → Classification.AsciiText t →
      Classification.IsAscii pattern → parameters.getD "app_pattern" (.str "") = .str pattern →
        FlagsByGlob py t now db parameters scope pattern := by
  intro h
  obtain ⟨o, -, -, hflags⟩ := h asciiPython Enforcement.asciiCase 0 browserDatabase
    (requires "chrome") .all "chrome" foldsAscii_asciiPython Classification.asciiText_asciiCase
    (Classification.isAscii_of_all (by decide +kernel)) rfl
  have hflagged := (hflags { sourceId := "laptop", installedAppNames := some ["chromedriver"] }
    List.mem_cons_self).mpr (by decide +kernel)
  exact hflagged (by decide +kernel)

/-- Whatever the agents run, in names of one line of ASCII, the check uses the glob. -/
def MeansGlob (py : Python) (t : Taxonomy.CaseText) (pattern : String) : Prop :=
  ∀ now db parameters scope, parameters.getD "app_pattern" (.str "") = .str pattern →
    (∀ agent ∈ agentsIn db scope, ∀ name ∈ installed agent,
      Classification.IsAscii name ∧ '\n' ∉ name.toList) →
    FlagsByGlob py t now db parameters scope pattern

def runs (name : String) : AgentDoc where
  sourceId := "laptop"
  installedAppNames := some [name]

/-- Of the patterns without question marks and line feeds, the check takes those for globs that
begin and end with a star. -/
theorem meansGlob_iff (py : Python) (t : Taxonomy.CaseText) (hpy : FoldsAscii py)
    (ht : Classification.AsciiText t) (pattern : String) (hpattern : Classification.IsAscii pattern)
    (hgiven : pattern ≠ "") (hline : '\n' ∉ pattern.toList) (hany : '?' ∉ pattern.toList) :
    MeansGlob py t pattern ↔
      pattern.toList.head? = some '*' ∧ pattern.toList.getLast? = some '*' := by
  constructor
  · intro hall
    by_contra hends
    obtain ⟨name, hascii, hsingle, hcontains, hnot⟩ := exists_tooWide hpy ht hpattern hline hany
      (fun h => hgiven (String.toList_eq_nil_iff.mp h)) hends
    obtain ⟨o, -, -, hflags⟩ := hall 0 { agents := [runs name] } (requires pattern) .all rfl
      fun agent hin other hother => by
        rw [List.mem_singleton.mp hin] at hother
        rw [List.mem_singleton.mp hother]
        exact ⟨hascii, hsingle⟩
    have hagent := hflags (runs name) List.mem_cons_self
    unfold foundOn at hagent
    rw [if_neg hgiven] at hagent
    refine (presence_agrees_iff.mp hagent).1 ⟨⟨name, List.mem_cons_self, hcontains⟩, ?_⟩
    intro other hother
    rw [List.mem_singleton.mp hother]
    exact hnot
  · rintro ⟨hfirst, hlast⟩ now db parameters scope hparameter hnames
    obtain ⟨o, ho, hcut⟩ := @customAppPresence_cut py now db parameters scope pattern hparameter
    refine ⟨o, ho, hcut, fun agent hin => ?_⟩
    unfold foundOn
    rw [if_neg hgiven]
    exact presence_agrees_iff.mpr
      ⟨not_tooWide hpy ht hpattern (hnames agent hin) hany hfirst hlast,
        not_tooNarrow hpy ht hpattern (fun name h => (hnames agent hin name h).1) hany⟩

theorem meansGlob_chrome :
    MeansGlob asciiPython Enforcement.asciiCase "*chrome*" ↔
      "*chrome*".toList.head? = some '*' ∧ "*chrome*".toList.getLast? = some '*' :=
  meansGlob_iff asciiPython Enforcement.asciiCase foldsAscii_asciiPython
    Classification.asciiText_asciiCase "*chrome*"
    (Classification.isAscii_of_all (by decide +kernel)) (by decide) (by decide +kernel)
    (by decide +kernel)

end Sentora.Compliance
