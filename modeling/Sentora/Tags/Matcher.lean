import Mathlib.Data.String.Basic
import Sentora.Classification.Patterns
import Sentora.Lib.StableSort

/-!
# Agents of a tag rule

`find_matching_agents` (`domains/tags/matcher.py`) with the fields of a rule and of an agent
that it reads.  The query leaves out agents on the server, and what is left is compared
in Python.
-/

namespace Sentora.Tags

open Lib Classification

structure TagRulePattern where
  pattern : String
deriving DecidableEq

structure TagRule where
  patterns : List TagRulePattern

structure TagPreviewAgent where
  sourceId : String
  hostname : String
  groupName : String
  siteName : String
  osType : String
  matchedPatterns : List String
  existingTags : List String := []
deriving DecidableEq

/-- `str.lower`, and whether the server finds that a name is a lowered pattern, with the
regular expression `^pattern$` and the option `i`. -/
structure Server where
  text : Taxonomy.CaseText
  isName : String → String → Bool

/-- The `find` of the installed names. -/
inductive Query where
  | regexes (patterns : List String)
  | notEmpty

def appNames (doc : Sync.AgentDoc) : List String := doc.installedAppNames.getD []

section Matcher

variable (server : Server) (rule : TagRule)

def Query.accepts (doc : Sync.AgentDoc) : Query → Bool
  | .regexes patterns => (appNames doc).any fun name => patterns.any fun p => server.isName p name
  | .notEmpty => doc.installedAppNames.isSome && doc.installedAppNames != some []

def exactPatterns : List String :=
  (rule.patterns.filter fun p => isExact p.pattern).map TagRulePattern.pattern

def globPatterns : List TagRulePattern := rule.patterns.filter fun p => !isExact p.pattern

def exactPatternsLower : List String := (exactPatterns rule).map server.text.lower

def allExact : Bool := !(exactPatterns rule).isEmpty && (globPatterns rule).isEmpty

def query : Query :=
  if allExact rule then .regexes (exactPatternsLower server rule) else .notEmpty

def matchedPatterns (doc : Sync.AgentDoc) : List String :=
  let lowered := (appNames doc).map server.text.lower
  if allExact rule then
    ((exactPatterns rule).zip (exactPatternsLower server rule)).filterMap fun ep =>
      if lowered.contains ep.2 then some ep.1 else none
  else
    rule.patterns.filterMap fun p =>
      if isExact p.pattern then
        if lowered.contains (server.text.lower p.pattern) then some p.pattern else none
      else if (appNames doc).any (matchesPattern server.text p.pattern) then some p.pattern
      else none

def previewOf (doc : Sync.AgentDoc) (matchedPatterns : List String) : TagPreviewAgent where
  sourceId := doc.sourceId
  hostname := doc.hostname
  groupName := doc.groupName
  siteName := doc.siteName
  osType := doc.osType
  matchedPatterns := matchedPatterns
  existingTags := doc.tags

/-- The agents that are kept, and how many there are. -/
structure Found where
  results : List TagPreviewAgent := []
  totalMatched : Nat := 0

def Found.visit (cap : Option Nat) (found : Found) (doc : Sync.AgentDoc) : Found :=
  let matched := matchedPatterns server rule doc
  if matched.isEmpty then found
  else
    { results :=
        if cap.all fun cap => found.results.length < cap then
          found.results ++ [previewOf doc matched]
        else found.results
      totalMatched := found.totalMatched + 1 }

def findMatchingAgents (agents : List Sync.AgentDoc) (cap : Option Nat := some 500) :
    List TagPreviewAgent × Nat :=
  if rule.patterns.isEmpty then ([], 0)
  else
    let docs := agents.filter fun doc => (query server rule).accepts server doc
    let found := docs.foldl (Found.visit server rule cap) {}
    (sortBy TagPreviewAgent.hostname found.results, found.totalMatched)

def ruleMatches (doc : Sync.AgentDoc) : List TagRulePattern :=
  rule.patterns.filter fun p => (appNames doc).any (matchesPattern server.text p.pattern)

/-- Some installed name is accepted for some pattern. -/
def IsMatch (doc : Sync.AgentDoc) : Prop :=
  ∃ name ∈ appNames doc, ∃ p ∈ rule.patterns, matchesPattern server.text p.pattern name = true

instance (doc : Sync.AgentDoc) : Decidable (IsMatch server rule doc) :=
  inferInstanceAs (Decidable (∃ name ∈ appNames doc, ∃ p ∈ rule.patterns, _))

def expected (doc : Sync.AgentDoc) : TagPreviewAgent :=
  previewOf doc ((ruleMatches server rule doc).map TagRulePattern.pattern)

/-- The total is the number of agents that match; as many of them as may be are shown,
each once, by their names. -/
structure Previews (agents : List Sync.AgentDoc) (cap : Option Nat)
    (out : List TagPreviewAgent × Nat) : Prop where
  total : out.2 = agents.countP fun doc => IsMatch server rule doc
  shown : ∃ chosen : List Sync.AgentDoc, chosen.Sublist agents ∧
    (∀ doc ∈ chosen, IsMatch server rule doc) ∧
    chosen.length = (cap.map fun cap => min cap out.2).getD out.2 ∧
    out.1.Perm (chosen.map (expected server rule))
  sorted : out.1.Pairwise fun a b => a.hostname ≤ b.hostname

end Matcher

section Agents

variable {server : Server} {rule : TagRule} {doc : Sync.AgentDoc} {agents : List Sync.AgentDoc}
  {cap : Option Nat}

theorem contains_lower {p : TagRulePattern} (h : isExact p.pattern = true) :
    ((appNames doc).map server.text.lower).contains (server.text.lower p.pattern) =
      (appNames doc).any (matchesPattern server.text p.pattern) := by
  unfold matchesPattern
  simp only [if_pos h]
  induction appNames doc with
  | nil => rfl
  | cons name names ih => rw [List.map_cons, List.contains_cons, ih, List.any_cons]

theorem zip_lowered (accepts : String → Bool) (patterns : List String) :
    ((patterns.zip (patterns.map server.text.lower)).filterMap fun ep =>
      if accepts ep.2 then some ep.1 else none) =
      patterns.filter fun p => accepts (server.text.lower p) := by
  induction patterns with
  | nil => rfl
  | cons p patterns ih =>
    rw [List.map_cons, List.zip_cons_cons, List.filterMap_cons, List.filter_cons, ih]
    by_cases h : accepts (server.text.lower p) = true <;> simp [h]

theorem kept_patterns (accepts : TagRulePattern → Bool) (patterns : List TagRulePattern) :
    (patterns.filterMap fun p => if accepts p then some p.pattern else none) =
      (patterns.filter accepts).map TagRulePattern.pattern := by
  induction patterns with
  | nil => rfl
  | cons p patterns ih =>
    rw [List.filterMap_cons, List.filter_cons, ih]
    by_cases h : accepts p = true <;> simp [h]

theorem isExact_of_allExact (h : allExact rule = true) : ∀ p ∈ rule.patterns,
    isExact p.pattern = true := by
  have hglobs : globPatterns rule = [] := by
    unfold allExact at h
    rw [Bool.and_eq_true, List.isEmpty_iff] at h
    exact h.2
  intro p hp
  by_contra hglob
  have hmem : p ∈ globPatterns rule := List.mem_filter.mpr ⟨hp, by simpa using hglob⟩
  rw [hglobs] at hmem
  exact absurd hmem List.not_mem_nil

theorem exactPatterns_of_allExact (h : allExact rule = true) :
    exactPatterns rule = rule.patterns.map TagRulePattern.pattern := by
  rw [exactPatterns, List.filter_eq_self.mpr (isExact_of_allExact h)]

theorem matchedPatterns_eq :
    matchedPatterns server rule doc =
      (ruleMatches server rule doc).map TagRulePattern.pattern := by
  unfold matchedPatterns ruleMatches
  by_cases hall : allExact rule = true
  · have hexact := isExact_of_allExact hall
    rw [if_pos hall, exactPatternsLower, zip_lowered, exactPatterns_of_allExact hall,
      List.filter_map]
    congr 1
    refine List.filter_congr fun p hp => ?_
    exact contains_lower (hexact p hp)
  · rw [if_neg hall, ← kept_patterns]
    refine List.filterMap_congr fun p _ => ?_
    by_cases hexact : isExact p.pattern = true
    · rw [if_pos hexact, contains_lower hexact]
    · rw [if_neg hexact]

theorem ruleMatches_eq_nil_iff : ruleMatches server rule doc = [] ↔ ¬IsMatch server rule doc := by
  unfold ruleMatches IsMatch
  rw [List.filter_eq_nil_iff]
  constructor
  · rintro h ⟨name, hname, p, hp, hmatch⟩
    exact h p hp (List.any_eq_true.mpr ⟨name, hname, hmatch⟩)
  · intro h p hp hany
    obtain ⟨name, hname, hmatch⟩ := List.any_eq_true.mp hany
    exact h ⟨name, hname, p, hp, hmatch⟩

theorem isEmpty_matchedPatterns :
    (matchedPatterns server rule doc).isEmpty = !decide (IsMatch server rule doc) := by
  rw [matchedPatterns_eq, List.isEmpty_map, Bool.eq_iff_iff, List.isEmpty_iff,
    ruleMatches_eq_nil_iff]
  simp

structure FindsNames (server : Server) : Prop where
  same : ∀ p name, IsAscii p → server.text.lower p = server.text.lower name →
    server.isName (server.text.lower p) name = true

theorem accepts_of_isMatch (hserver : FindsNames server)
    (hascii : ∀ p ∈ rule.patterns, IsAscii p.pattern) (h : IsMatch server rule doc) :
    (query server rule).accepts server doc = true := by
  obtain ⟨name, hname, p, hp, hmatch⟩ := h
  unfold query
  by_cases hall : allExact rule = true
  · have hsame : server.text.lower p.pattern = server.text.lower name := by
      have := isExact_of_allExact hall p hp
      rwa [matchesPattern, if_pos this, beq_iff_eq] at hmatch
    have hlower : server.text.lower p.pattern ∈ exactPatternsLower server rule := by
      rw [exactPatternsLower, exactPatterns_of_allExact hall, List.map_map]
      exact List.mem_map_of_mem hp
    rw [if_pos hall]
    exact List.any_eq_true.mpr ⟨name, hname, List.any_eq_true.mpr
      ⟨_, hlower, hserver.same _ _ (hascii p hp) hsame⟩⟩
  · rw [if_neg hall]
    show (doc.installedAppNames.isSome && doc.installedAppNames != some []) = true
    unfold appNames at hname
    cases hnames : doc.installedAppNames with
    | none =>
      rw [hnames] at hname
      exact absurd hname List.not_mem_nil
    | some names =>
      rw [hnames] at hname
      have hne : names ≠ [] := List.ne_nil_of_mem hname
      simpa using hne

end Agents

section Fleet

variable {server : Server} {rule : TagRule} {doc : Sync.AgentDoc} {docs agents : List Sync.AgentDoc}
  {cap : Option Nat} {found : Found}

def hits (server : Server) (rule : TagRule) (docs : List Sync.AgentDoc) : List Sync.AgentDoc :=
  docs.filter fun doc => IsMatch server rule doc

/-- As many as may be kept. -/
def firstUpTo (cap : Option Nat) (docs : List Sync.AgentDoc) : List Sync.AgentDoc :=
  match cap with
  | none => docs
  | some cap => docs.take cap

/-- What the loop has found in the agents that it has visited. -/
structure Holds (server : Server) (rule : TagRule) (cap : Option Nat)
    (docs : List Sync.AgentDoc) (found : Found) : Prop where
  results : found.results = (firstUpTo cap (hits server rule docs)).map (expected server rule)
  totalMatched : found.totalMatched = (hits server rule docs).length

theorem firstUpTo_concat :
    firstUpTo cap (docs ++ [doc]) =
      if cap.all fun cap => (firstUpTo (some cap) docs).length < cap then
        firstUpTo cap docs ++ [doc]
      else firstUpTo cap docs := by
  cases cap with
  | none => simp [firstUpTo]
  | some cap =>
    show (docs ++ [doc]).take cap = if decide ((docs.take cap).length < cap) = true
      then docs.take cap ++ [doc] else docs.take cap
    rw [List.length_take, List.take_append]
    by_cases h : docs.length < cap
    · obtain ⟨n, hn⟩ : ∃ n, cap - docs.length = n + 1 := ⟨cap - docs.length - 1, by omega⟩
      rw [if_pos (by simp; omega), hn]
      simp
    · rw [if_neg (by simp; omega), Nat.sub_eq_zero_of_le (by omega)]
      simp

theorem hits_concat : hits server rule (docs ++ [doc]) =
    if IsMatch server rule doc then hits server rule docs ++ [doc] else hits server rule docs := by
  unfold hits
  by_cases h : IsMatch server rule doc <;> simp [List.filter_append, h]

theorem Holds.visit (h : Holds server rule cap docs found) :
    Holds server rule cap (docs ++ [doc]) (found.visit server rule cap doc) := by
  have hempty := @isEmpty_matchedPatterns server rule doc
  by_cases hmatch : IsMatch server rule doc
  · have hfound : found.visit server rule cap doc =
        { results :=
            if cap.all fun cap => found.results.length < cap then
              found.results ++ [expected server rule doc]
            else found.results
          totalMatched := found.totalMatched + 1 } := by
      unfold Found.visit
      rw [if_neg (by simp [hempty, hmatch]), matchedPatterns_eq]
      rfl
    rw [hfound]
    refine ⟨?_, ?_⟩
    · have hroom : (cap.all fun cap => found.results.length < cap) =
          cap.all fun cap => (firstUpTo (some cap) (hits server rule docs)).length < cap := by
        cases cap with
        | none => rfl
        | some cap => simp only [Option.all_some, h.results, List.length_map]
      rw [hits_concat, if_pos hmatch, firstUpTo_concat, hroom, h.results]
      split_ifs
      · rw [List.map_append, List.map_singleton]
      · rfl
    · rw [hits_concat, if_pos hmatch, List.length_append, ← h.totalMatched]
      rfl
  · have hkeep : found.visit server rule cap doc = found := by
      unfold Found.visit
      rw [if_pos (by simp [hempty, hmatch])]
    rw [hkeep]
    refine ⟨?_, ?_⟩
    · rw [hits_concat, if_neg hmatch, h.results]
    · rw [hits_concat, if_neg hmatch, h.totalMatched]

theorem holds_foldl : ∀ (later docs : List Sync.AgentDoc) (found : Found),
    Holds server rule cap docs found →
      Holds server rule cap (docs ++ later) (later.foldl (Found.visit server rule cap) found)
  | [], docs, found, h => by rwa [List.append_nil]
  | doc :: later, docs, found, h => by
    have hlater := holds_foldl later (docs ++ [doc]) _ h.visit
    rwa [List.append_assoc] at hlater

theorem holds_nil : Holds server rule cap [] {} := by
  refine ⟨?_, rfl⟩
  cases cap with
  | none => rfl
  | some cap => rw [hits, List.filter_nil, firstUpTo, List.take_nil]; rfl

theorem hits_query (hserver : FindsNames server)
    (hascii : ∀ p ∈ rule.patterns, IsAscii p.pattern) :
    hits server rule (agents.filter fun doc => (query server rule).accepts server doc) =
      hits server rule agents := by
  unfold hits
  rw [List.filter_filter]
  refine List.filter_congr fun doc _ => ?_
  by_cases h : IsMatch server rule doc
  · simp [h, accepts_of_isMatch hserver hascii h]
  · simp [h]

theorem firstUpTo_sublist : (firstUpTo cap docs).Sublist docs := by
  cases cap with
  | none => exact List.Sublist.refl _
  | some cap => exact List.take_sublist cap docs

theorem length_firstUpTo :
    (firstUpTo cap docs).length = (cap.map fun cap => min cap docs.length).getD docs.length := by
  cases cap with
  | none => rfl
  | some cap => exact List.length_take

theorem hits_of_no_patterns (h : rule.patterns = []) : hits server rule agents = [] := by
  refine List.filter_eq_nil_iff.mpr fun doc _ => ?_
  rw [decide_eq_true_iff]
  rintro ⟨_, _, p, hp, _⟩
  rw [h] at hp
  exact absurd hp List.not_mem_nil

theorem previews_of_hits {results : List TagPreviewAgent}
    (hresults : results = (firstUpTo cap (hits server rule agents)).map (expected server rule)) :
    Previews server rule agents cap
      (sortBy TagPreviewAgent.hostname results, (hits server rule agents).length) := by
  refine ⟨List.countP_eq_length_filter.symm, ?_, pairwise_sortBy⟩
  refine ⟨firstUpTo cap (hits server rule agents),
    firstUpTo_sublist.trans List.filter_sublist, ?_, length_firstUpTo, ?_⟩
  · intro doc hdoc
    exact of_decide_eq_true (List.mem_filter.mp (firstUpTo_sublist.subset hdoc)).2
  · rw [← hresults]
    exact List.perm_insertionSort _ _

/-- The preview of a rule is what it is to be, for every mixture of patterns. -/
theorem preview_meets_specification (server : Server) (hserver : FindsNames server)
    (rule : TagRule) (hascii : ∀ p ∈ rule.patterns, IsAscii p.pattern)
    (agents : List Sync.AgentDoc) (cap : Option Nat) :
    Previews server rule agents cap (findMatchingAgents server rule agents cap) := by
  unfold findMatchingAgents
  by_cases hnone : rule.patterns = []
  · have hempty : hits server rule agents = [] := hits_of_no_patterns hnone
    have hresults : ([] : List TagPreviewAgent) =
        (firstUpTo cap (hits server rule agents)).map (expected server rule) := by
      rw [hempty]
      cases cap <;> simp [firstUpTo]
    have hpreviews := previews_of_hits hresults
    rw [hempty] at hpreviews
    rw [if_pos (by rw [hnone]; rfl)]
    exact hpreviews
  · rw [if_neg (by rw [List.isEmpty_iff]; exact hnone)]
    have hnil : Holds server rule cap [] {} := holds_nil
    have hholds := holds_foldl (agents.filter fun doc => (query server rule).accepts server doc)
      [] {} hnil
    rw [List.nil_append] at hholds
    have hresults := hholds.results
    have htotal := hholds.totalMatched
    rw [hits_query hserver hascii] at hresults htotal
    show Previews server rule agents cap (_, _)
    rw [htotal]
    exact previews_of_hits hresults

def asciiServer : Server where
  text := Enforcement.asciiCase
  isName p name := matchLine Enforcement.asciiCase.variants (p.toList.map .lit) name.toList

theorem matchLine_lowered {pattern text : List Char}
    (h : pattern.map Char.toLower = text.map Char.toLower) :
    matchLine Enforcement.asciiCase.variants ((pattern.map Char.toLower).map .lit) text = true := by
  induction pattern generalizing text with
  | nil =>
    obtain rfl : text = [] := List.map_eq_nil_iff.mp h.symm
    rfl
  | cons c pattern ih =>
    cases text with
    | nil => exact absurd h (List.cons_ne_nil _ _)
    | cons x text =>
      rw [List.map_cons, List.map_cons, List.cons.injEq] at h
      rw [List.map_cons, List.map_cons, matchLine_lit]
      refine ⟨x, text, rfl, ?_, ih h.2⟩
      rw [h.1]
      exact List.mem_cons_self

theorem findsNames_asciiServer : FindsNames asciiServer where
  same p name _ h := by
    have hlower : p.toList.map Char.toLower = name.toList.map Char.toLower := by
      rw [← String.toList_map, ← String.toList_map]
      exact congrArg String.toList h
    show matchLine _ (((p.map Char.toLower).toList).map .lit) name.toList = true
    rw [String.toList_map]
    exact matchLine_lowered hlower

def browserRule : TagRule := ⟨[⟨"Chrome"⟩, ⟨"fire*"⟩]⟩

def installed (id hostname : String) (names : List String) : Sync.AgentDoc :=
  { id, source := "sentinelone", sourceId := id, hostname, installedAppNames := some names }

def offices : List Sync.AgentDoc :=
  [installed "1" "zeta" ["chrome", "firefox"], installed "2" "beta" ["vlc"],
    installed "3" "alpha" ["Firefox"]]

theorem browsers_are_previewed :
    Previews asciiServer browserRule offices (some 500)
      (findMatchingAgents asciiServer browserRule offices (some 500)) :=
  have hascii : (browserRule.patterns.all fun p =>
      p.pattern.toList.all fun c => c.toNat < 128) = true := by decide +kernel
  preview_meets_specification asciiServer findsNames_asciiServer browserRule
    (fun p hp => isAscii_of_all (List.all_eq_true.mp hascii p hp)) offices (some 500)

end Fleet

end Sentora.Tags
