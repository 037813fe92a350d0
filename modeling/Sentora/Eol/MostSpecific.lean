import Sentora.Eol.Cycles
import Sentora.Lib.Longest
import Sentora.Library.Adapters

/-!
# The most specific cycle

Which cycle `extract_cycle_match` of `domains/eol/matching.py` gives a version: the parts of the
first dotted number of the text, and the cycles whose identifiers are parts that it starts with.
-/

namespace Sentora.Eol

open Lib Library

/-- A number of some parts, each of digits. -/
structure DottedNumber (isDecimal : Char → Bool) (parts : List String) : Prop where
  ne_nil : parts ≠ []
  digits : ∀ p ∈ parts, p ≠ "" ∧ ∀ c ∈ p.toList, isDecimal c = true

/-- A text that does not go on with a digit, nor with a dot and a digit. -/
def Stops (isDecimal : Char → Bool) : List Char → Prop
  | [] => True
  | c :: rest => isDecimal c = false ∧ (c = '.' → ∀ d ∈ rest.head?, isDecimal d = false)

/-- The parts of the first dotted number of a text, of which there are none where the text has no
digit. -/
inductive FirstNumber (isDecimal : Char → Bool) : List Char → List String → Prop where
  | found {before after : List Char} {parts : List String}
      (hbefore : ∀ c ∈ before, isDecimal c = false) (hnumber : DottedNumber isDecimal parts)
      (hstops : Stops isDecimal after) :
      FirstNumber isDecimal (before ++ (".".intercalate parts).toList ++ after) parts
  | none {cs : List Char} (h : ∀ c ∈ cs, isDecimal c = false) : FirstNumber isDecimal cs []

section Parts

variable {isDecimal : Char → Bool} {cs after : List Char} {part : String} {parts more : List String}

theorem toList_intercalate_cons (part : String) (more : List String) :
    (".".intercalate (part :: more)).toList =
      part.toList ++ more.flatMap fun p => '.' :: p.toList := by
  induction more generalizing part with
  | nil => simp
  | cons next more ih =>
    rw [String.intercalate_cons_cons, String.toList_append, String.toList_append, ih]
    simp

theorem digits_eq (hdigits : ∀ c ∈ cs, isDecimal c = true)
    (hafter : ∀ c ∈ after.head?, isDecimal c = false) : digits isDecimal (cs ++ after) = cs := by
  unfold digits
  rw [List.takeWhile_append_of_pos hdigits]
  cases after with
  | nil => rw [List.takeWhile_nil, List.append_nil]
  | cons c rest =>
    rw [List.takeWhile_cons_of_neg (by rw [hafter c rfl]; exact Bool.false_ne_true),
      List.append_nil]

/-- What follows the first part does not start with a digit. -/
theorem head_more (more : List String) (hdot : isDecimal '.' = false)
    (hstops : Stops isDecimal after) :
    ∀ c ∈ (more.flatMap (fun p => '.' :: p.toList) ++ after).head?, isDecimal c = false := by
  intro c hc
  cases more with
  | nil =>
    cases after with
    | nil => cases hc
    | cons d rest =>
      obtain rfl : d = c := Option.some.inj hc
      exact hstops.1
  | cons p more =>
    obtain rfl : '.' = c := Option.some.inj hc
    exact hdot

theorem moreParts_eq (hdot : isDecimal '.' = false)
    (hmore : ∀ p ∈ more, p ≠ "" ∧ ∀ c ∈ p.toList, isDecimal c = true)
    (hstops : Stops isDecimal after) {fuel : Nat}
    (hfuel : (more.flatMap (fun p => '.' :: p.toList) ++ after).length ≤ fuel) :
    moreParts isDecimal fuel (more.flatMap (fun p => '.' :: p.toList) ++ after) = more := by
  induction more generalizing fuel with
  | nil =>
    rw [List.flatMap_nil, List.nil_append]
    match fuel, after with
    | 0, _ => rw [moreParts]; simp
    | fuel + 1, [] => rw [moreParts]; simp
    | fuel + 1, c :: rest =>
      by_cases hc : c = '.'
      · subst hc
        have hnone : digits isDecimal rest = [] := by
          cases rest with
          | nil => rfl
          | cons d rest => exact List.takeWhile_cons_of_neg (by simp [hstops.2 rfl d rfl])
        rw [moreParts, hnone]
        rfl
      · rw [moreParts]
        intro _ _ _ h
        exact absurd (List.cons.inj h).1 hc
  | cons p more ih =>
    have ⟨hne, hdigits⟩ := hmore p List.mem_cons_self
    rw [List.flatMap_cons, List.cons_append, List.cons_append, List.append_assoc] at hfuel ⊢
    match fuel with
    | 0 => cases hfuel
    | fuel + 1 =>
      have hpart := digits_eq hdigits (head_more more hdot hstops)
      have hnil : p.toList.isEmpty = false := by
        rw [List.isEmpty_eq_false_iff]
        exact fun h => hne (String.toList_eq_nil_iff.mp h)
      rw [moreParts, hpart, hnil, if_neg Bool.false_ne_true, List.drop_left, String.ofList_toList]
      congr 1
      apply ih fun q hq => hmore q (List.mem_cons_of_mem p hq)
      rw [List.length_cons, List.length_append] at hfuel
      omega

theorem versionParts_skip {before : List Char} (hbefore : ∀ c ∈ before, isDecimal c = false) :
    versionParts isDecimal (before ++ cs) = versionParts isDecimal cs := by
  induction before with
  | nil => rfl
  | cons c before ih =>
    rw [List.cons_append, versionParts, hbefore c List.mem_cons_self, if_neg Bool.false_ne_true]
    exact ih fun d hd => hbefore d (List.mem_cons_of_mem c hd)

theorem FirstNumber.versionParts_eq (hdot : isDecimal '.' = false)
    (h : FirstNumber isDecimal cs parts) : versionParts isDecimal cs = parts := by
  cases h with
  | none h =>
    rw [← List.append_nil cs, versionParts_skip h]
    rfl
  | @found before after _ hbefore hnumber hstops =>
    rw [List.append_assoc, versionParts_skip hbefore]
    obtain ⟨part, more, rfl⟩ := List.exists_cons_of_ne_nil hnumber.ne_nil
    have ⟨hne, hdigits⟩ := hnumber.digits part List.mem_cons_self
    rw [toList_intercalate_cons, List.append_assoc]
    obtain ⟨c, rest, hpart⟩ := List.exists_cons_of_ne_nil
      fun h => hne (String.toList_eq_nil_iff.mp h)
    have hfirst := digits_eq hdigits (head_more more hdot hstops)
    rw [hpart, List.cons_append] at hfirst ⊢
    rw [versionParts, hdigits c (by rw [hpart]; exact List.mem_cons_self), if_pos rfl]
    dsimp only
    rw [hfirst, ← List.cons_append, List.drop_left, ← hpart, String.ofList_toList]
    congr 1
    apply moreParts_eq hdot fun q hq => hnumber.digits q (List.mem_cons_of_mem part hq)
    · exact hstops
    · rw [@List.length_append _ rest]
      exact Nat.le_add_left _ _

theorem head_dropWhile (isDecimal : Char → Bool) (cs : List Char) :
    ∀ c ∈ (cs.dropWhile isDecimal).head?, isDecimal c = false := by
  intro c hc
  have h := List.head?_dropWhile_not isDecimal cs
  rw [Option.mem_def.mp hc] at h
  simpa using h

theorem takeWhile_digits {c : Char} {rest : List Char} (hdigit : isDecimal c = true) :
    String.ofList ((c :: rest).takeWhile isDecimal) ≠ "" ∧
      ∀ d ∈ (String.ofList ((c :: rest).takeWhile isDecimal)).toList, isDecimal d = true := by
  constructor
  · rw [List.takeWhile_cons_of_pos hdigit]
    exact fun h => List.cons_ne_nil _ _ (String.ofList_eq_empty_iff.mp h)
  · intro d hd
    rw [String.toList_ofList] at hd
    exact List.all_eq_true.mp List.all_takeWhile d hd

theorem exists_more (h : ∀ c ∈ cs.head?, isDecimal c = false) :
    ∃ (more : List String) (after : List Char),
      cs = more.flatMap (fun p => '.' :: p.toList) ++ after ∧
      (∀ p ∈ more, p ≠ "" ∧ ∀ c ∈ p.toList, isDecimal c = true) ∧ Stops isDecimal after := by
  induction hlength : cs.length using Nat.strong_induction_on generalizing cs with
  | _ n ih =>
    match cs, hlength with
    | [], _ => exact ⟨[], [], rfl, List.forall_mem_nil _, trivial⟩
    | c :: rest, hlength =>
      by_cases hgo : c = '.' ∧ ∃ d ∈ rest.head?, isDecimal d = true
      · obtain ⟨rfl, d, hd, hdigit⟩ := hgo
        obtain ⟨more, after, hsplit, hmore, hstops⟩ := ih (rest.dropWhile isDecimal).length
          (by
            have := (List.dropWhile_suffix (l := rest) isDecimal).length_le
            rw [List.length_cons] at hlength
            omega)
          (head_dropWhile isDecimal rest) rfl
        refine ⟨String.ofList (rest.takeWhile isDecimal) :: more, after, ?_, ?_, hstops⟩
        · rw [List.flatMap_cons, List.append_assoc, ← hsplit, String.toList_ofList,
            List.cons_append, List.takeWhile_append_dropWhile]
        · intro p hp
          rcases List.mem_cons.mp hp with rfl | hp
          · obtain ⟨rest, rfl⟩ := List.head?_eq_some_iff.mp hd
            exact takeWhile_digits hdigit
          · exact hmore p hp
      · refine ⟨[], c :: rest, rfl, List.forall_mem_nil _, h c rfl, ?_⟩
        intro hc d hd
        rw [Bool.eq_false_iff]
        exact fun hdigit => hgo ⟨hc, d, hd, hdigit⟩

theorem exists_number {c : Char} (rest : List Char) (hdigit : isDecimal c = true) :
    ∃ parts after, c :: rest = (".".intercalate parts).toList ++ after ∧
      DottedNumber isDecimal parts ∧ Stops isDecimal after := by
  obtain ⟨more, after, hsplit, hmore, hstops⟩ :=
    exists_more (head_dropWhile isDecimal (c :: rest))
  refine ⟨String.ofList ((c :: rest).takeWhile isDecimal) :: more, after, ?_, ⟨nofun, ?_⟩, hstops⟩
  · rw [toList_intercalate_cons, List.append_assoc, ← hsplit, String.toList_ofList,
      List.takeWhile_append_dropWhile]
  · intro p hp
    rcases List.mem_cons.mp hp with rfl | hp
    · exact takeWhile_digits hdigit
    · exact hmore p hp

theorem exists_firstNumber (isDecimal : Char → Bool) (cs : List Char) :
    ∃ parts, FirstNumber isDecimal cs parts := by
  induction cs with
  | nil => exact ⟨[], .none (List.forall_mem_nil _)⟩
  | cons c rest ih =>
    cases hdigit : isDecimal c with
    | true =>
      obtain ⟨parts, after, hsplit, hnumber, hstops⟩ := exists_number rest hdigit
      rw [hsplit]
      have hfound : FirstNumber isDecimal ([] ++ (".".intercalate parts).toList ++ after) parts :=
        .found (List.forall_mem_nil _) hnumber hstops
      exact ⟨parts, hfound⟩
    | false =>
      obtain ⟨parts, h⟩ := ih
      refine ⟨parts, ?_⟩
      cases h with
      | none h =>
        refine .none fun d hd => ?_
        rcases List.mem_cons.mp hd with rfl | hd
        · exact hdigit
        · exact h d hd
      | @found before after _ hbefore hnumber hstops =>
        have hskipped : ∀ d ∈ c :: before, isDecimal d = false :=
          List.forall_mem_cons.mpr ⟨hdigit, hbefore⟩
        exact .found hskipped hnumber hstops

end Parts

def cycleParts (c : EOLCycle) : List String := splitOn '.' c.cycle

section Cycles

variable {isDecimal : Char → Bool} {version : String} {cycles : List EOLCycle}
  {parts p : List String} {c : EOLCycle}

theorem splitOn_intercalate (hne : parts ≠ []) (hdots : ∀ p ∈ parts, '.' ∉ p.toList) :
    splitOn '.' (".".intercalate parts) = parts := by
  unfold splitOn
  rw [String.toList_intercalate]
  show (List.splitOn '.' (['.'].intercalate (parts.map String.toList))).map String.ofList = parts
  rw [List.splitOn_intercalate]
  · simp
  · simpa using hdots
  · simpa using hne

theorem intercalate_splitOn (s : String) : ".".intercalate (splitOn '.' s) = s := by
  unfold splitOn
  rw [← String.toList_inj, String.toList_intercalate, List.map_map]
  simp only [Function.comp_def, String.toList_ofList, List.map_id']
  exact List.intercalate_splitOn '.'

theorem cycleParts_eq_iff (hne : p ≠ []) (hdots : ∀ q ∈ p, '.' ∉ q.toList) :
    cycleParts c = p ↔ c.cycle = ".".intercalate p := by
  unfold cycleParts
  constructor
  · intro h
    rw [← h, intercalate_splitOn]
  · intro h
    rw [h, splitOn_intercalate hne hdots]

theorem cycleParts_ne_nil (c : EOLCycle) : cycleParts c ≠ [] := by
  unfold cycleParts splitOn
  simp

theorem cycleNamed_eq_some_iff (hdistinct : (cycles.map EOLCycle.cycle).Nodup) {id : String} :
    cycleNamed cycles id = some c ↔ c ∈ cycles ∧ c.cycle = id := by
  unfold cycleNamed
  constructor
  · intro h
    exact ⟨List.mem_reverse.mp (List.mem_of_find?_eq_some h), by simpa using List.find?_some h⟩
  · rintro ⟨hc, rfl⟩
    cases hfind : cycles.reverse.find? fun d => d.cycle == c.cycle with
    | none =>
      have := List.find?_eq_none.mp hfind c (List.mem_reverse.mpr hc)
      simp at this
    | some d =>
      have hd := List.mem_reverse.mp (List.mem_of_find?_eq_some hfind)
      have hid : d.cycle = c.cycle := by simpa using List.find?_some hfind
      rw [List.inj_on_of_nodup_map hdistinct hd hc hid]

/-- The fallback for years asks for the shortest prefix once more. -/
theorem extractCycleMatch_eq : extractCycleMatch isDecimal version cycles =
    longestFound (fun p => cycleNamed cycles (".".intercalate p))
      (versionParts isDecimal version.toList) := by
  have hprefixes : (versionPrefixes (versionParts isDecimal version.toList)).findSome?
      (cycleNamed cycles) = longestFound (fun p => cycleNamed cycles (".".intercalate p))
        (versionParts isDecimal version.toList) := by
    unfold versionPrefixes longestFound prefixes
    rw [← List.map_reverse, ← List.map_reverse, List.findSome?_map, List.findSome?_map]
    rfl
  unfold extractCycleMatch
  dsimp only
  rw [hprefixes]
  cases hfound : longestFound (fun p => cycleNamed cycles (".".intercalate p))
      (versionParts isDecimal version.toList) with
  | some found => rfl
  | none =>
    dsimp only
    cases hparts : versionParts isDecimal version.toList with
    | nil => rfl
    | cons year rest =>
      have hyear := longestFound_eq_none_iff.mp hfound [year] (List.cons_ne_nil year [])
        (by rw [hparts]; exact List.prefix_append [year] rest)
      rw [String.intercalate_singleton] at hyear
      show (if year.length = 4 then cycleNamed cycles year else none) = none
      split
      · exact hyear
      · rfl

theorem FirstNumber.no_dots (hdot : isDecimal '.' = false) {cs : List Char}
    (h : FirstNumber isDecimal cs parts) : ∀ q ∈ parts, '.' ∉ q.toList := by
  cases h with
  | none h => exact List.forall_mem_nil _
  | found hbefore hnumber hstops =>
    intro q hq hmem
    rw [(hnumber.digits q hq).2 '.' hmem] at hdot
    cases hdot

theorem found_iff (hdot : isDecimal '.' = false)
    (hdistinct : (cycles.map EOLCycle.cycle).Nodup) {cs : List Char}
    (hparts : FirstNumber isDecimal cs parts) (hp : p <+: parts) (hne : p ≠ []) :
    cycleNamed cycles (".".intercalate p) = some c ↔ c ∈ cycles ∧ cycleParts c = p := by
  rw [cycleNamed_eq_some_iff hdistinct,
    cycleParts_eq_iff hne fun q hq => hparts.no_dots hdot q (hp.subset hq)]

theorem extractCycleMatch_eq_some_iff (hdot : isDecimal '.' = false)
    (hdistinct : (cycles.map EOLCycle.cycle).Nodup)
    (hparts : FirstNumber isDecimal version.toList parts) :
    extractCycleMatch isDecimal version cycles = some c ↔
      c ∈ cycles ∧ cycleParts c <+: parts ∧
        ∀ d ∈ cycles, cycleParts d <+: parts → (cycleParts d).length ≤ (cycleParts c).length := by
  rw [extractCycleMatch_eq, hparts.versionParts_eq hdot, longestFound_eq_some_iff]
  constructor
  · rintro ⟨p, hne, hp, hfound, hlongest⟩
    obtain ⟨hc, rfl⟩ := (found_iff hdot hdistinct hparts hp hne).mp hfound
    refine ⟨hc, hp, fun d hd hprefix => Nat.le_of_not_lt fun hlt => ?_⟩
    have hnone := hlongest (cycleParts d) hprefix hlt
    rw [(found_iff hdot hdistinct hparts hprefix (cycleParts_ne_nil d)).mpr ⟨hd, rfl⟩] at hnone
    cases hnone
  · rintro ⟨hc, hprefix, hlongest⟩
    refine ⟨cycleParts c, cycleParts_ne_nil c, hprefix,
      (found_iff hdot hdistinct hparts hprefix (cycleParts_ne_nil c)).mpr ⟨hc, rfl⟩, ?_⟩
    intro q hq hlt
    rw [Option.eq_none_iff_forall_ne_some]
    intro d hd
    have hne : q ≠ [] := fun h => by rw [h] at hlt; exact Nat.not_lt_zero _ hlt
    obtain ⟨hmem, rfl⟩ := (found_iff hdot hdistinct hparts hq hne).mp hd
    exact absurd (hlongest d hmem hq) (Nat.not_le_of_lt hlt)

theorem extractCycleMatch_eq_none_iff (hdot : isDecimal '.' = false)
    (hdistinct : (cycles.map EOLCycle.cycle).Nodup)
    (hparts : FirstNumber isDecimal version.toList parts) :
    extractCycleMatch isDecimal version cycles = none ↔ ∀ c ∈ cycles, ¬cycleParts c <+: parts := by
  rw [extractCycleMatch_eq, hparts.versionParts_eq hdot, longestFound_eq_none_iff]
  constructor
  · intro hnone c hc hprefix
    have h := hnone (cycleParts c) (cycleParts_ne_nil c) hprefix
    rw [(found_iff hdot hdistinct hparts hprefix (cycleParts_ne_nil c)).mpr ⟨hc, rfl⟩] at h
    cases h
  · intro hnone q hne hq
    rw [Option.eq_none_iff_forall_ne_some]
    intro d hd
    obtain ⟨hmem, rfl⟩ := (found_iff hdot hdistinct hparts hq hne).mp hd
    exact hnone d hmem hq

def appended (version : String) (more : List String) : String :=
  version ++ String.join (more.map ("." ++ ·))

theorem toList_appended (version : String) (more : List String) :
    (appended version more).toList = version.toList ++ more.flatMap fun p => '.' :: p.toList := by
  unfold appended
  rw [String.toList_append, String.toList_join, List.flatMap_map]
  simp

theorem FirstNumber.appended (hdot : isDecimal '.' = false) {more : List String}
    (hmore : ∀ p ∈ more, p ≠ "" ∧ ∀ c ∈ p.toList, isDecimal c = true)
    (h : FirstNumber isDecimal version.toList parts) :
    ∃ parts', parts <+: parts' ∧ FirstNumber isDecimal (appended version more).toList parts' := by
  rw [toList_appended]
  generalize version.toList = cs at h ⊢
  cases h with
  | none h =>
    obtain ⟨parts', hparts'⟩ := exists_firstNumber isDecimal
      (cs ++ more.flatMap fun p => '.' :: p.toList)
    exact ⟨parts', List.nil_prefix, hparts'⟩
  | @found before after _ hbefore hnumber hstops =>
    cases after with
    | nil =>
      refine ⟨parts ++ more, List.prefix_append parts more, ?_⟩
      obtain ⟨part, rest, rfl⟩ := List.exists_cons_of_ne_nil hnumber.ne_nil
      have htext : before ++ (".".intercalate (part :: rest)).toList ++ [] ++
          more.flatMap (fun p => '.' :: p.toList) =
            before ++ (".".intercalate (part :: rest ++ more)).toList ++ [] := by
        rw [List.cons_append, toList_intercalate_cons, toList_intercalate_cons]
        simp
      rw [htext]
      refine .found hbefore ⟨List.cons_ne_nil _ _, fun p hp => ?_⟩ hstops
      rcases List.mem_append.mp hp with hp | hp
      · exact hnumber.digits p hp
      · exact hmore p hp
    | cons c rest =>
      refine ⟨parts, List.prefix_rfl, ?_⟩
      rw [List.append_assoc]
      refine .found hbefore hnumber ⟨hstops.1, fun hc d hd => ?_⟩
      cases rest with
      | nil =>
        have hnone : Stops isDecimal [] := trivial
        exact head_more more hdot hnone d (by rwa [List.append_nil])
      | cons e rest => exact hstops.2 hc d hd

/-- A version is in the cycle whose identifier is the longest prefix of its parts, in none where no
identifier is a prefix, and with more components never in a less specific one. -/
theorem extractCycleMatch_mostSpecific (isDecimal : Char → Bool) (hdot : isDecimal '.' = false)
    (version : String) (cycles : List EOLCycle)
    (hdistinct : (cycles.map EOLCycle.cycle).Nodup) :
    ∃ parts, FirstNumber isDecimal version.toList parts ∧
      (∀ c, extractCycleMatch isDecimal version cycles = some c ↔
        c ∈ cycles ∧ cycleParts c <+: parts ∧
          ∀ d ∈ cycles, cycleParts d <+: parts →
            (cycleParts d).length ≤ (cycleParts c).length) ∧
      (extractCycleMatch isDecimal version cycles = none ↔
        ∀ c ∈ cycles, ¬cycleParts c <+: parts) ∧
      ∀ more, (∀ p ∈ more, p ≠ "" ∧ ∀ c ∈ p.toList, isDecimal c = true) →
        ∀ c, extractCycleMatch isDecimal version cycles = some c →
          ∃ d, extractCycleMatch isDecimal (appended version more) cycles = some d ∧
            cycleParts c <+: cycleParts d := by
  obtain ⟨parts, hparts⟩ := exists_firstNumber isDecimal version.toList
  refine ⟨parts, hparts, fun c => extractCycleMatch_eq_some_iff hdot hdistinct hparts,
    extractCycleMatch_eq_none_iff hdot hdistinct hparts, fun more hmore c hc => ?_⟩
  obtain ⟨parts', hprefix, hparts'⟩ := hparts.appended hdot hmore
  rw [extractCycleMatch_eq, hparts.versionParts_eq hdot] at hc
  obtain ⟨p, q, d, hne, hpq, hqparts, hp, hq, hd⟩ := longestFound_mono hprefix hc
  have hqne : q ≠ [] := fun h => hne (List.prefix_nil.mp (h ▸ hpq))
  refine ⟨d, ?_, ?_⟩
  · rw [extractCycleMatch_eq, hparts'.versionParts_eq hdot, hd]
  · rw [((found_iff hdot hdistinct hparts' (hpq.trans hqparts) hne).mp hp).2,
      ((found_iff hdot hdistinct hparts' hqparts hqne).mp hq).2]
    exact hpq

/-- The version 3.10.2 is in the cycle 3 and not in 3.1. -/
theorem threeTen_mostSpecific :
    (∃ parts, FirstNumber Char.isDigit "3.10.2".toList parts ∧
      ∀ c, extractCycleMatch Char.isDigit "3.10.2" [{ cycle := "3.1" }, { cycle := "3" }] =
          some c ↔
        c ∈ [{ cycle := "3.1" }, ({ cycle := "3" } : EOLCycle)] ∧ cycleParts c <+: parts ∧
          ∀ d ∈ [{ cycle := "3.1" }, ({ cycle := "3" } : EOLCycle)], cycleParts d <+: parts →
            (cycleParts d).length ≤ (cycleParts c).length) ∧
      extractCycleMatch Char.isDigit "3.10.2" [{ cycle := "3.1" }, { cycle := "3" }] =
        some { cycle := "3" } := by
  obtain ⟨parts, hparts, hsome, -, -⟩ := extractCycleMatch_mostSpecific Char.isDigit rfl "3.10.2"
    [{ cycle := "3.1" }, { cycle := "3" }] (by decide)
  exact ⟨⟨parts, hparts, hsome⟩, by decide⟩

end Cycles

end Sentora.Eol
