import Mathlib.Data.Bool.AllAny
import Mathlib.Data.List.Chain
import Sentora.Lib.Casing
import Sentora.Sync.Documents

/-!
# Forms of application names

What `normalize_app_name` of `domains/sync/normalizer.py` makes of a name with its version, of a
name with registered and copyright symbols, and of its own results.
-/

namespace Sentora.Sync

open Lib

/-- The compatibility decompositions and the cases of characters. -/
structure CharData extends Casing where
  decompose : Char → List Char

/-- A character that the decomposition and the lower case leave alone. -/
structure Stable (py : Python) (u : CharData) (c : Char) : Prop where
  decompose : u.decompose c = [c]
  combining : py.combining c = false
  ne_sigma : c ≠ 'Σ'
  lower : u.lowerChar c = [c]

/-- The functions of Python follow the data.  A decomposition moves nothing but combining
characters, and what is decomposed and in lower case stays as it is. -/
structure Follows (py : Python) (u : CharData) : Prop where
  nfkd : ∀ s, (py.nfkd s).toList.filter (fun c => !py.combining c) =
    s.toList.flatMap fun c => (u.decompose c).filter fun c => !py.combining c
  lower : ∀ s, (py.lower s).toList = u.lowerText s.toList
  stable : ∀ c, ∀ d ∈ u.decompose c, py.combining d = false → d ≠ 'Σ' →
    ∀ e ∈ u.lowerChar d, Stable py u e
  sigma : Stable py u 'σ' ∧ Stable py u 'ς'
  ascii : ∀ c, c.toNat < 128 → c.isUpper = false → Stable py u c
  symbol : ∀ c ∈ ['®', '©'], Stable py u c
  space : py.isSpace ' ' = true
  printed : ∀ c, c.isDigit = true ∨ c ∈ ['.', '-'] → py.isSpace c = false

section Forms

variable (py : Python)

def cleaned (name : String) : List Char :=
  let plain := (py.nfkd name).toList.filter fun c => !py.combining c
  let lower := (py.lower (String.ofList plain)).toList.filter fun c => c ∉ ['™', '®', '©']
  strip py (collapseSpaces py lower)

def cutVersion (name : List Char) (version : String) : String :=
  let suffixes := [" - ", " "].map fun sep =>
    (sep ++ py.lower (String.ofList (strip py version.toList))).toList
  let found := if version = "" then none else suffixes.find? fun s => s.isSuffixOf name
  match found with
  | some suffix =>
    let kept := name.take (name.length - suffix.length)
    String.ofList (strip py ((kept.reverse.dropWhile fun c => c ∈ [' ', '-', '(']).reverse))
  | none => String.ofList (strip py (stripVersionSuffix py name))

theorem normalizeAppName_eq {name version : String} :
    normalizeAppName py name version = cutVersion py (cleaned py name) version := rfl

def EndsInVersion (name : String) : Prop :=
  ∃ before suffix, name.toList = before ++ suffix ∧ isVersionSuffix py suffix = true

/-- Registered and copyright symbols are inserted. -/
inductive Inserted : List Char → List Char → Prop where
  | nil : Inserted [] []
  | keep {s t : List Char} (c : Char) (h : Inserted s t) : Inserted (c :: s) (c :: t)
  | insert {s t : List Char} (c : Char) (hc : c ∈ ['®', '©']) (h : Inserted s t) :
    Inserted s (c :: t)

end Forms

section Blanks

variable {py : Python} {cs before after : List Char}

structure SingleSpaced (py : Python) (cs : List Char) : Prop where
  space : ∀ c ∈ cs, py.isSpace c = true → c = ' '
  single : cs.IsChain fun a b => ¬(a = ' ' ∧ b = ' ')

/-- No blank at the ends. -/
structure Stripped (py : Python) (cs : List Char) : Prop where
  head : ∀ c ∈ cs.head?, py.isSpace c = false
  last : ∀ c ∈ cs.getLast?, py.isSpace c = false

theorem collapseSpaces_char {c : Char} (hc : py.isSpace c = false) :
    collapseSpaces py (c :: cs) = c :: collapseSpaces py cs := by
  rw [collapseSpaces, hc]

variable (cs) in
theorem collapseSpaces_blank {c : Char} (hc : py.isSpace c = true) :
    (collapseSpaces py (c :: cs) = collapseSpaces py cs ∧
        (collapseSpaces py cs).head? = some ' ') ∨
      (collapseSpaces py (c :: cs) = ' ' :: collapseSpaces py cs ∧
        ∀ d ∈ (collapseSpaces py cs).head?, d ≠ ' ') := by
  rw [collapseSpaces, hc]
  cases hcollapsed : collapseSpaces py cs with
  | nil => exact Or.inr ⟨rfl, fun _ h => nomatch h⟩
  | cons d rest =>
    by_cases hd : d = ' '
    · rw [hd]
      exact Or.inl ⟨rfl, rfl⟩
    · refine Or.inr ⟨?_, fun e he => Option.some.inj he ▸ hd⟩
      split
      · contradiction
      · rename_i heq
        exact absurd (List.cons.inj heq).1 hd
      · rfl

variable (cs) in
theorem collapseSpaces_spec (hspace : py.isSpace ' ' = true) :
    SingleSpaced py (collapseSpaces py cs) ∧
      ∀ c ∈ collapseSpaces py cs, c = ' ' ∨ c ∈ cs := by
  induction cs with
  | nil => exact ⟨⟨fun _ h => (nomatch h), .nil⟩, fun _ h => nomatch h⟩
  | cons c cs ih =>
    obtain ⟨⟨hblank, hchain⟩, hmem⟩ := ih
    have hrest : ∀ d ∈ collapseSpaces py cs, d = ' ' ∨ d ∈ c :: cs :=
      fun d hd => (hmem d hd).imp_right (List.mem_cons_of_mem c)
    cases hc : py.isSpace c with
    | false =>
      have hne : c ≠ ' ' := by
        rintro rfl
        rw [hspace] at hc
        cases hc
      rw [collapseSpaces_char hc]
      refine ⟨⟨List.forall_mem_cons.mpr ⟨fun h => ?_, hblank⟩, ?_⟩,
        List.forall_mem_cons.mpr ⟨Or.inr List.mem_cons_self, hrest⟩⟩
      · rw [hc] at h
        cases h
      · exact List.isChain_cons.mpr ⟨fun d _ h => hne h.1, hchain⟩
    | true =>
      rcases collapseSpaces_blank cs hc with ⟨heq, -⟩ | ⟨heq, hhead⟩
      · rw [heq]
        exact ⟨⟨hblank, hchain⟩, hrest⟩
      · rw [heq]
        refine ⟨⟨List.forall_mem_cons.mpr ⟨fun _ => rfl, hblank⟩, ?_⟩,
          List.forall_mem_cons.mpr ⟨Or.inl rfl, hrest⟩⟩
        exact List.isChain_cons.mpr ⟨fun d hd h => hhead d hd h.2, hchain⟩

theorem SingleSpaced.collapseSpaces_eq (h : SingleSpaced py cs) : collapseSpaces py cs = cs := by
  induction cs with
  | nil => rfl
  | cons c cs ih =>
    obtain ⟨hspace, hsingle⟩ := h
    obtain ⟨hc, hcs⟩ := List.forall_mem_cons.mp hspace
    have hrest := ih ⟨hcs, hsingle.tail⟩
    cases hblank : py.isSpace c with
    | false => rw [collapseSpaces_char hblank, hrest]
    | true =>
      rcases collapseSpaces_blank cs hblank with ⟨-, hhead⟩ | ⟨heq, -⟩
      · rw [hrest] at hhead
        exact absurd ⟨hc hblank, rfl⟩ ((List.isChain_cons.mp hsingle).1 ' ' hhead)
      · rw [heq, hrest, hc hblank]

theorem SingleSpaced.infix (h : SingleSpaced py cs) {part : List Char} (hpart : part <:+: cs) :
    SingleSpaced py part :=
  ⟨fun c hc => h.space c (hpart.subset hc), h.single.infix hpart⟩

theorem strip_isInfix (py : Python) (cs : List Char) : strip py cs <:+: cs := by
  rw [strip]
  have hleft : cs.dropWhile py.isSpace <:+ cs := List.dropWhile_suffix _
  have hright : (((cs.dropWhile py.isSpace).reverse).dropWhile py.isSpace).reverse <+:
      cs.dropWhile py.isSpace := by
    rw [← List.reverse_suffix, List.reverse_reverse]
    exact List.dropWhile_suffix _
  exact hright.isInfix.trans hleft.isInfix

theorem Stripped.strip_eq (h : Stripped py cs) : strip py cs = cs := by
  have hleft : cs.dropWhile py.isSpace = cs := by
    cases cs with
    | nil => rfl
    | cons c cs => exact List.dropWhile_cons_of_neg (by rw [h.head c rfl]; exact Bool.false_ne_true)
  have hright : cs.reverse.dropWhile py.isSpace = cs.reverse := by
    cases hcs : cs.reverse with
    | nil => rfl
    | cons c rest =>
      have hlast := h.last c (by rw [← List.head?_reverse, hcs]; rfl)
      exact List.dropWhile_cons_of_neg (by rw [hlast]; exact Bool.false_ne_true)
  rw [strip, hleft, hright, List.reverse_reverse]

theorem stripped_strip : Stripped py (strip py cs) := by
  have hdrop : ∀ l : List Char, ∀ c ∈ (l.dropWhile py.isSpace).head?, py.isSpace c = false := by
    intro l c hc
    have hnot := List.head?_dropWhile_not py.isSpace l
    rw [Option.mem_def] at hc
    rw [hc] at hnot
    simpa using hnot
  constructor
  · intro c hc
    obtain ⟨gone, hgone⟩ : strip py cs <+: cs.dropWhile py.isSpace := by
      rw [strip, ← List.reverse_suffix, List.reverse_reverse]
      exact List.dropWhile_suffix _
    refine hdrop cs c ?_
    rw [← hgone, List.head?_append, Option.mem_def.mp hc]
    rfl
  · intro c hc
    rw [strip, List.getLast?_reverse] at hc
    exact hdrop _ c hc

end Blanks

section Names

variable {py : Python} {u : CharData} {cs : List Char} {name version : String}

/-- What a normalised name is before its version is looked at again. -/
structure Normal (py : Python) (u : CharData) (cs : List Char) : Prop where
  stable : ∀ c ∈ cs, Stable py u c
  plain : ∀ c ∈ cs, c ∉ ['™', '®', '©']
  spaced : SingleSpaced py cs

theorem Normal.part (h : Normal py u cs) {part : List Char} (hpart : part <:+: cs) :
    Normal py u part :=
  ⟨fun c hc => h.stable c (hpart.subset hc), fun c hc => h.plain c (hpart.subset hc),
    h.spaced.infix hpart⟩

theorem stable_space (h : Follows py u) : Stable py u ' ' := h.ascii ' ' (by decide) rfl

theorem stable_lower (h : Follows py u) {c : Char}
    (hc : c ∈ (py.lower (String.ofList ((py.nfkd name).toList.filter
      fun c => !py.combining c))).toList) : Stable py u c := by
  rw [h.lower, String.toList_ofList, h.nfkd] at hc
  rcases Casing.mem_lowerFrom hc with rfl | rfl | ⟨d, hd, hsigma, hc⟩
  · exact h.sigma.1
  · exact h.sigma.2
  · obtain ⟨source, -, hd⟩ := List.mem_flatMap.mp hd
    obtain ⟨hd, hcombining⟩ := List.mem_filter.mp hd
    exact h.stable source d hd (by simpa using hcombining) hsigma c hc

theorem normal_cleaned (h : Follows py u) : Normal py u (cleaned py name) := by
  have hcollapsed := fun l => collapseSpaces_spec l h.space
  refine Normal.part ⟨?_, ?_, (hcollapsed _).1⟩ (strip_isInfix py _)
  · intro c hc
    rcases (hcollapsed _).2 c hc with rfl | hc
    · exact stable_space h
    · exact stable_lower h (List.mem_of_mem_filter hc)
  · intro c hc
    rcases (hcollapsed _).2 c hc with rfl | hc
    · decide
    · exact of_decide_eq_true (List.mem_filter.mp hc).2

theorem cleaned_of_normal (h : Follows py u) (hnormal : Normal py u name.toList)
    (hstripped : Stripped py name.toList) : cleaned py name = name.toList := by
  have hplain : (py.nfkd name).toList.filter (fun c => !py.combining c) = name.toList := by
    rw [h.nfkd]
    calc (name.toList.flatMap fun c => (u.decompose c).filter fun c => !py.combining c)
        = name.toList.flatMap fun c => [c] := by
          refine List.flatMap_congr fun c hc => ?_
          have hstable := hnormal.stable c hc
          rw [hstable.decompose, List.filter_cons_of_pos (by rw [hstable.combining]; rfl)]
          rfl
      _ = name.toList := List.flatMap_singleton' _
  have hlower : (py.lower name).toList = name.toList := by
    rw [h.lower]
    exact Casing.lowerText_of_fixed fun c hc =>
      ⟨(hnormal.stable c hc).ne_sigma, (hnormal.stable c hc).lower⟩
  have hsymbols : name.toList.filter (fun c => c ∉ ['™', '®', '©']) = name.toList :=
    List.filter_eq_self.mpr fun c hc => decide_eq_true (hnormal.plain c hc)
  rw [cleaned, hplain, String.ofList_toList, hlower, hsymbols, hnormal.spaced.collapseSpaces_eq,
    hstripped.strip_eq]

theorem stripVersionSuffix_prefix : stripVersionSuffix py cs <+: cs := by
  induction cs with
  | nil => exact List.prefix_refl _
  | cons c cs ih =>
    rw [stripVersionSuffix]
    split
    · exact List.nil_prefix
    · exact List.cons_prefix_cons.mpr ⟨rfl, ih⟩

theorem cutVersion_part (py : Python) (cs : List Char) (version : String) : ∃ part, part <:+: cs ∧
    (cutVersion py cs version).toList = strip py part := by
  rw [cutVersion]
  dsimp only
  split
  · rename_i suffix _
    refine ⟨_, ?_, String.toList_ofList⟩
    have hkept : ((cs.take (cs.length - suffix.length)).reverse.dropWhile
        fun c => c ∈ [' ', '-', '(']).reverse <+: cs.take (cs.length - suffix.length) := by
      rw [← List.reverse_suffix, List.reverse_reverse]
      exact List.dropWhile_suffix _
    exact (hkept.trans (List.take_prefix _ _)).isInfix
  · exact ⟨_, stripVersionSuffix_prefix.isInfix, String.toList_ofList⟩

variable (name version) in
theorem normal_normalizeAppName (h : Follows py u) :
    Normal py u (normalizeAppName py name version).toList ∧
      Stripped py (normalizeAppName py name version).toList := by
  obtain ⟨part, hpart, heq⟩ := cutVersion_part py (cleaned py name) version
  rw [normalizeAppName_eq, heq]
  exact ⟨Normal.part (normal_cleaned h) ((strip_isInfix py part).trans hpart), stripped_strip⟩

theorem stripVersionSuffix_eq_self_iff :
    stripVersionSuffix py cs = cs ↔
      ∀ before suffix, cs = before ++ suffix → isVersionSuffix py suffix = false := by
  induction cs with
  | nil =>
    refine iff_of_true rfl fun before suffix heq => ?_
    rw [(List.append_eq_nil_iff.mp heq.symm).2]
    rfl
  | cons c cs ih =>
    rw [stripVersionSuffix]
    cases hversion : isVersionSuffix py (c :: cs) with
    | true =>
      rw [if_pos rfl]
      refine iff_of_false (List.cons_ne_nil _ _).symm fun hall => ?_
      rw [hall [] (c :: cs) rfl] at hversion
      cases hversion
    | false =>
      rw [if_neg Bool.false_ne_true, List.cons_inj_right, ih]
      constructor
      · intro hall before suffix heq
        cases before with
        | nil =>
          rw [List.nil_append] at heq
          rwa [← heq]
        | cons d before => exact hall before suffix (List.cons.inj heq).2
      · intro hall before suffix heq
        exact hall (c :: before) suffix (congrArg (c :: ·) heq)

theorem normalizeAppName_normal_iff (h : Follows py u) (hnormal : Normal py u name.toList)
    (hstripped : Stripped py name.toList) :
    normalizeAppName py name "" = name ↔ ¬EndsInVersion py name := by
  have hcut : normalizeAppName py name "" =
      String.ofList (strip py (stripVersionSuffix py name.toList)) := by
    rw [normalizeAppName_eq, cleaned_of_normal h hnormal hstripped]
    rfl
  have hself : stripVersionSuffix py name.toList = name.toList ↔ ¬EndsInVersion py name := by
    rw [stripVersionSuffix_eq_self_iff, EndsInVersion]
    constructor
    · rintro hall ⟨before, suffix, heq, hversion⟩
      rw [hall before suffix heq] at hversion
      cases hversion
    · intro hnot before suffix heq
      cases hversion : isVersionSuffix py suffix with
      | false => rfl
      | true => exact absurd ⟨before, suffix, heq, hversion⟩ hnot
  rw [hcut, ← hself]
  constructor
  · intro heq
    have hchars := congrArg String.toList heq
    rw [String.toList_ofList] at hchars
    have hlength := (strip_isInfix py (stripVersionSuffix py name.toList)).length_le
    rw [hchars] at hlength
    exact stripVersionSuffix_prefix.eq_of_length_le hlength
  · intro heq
    rw [heq, hstripped.strip_eq, String.ofList_toList]

theorem Inserted.filter_flatMap (h : Follows py u) {s t : List Char} (hinsert : Inserted s t) :
    (t.flatMap fun c => (u.decompose c).filter fun c => !py.combining c).filter
        (fun c => c ∉ ['®', '©']) =
      (s.flatMap fun c => (u.decompose c).filter fun c => !py.combining c).filter
        fun c => c ∉ ['®', '©'] := by
  induction hinsert with
  | nil => rfl
  | keep c _ ih => rw [List.flatMap_cons, List.flatMap_cons, List.filter_append,
      List.filter_append, ih]
  | insert c hc _ ih =>
    have hstable := h.symbol c hc
    rw [List.flatMap_cons, List.filter_append, ih, hstable.decompose,
      List.filter_cons_of_pos (by rw [hstable.combining]; rfl), List.filter_nil,
      List.filter_cons_of_neg (by rw [decide_eq_true_iff]; exact not_not.mpr hc), List.filter_nil,
      List.nil_append]

theorem cleaned_inserted (h : Follows py u) {name' : String}
    (hinsert : Inserted name.toList name'.toList)
    (hsigmas : u.finalSigmas ((py.nfkd name').toList.filter fun c => !py.combining c) =
      u.finalSigmas ((py.nfkd name).toList.filter fun c => !py.combining c)) :
    cleaned py name' = cleaned py name := by
  have hkeep : ∀ c, decide (c ∉ ['®', '©']) = false →
      c ≠ 'Σ' ∧ ∀ d ∈ u.lowerChar c, decide (d ∉ ['®', '©']) = false := by
    intro c hc
    have hmem : c ∈ ['®', '©'] := not_not.mp (of_decide_eq_false hc)
    refine ⟨(h.symbol c hmem).ne_sigma, fun d hd => ?_⟩
    rw [(h.symbol c hmem).lower, List.mem_singleton] at hd
    rw [hd]
    exact hc
  have hfilter : ∀ l : List Char, l.filter (fun c => c ∉ ['™', '®', '©']) =
      (l.filter fun c => c ∉ ['®', '©']).filter fun c => c ≠ '™' := by
    intro l
    rw [List.filter_filter]
    refine List.filter_congr fun c _ => ?_
    simp [not_or]
  have hplain : ((py.nfkd name').toList.filter fun c => !py.combining c).filter
      (fun c => c ∉ ['®', '©']) = ((py.nfkd name).toList.filter fun c => !py.combining c).filter
        fun c => c ∉ ['®', '©'] := by
    rw [h.nfkd, h.nfkd]
    exact hinsert.filter_flatMap h
  rw [cleaned, cleaned, h.lower, h.lower, String.toList_ofList, String.toList_ofList,
    hfilter, hfilter,
    Casing.filter_lowerText_eq hkeep hplain hsigmas]

/-- A text of digits and dots. -/
def IsVersion (version : String) : Prop :=
  version ≠ "" ∧ ∀ c ∈ version.toList, c.isDigit = true ∨ c = '.'

theorem IsVersion.char (h : IsVersion version) {c : Char} (hc : c ∈ version.toList) :
    c.toNat < 128 ∧ c.isUpper = false ∧ c ≠ ' ' := by
  rcases h.2 c hc with hdigit | rfl
  · rw [Char.isDigit, Bool.and_eq_true, decide_eq_true_iff, decide_eq_true_iff] at hdigit
    have hlow : 48 ≤ c.toNat := hdigit.1
    have hhigh : c.toNat ≤ 57 := hdigit.2
    refine ⟨by omega, ?_, ?_⟩
    · unfold Char.isUpper
      rw [decide_eq_false_iff_not]
      intro hupper
      have hge : 65 ≤ c.toNat := hupper.1
      omega
    · rintro rfl
      exact absurd hlow (by decide)
  · decide

theorem IsVersion.not_space (h : IsVersion version) (hpy : Follows py u) {c : Char}
    (hc : c ∈ version.toList) : py.isSpace c = false := by
  refine hpy.printed c ((h.2 c hc).imp_right fun hdot => ?_)
  rw [hdot]
  exact List.mem_cons_self

theorem IsVersion.stripped (h : IsVersion version) (hpy : Follows py u) :
    Stripped py version.toList :=
  ⟨fun _ hc => h.not_space hpy (List.mem_of_mem_head? hc),
    fun _ hc => h.not_space hpy (List.mem_of_mem_getLast? hc)⟩

theorem IsVersion.lower_eq (h : IsVersion version) (hpy : Follows py u) :
    py.lower (String.ofList (strip py version.toList)) = version := by
  rw [(h.stripped hpy).strip_eq, String.ofList_toList, ← String.toList_inj, hpy.lower]
  refine Casing.lowerText_of_fixed fun c hc => ?_
  have hstable := hpy.ascii c (h.char hc).1 (h.char hc).2.1
  exact ⟨hstable.ne_sigma, hstable.lower⟩

theorem IsVersion.normal (h : IsVersion version) (hpy : Follows py u) :
    Normal py u version.toList where
  stable c hc := hpy.ascii c (h.char hc).1 (h.char hc).2.1
  plain c hc := by
    have hlt := (h.char hc).1
    intro hmem
    rw [List.mem_cons, List.mem_cons, List.mem_singleton] at hmem
    rcases hmem with rfl | rfl | rfl
    · exact absurd hlt (by decide)
    · exact absurd hlt (by decide)
    · exact absurd hlt (by decide)
  spaced := by
    refine ⟨fun c hc hspace => ?_, ?_⟩
    · rw [h.not_space hpy hc] at hspace
      cases hspace
    · refine List.Pairwise.isChain (List.pairwise_of_forall_mem_list fun a ha b _ hab => ?_)
      exact (h.char ha).2.2 hab.1

theorem Normal.append {ds : List Char} (hcs : Normal py u cs) (hds : Normal py u ds)
    (hbetween : ∀ a ∈ cs.getLast?, ∀ b ∈ ds.head?, ¬(a = ' ' ∧ b = ' ')) :
    Normal py u (cs ++ ds) where
  stable := List.forall_mem_append.mpr ⟨hcs.stable, hds.stable⟩
  plain := List.forall_mem_append.mpr ⟨hcs.plain, hds.plain⟩
  spaced := ⟨List.forall_mem_append.mpr ⟨hcs.spaced.space, hds.spaced.space⟩,
    List.isChain_append.mpr ⟨hcs.spaced.single, hds.spaced.single, hbetween⟩⟩

theorem toList_separator {sep : String} (hsep : sep ∈ [" ", " - "]) :
    sep.toList = [' '] ∨ sep.toList = [' ', '-', ' '] := by
  rw [List.mem_pair] at hsep
  rcases hsep with rfl | rfl
  · exact Or.inl rfl
  · exact Or.inr rfl

theorem normal_separator (h : Follows py u) (hcs : cs = [' '] ∨ cs = [' ', '-', ' ']) :
    Normal py u cs := by
  have hchars : ∀ c ∈ cs, c = ' ' ∨ c = '-' := by
    rcases hcs with rfl | rfl
    · simp
    · simp
  refine ⟨fun c hc => ?_, fun c hc => ?_, fun c hc hspace => ?_, ?_⟩
  · rcases hchars c hc with rfl | rfl
    · exact stable_space h
    · exact h.ascii '-' (by decide) rfl
  · rcases hchars c hc with rfl | rfl
    · decide
    · decide
  · rcases hchars c hc with rfl | rfl
    · rfl
    · rw [h.printed '-' (Or.inr (by decide))] at hspace
      cases hspace
  · rcases hcs with rfl | rfl
    · simp
    · simp

theorem cleaned_versioned (h : Follows py u) {base sep : String}
    (hnormal : Normal py u base.toList) (hstripped : Stripped py base.toList)
    (hbase : base ≠ "") (hversion : IsVersion version) (hsep : sep ∈ [" ", " - "]) :
    cleaned py (base ++ sep ++ version) = base.toList ++ sep.toList ++ version.toList := by
  have hlast : ∀ c ∈ base.toList.getLast?, c ≠ ' ' := by
    rintro c hc rfl
    have hblank := hstripped.last ' ' hc
    rw [h.space] at hblank
    cases hblank
  have hfirst : ∀ c ∈ version.toList.head?, c ≠ ' ' :=
    fun c hc => (hversion.char (List.mem_of_mem_head? hc)).2.2
  have hbasene : base.toList ≠ [] := fun hnil => hbase (String.toList_eq_nil_iff.mp hnil)
  have hversionne : version.toList ≠ [] :=
    fun hnil => hversion.1 (String.toList_eq_nil_iff.mp hnil)
  have hwhole : Normal py u (base.toList ++ sep.toList ++ version.toList) := by
    refine (hnormal.append (normal_separator h (toList_separator hsep)) ?_).append
      (hversion.normal h) ?_
    · exact fun a ha b _ hab => hlast a ha hab.1
    · exact fun a _ b hb hab => hfirst b hb hab.2
  have hends : Stripped py (base.toList ++ sep.toList ++ version.toList) := by
    constructor
    · intro c hc
      rw [List.append_assoc, List.head?_append_of_ne_nil _ hbasene] at hc
      exact hstripped.head c hc
    · intro c hc
      rw [List.getLast?_append_of_ne_nil _ hversionne] at hc
      exact (hversion.stripped h).last c hc
  have htext : (base ++ sep ++ version).toList =
      base.toList ++ sep.toList ++ version.toList := by
    rw [String.toList_append, String.toList_append]
  rw [← htext] at hwhole hends ⊢
  exact cleaned_of_normal h hwhole hends

theorem kept_eq (hstripped : Stripped py cs)
    (hlast : ∀ c ∈ cs.getLast?, c ∉ [' ', '-', '(']) {suffix : List Char} :
    strip py (((((cs ++ suffix).take ((cs ++ suffix).length - suffix.length)).reverse.dropWhile
      fun c => c ∈ [' ', '-', '('])).reverse) = cs := by
  have htake : (cs ++ suffix).take ((cs ++ suffix).length - suffix.length) = cs := by
    rw [List.length_append, Nat.add_sub_cancel, List.take_left]
  have hdrop : cs.reverse.dropWhile (fun c => c ∈ [' ', '-', '(']) = cs.reverse := by
    cases hcs : cs.reverse with
    | nil => rfl
    | cons c rest =>
      have hc := hlast c (by rw [← List.head?_reverse, hcs]; rfl)
      exact List.dropWhile_cons_of_neg (by rwa [decide_eq_true_iff])
  rw [htake, hdrop, List.reverse_reverse, hstripped.strip_eq]

/-- The longer separator is not found where the base name does not end in a hyphen. -/
theorem not_isSuffixOf_dash (hlast : ∀ c ∈ cs.getLast?, c ∉ [' ', '-', '(']) {ds : List Char} :
    ([' ', '-', ' '] ++ ds).isSuffixOf (cs ++ [' '] ++ ds) = false := by
  rw [Bool.eq_false_iff, ne_eq, List.isSuffixOf_iff_suffix]
  rintro ⟨before, heq⟩
  have hcs : before ++ [' ', '-'] = cs := by
    have hcancel : before ++ [' ', '-'] ++ ([' '] ++ ds) = cs ++ ([' '] ++ ds) := by
      rw [← List.append_assoc cs, ← heq]
      simp
    exact List.append_cancel_right hcancel
  refine hlast '-' ?_ (by decide)
  rw [← hcs]
  simp

theorem normalizeAppName_versioned (h : Follows py u) {base sep : String}
    (hbase : base ≠ "") (hfixed : normalizeAppName py base "" = base)
    (hlast : ∀ c ∈ base.toList.getLast?, c ∉ [' ', '-', '(']) (hversion : IsVersion version)
    (hsep : sep ∈ [" ", " - "]) :
    normalizeAppName py (base ++ sep ++ version) version = base := by
  obtain ⟨hnormal, hstripped⟩ := normal_normalizeAppName base "" h
  rw [hfixed] at hnormal hstripped
  have hsuffix : ∀ sep : String,
      (sep ++ py.lower (String.ofList (strip py version.toList))).toList =
      sep.toList ++ version.toList := fun sep => by
    rw [hversion.lower_eq h, String.toList_append]
  have hfound : ([" - ".toList ++ version.toList, " ".toList ++ version.toList].find? fun s =>
      s.isSuffixOf (base.toList ++ sep.toList ++ version.toList)) =
        some (sep.toList ++ version.toList) := by
    have hself : (sep.toList ++ version.toList).isSuffixOf
        (base.toList ++ sep.toList ++ version.toList) = true := by
      rw [List.isSuffixOf_iff_suffix, List.append_assoc]
      exact List.suffix_append _ _
    have hdash : " - ".toList = [' ', '-', ' '] := rfl
    rcases toList_separator hsep with heq | heq
    · rw [heq] at hself ⊢
      rw [List.find?_cons, hdash, not_isSuffixOf_dash hlast]
      exact List.find?_cons_of_pos hself
    · rw [heq] at hself ⊢
      exact List.find?_cons_of_pos hself
  rw [normalizeAppName_eq, cleaned_versioned h hnormal hstripped hbase hversion hsep, cutVersion,
    if_neg hversion.1, List.map_cons, List.map_cons, List.map_nil, hsuffix, hsuffix, hfound]
  dsimp only
  rw [List.append_assoc, kept_eq hstripped hlast, String.ofList_toList]

end Names

/-- A base name is what is left of it with its version.  Symbols in a name are not seen in the
result unless they change which capital sigmas end a word, and a result is normalised to itself
exactly where it does not end in a version again. -/
theorem normalizeAppName_forms (py : Python) (u : CharData) (h : Follows py u) :
    (∀ base sep version : String, base ≠ "" → normalizeAppName py base "" = base →
      (∀ c ∈ base.toList.getLast?, c ∉ [' ', '-', '(']) → IsVersion version →
      sep ∈ [" ", " - "] →
      normalizeAppName py (base ++ sep ++ version) version = base) ∧
    (∀ name name' version : String, Inserted name.toList name'.toList →
      u.finalSigmas ((py.nfkd name').toList.filter fun c => !py.combining c) =
        u.finalSigmas ((py.nfkd name).toList.filter fun c => !py.combining c) →
      normalizeAppName py name' version = normalizeAppName py name version) ∧
    ∀ name version : String,
      normalizeAppName py (normalizeAppName py name version) "" =
          normalizeAppName py name version ↔
        ¬EndsInVersion py (normalizeAppName py name version) := by
  refine ⟨?_, ?_, ?_⟩
  · intro base sep version hbase hfixed hlast hversion hsep
    exact normalizeAppName_versioned h hbase hfixed hlast hversion hsep
  · intro name name' version hinsert hsigmas
    rw [normalizeAppName_eq, normalizeAppName_eq, cleaned_inserted h hinsert hsigmas]
  · intro name version
    obtain ⟨hnormal, hstripped⟩ := normal_normalizeAppName name version h
    exact normalizeAppName_normal_iff h hnormal hstripped

/-- The letters of ASCII and a capital alpha and sigma with their lower case. -/
def sigmaData : CharData where
  cased c := c.isAlpha || c ∈ ['Α', 'Σ', 'α', 'σ', 'ς']
  ignorable c := c ∈ ['.', '\'', ':', '^']
  lowerChar c := if c.isUpper then [c.toLower] else if c = 'Α' then ['α'] else [c]
  decompose c := [c]

def sigmaPython : Python where
  uuid5 s := s
  lower s := String.ofList (sigmaData.lowerText s.toList)
  nfkd s := s
  combining _ := false
  isSpace c := c = ' '
  isDecimal := Char.isDigit
  isoformat := toString

theorem stable_sigmaPython {c : Char} (hupper : c.isUpper = false) (hgreek : c ∉ ['Α', 'Σ']) :
    Stable sigmaPython sigmaData c where
  decompose := rfl
  combining := rfl
  ne_sigma := fun heq => hgreek (List.mem_pair.mpr (Or.inr heq))
  lower := by
    show (if c.isUpper then [c.toLower] else if c = 'Α' then ['α'] else [c]) = [c]
    have halpha : c ≠ 'Α' := fun heq => hgreek (List.mem_pair.mpr (Or.inl heq))
    rw [if_neg (by rw [hupper]; exact Bool.false_ne_true), if_neg halpha]

theorem follows_sigmaPython : Follows sigmaPython sigmaData where
  nfkd s := by
    show s.toList.filter (fun _ => true) =
      s.toList.flatMap fun c => [c].filter fun _ => true
    rw [List.filter_true]
    exact (List.flatMap_singleton' _).symm
  lower s := String.toList_ofList
  stable c d _ _ hsigma e he := by
    have hletters : ∀ n < 128, (Char.ofNat n).isUpper = true →
        (Char.ofNat n).toLower.isUpper = false ∧ (Char.ofNat n).toLower ∉ ['Α', 'Σ'] := by
      decide +kernel
    change e ∈ (if d.isUpper then [d.toLower] else if d = 'Α' then ['α'] else [d]) at he
    by_cases hupper : d.isUpper = true
    · rw [if_pos hupper, List.mem_singleton] at he
      have hlt : d.toNat < 128 := by
        have hle : d.toNat ≤ 90 := (of_decide_eq_true hupper).2
        omega
      have hletter := hletters d.toNat hlt
      rw [Char.ofNat_toNat] at hletter
      rw [he]
      exact stable_sigmaPython (hletter hupper).1 (hletter hupper).2
    · rw [if_neg hupper] at he
      by_cases halpha : d = 'Α'
      · rw [if_pos halpha, List.mem_singleton] at he
        rw [he]
        exact stable_sigmaPython rfl (by decide)
      · rw [if_neg halpha, List.mem_singleton] at he
        rw [he]
        refine stable_sigmaPython (Bool.eq_false_iff.mpr hupper) fun hmem => ?_
        exact (List.mem_pair.mp hmem).elim halpha hsigma
  sigma := ⟨stable_sigmaPython rfl (by decide), stable_sigmaPython rfl (by decide)⟩
  ascii c hlt hupper := by
    refine stable_sigmaPython hupper fun hmem => ?_
    rcases List.mem_pair.mp hmem with rfl | rfl
    · exact absurd hlt (by decide)
    · exact absurd hlt (by decide)
  symbol c hc := by
    rcases List.mem_pair.mp hc with rfl | rfl
    · exact stable_sigmaPython rfl (by decide)
    · exact stable_sigmaPython rfl (by decide)
  space := rfl
  printed c hc := by
    refine decide_eq_false ?_
    rintro rfl
    exact absurd hc (by decide)

/-- A base name with its version, as it is synced. -/
theorem normalizeAppName_forms_reader :
    normalizeAppName sigmaPython "acrobat reader - 23.1.2" "23.1.2" = "acrobat reader" :=
  (normalizeAppName_forms sigmaPython sigmaData follows_sigmaPython).1 "acrobat reader" " - "
    "23.1.2" (by decide) (by decide +kernel) (fun c hc => by cases hc; decide)
    ⟨by decide, List.all_iff_forall_prop.mp (by decide)⟩ (by decide)

/-- A symbol behind a capital sigma changes its form, and of two versions one is cut off at a
time. -/
theorem normalizeAppName_not_canonical :
    normalizeAppName sigmaPython "ΑΣ®Α" "" = "αςα" ∧
      normalizeAppName sigmaPython "ΑΣΑ" "" = "ασα" ∧
      normalizeAppName sigmaPython "tool 1.2.3 4.5.6" "" = "tool 1.2.3" ∧
      normalizeAppName sigmaPython "tool 1.2.3" "" = "tool" := by
  decide +kernel

end Sentora.Sync
