import Mathlib.Algebra.Order.BigOperators.Group.List
import Sentora.Classification.Classifier
import Sentora.Enforcement.Meaning
import Sentora.Lib.Rounding
import Sentora.Lib.StableSort

/-!
# The order of fingerprints

What `classify_single_agent` makes of the same fingerprints in another order, where
scores are exact.  Two fingerprints that share the highest score have no gap between
them, and if none is asked for, the one that comes first is the clear winner.
-/

namespace Sentora.Classification

open Lib

def exactFloats (format : ℚ → String) : Floats ℚ where
  zero := 0
  add a b := a + b
  sub a b := a - b
  div a b := a / b
  lt a b := a < b
  le a b := a ≤ b
  eq a b := a = b
  round := roundTo 6
  format := format
  scoreClear := 7 / 10
  scorePartial := 4 / 10
  gapClear := 15 / 100

namespace Order

section Scores

variable (t : Taxonomy.CaseText) (format : ℚ → String) (names : List String)

def scored (fp : Fingerprint ℚ) : GroupMatchScore ℚ :=
  scoreFingerprint t (exactFloats format) names fp

def scoreOf (fp : Fingerprint ℚ) : ℚ := (scored t format names fp).score

/-- The classification of the agent with the fingerprints of `loaded`. -/
def classified (loaded : Loaded ℚ) (computedAt : Int) (agent : Sync.AgentDoc) :
    ClassificationResult ℚ :=
  classifySingleAgent t (exactFloats format) loaded computedAt names agent

/-- The order of the fingerprints does not matter, every score is a proportion, and
more names do not lower it. -/
structure Lawful (loaded : Loaded ℚ) (computedAt : Int) (agent : Sync.AgentDoc) : Prop where
  order : ∀ fingerprints, fingerprints.Perm loaded.fingerprints →
    let result := classified t format names { loaded with fingerprints } computedAt agent
    let expected := classified t format names loaded computedAt agent
    result.classification = expected.classification ∧
      result.suggestedGroupId = expected.suggestedGroupId
  proportion : ∀ fp ∈ loaded.fingerprints,
    0 ≤ scoreOf t format names fp ∧ scoreOf t format names fp ≤ 1
  monotone : ∀ more, names ⊆ more → ∀ fp ∈ loaded.fingerprints,
    scoreOf t format names fp ≤ scoreOf t format more fp

/-- Two fingerprints share the highest score, which is clear, and no gap is asked for. -/
def Tied (loaded : Loaded ℚ) : Prop :=
  let th := thresholds (exactFloats format) loaded.config
  let score := scoreOf t format names
  ∃ a ∈ loaded.fingerprints, ∃ b ∈ loaded.fingerprints, a.groupId ≠ b.groupId ∧
    score a = score b ∧ (∀ c ∈ loaded.fingerprints, score c ≤ score a) ∧
    th.partialMatch ≤ score a ∧ th.clear ≤ score a ∧ th.gap ≤ 0

end Scores

section Weights

variable {t : Taxonomy.CaseText} {format : ℚ → String} {names more : List String}
  {fp : Fingerprint ℚ} {markers : List (FingerprintMarker ℚ)}

theorem totalWeight_eq_sum :
    totalWeight (exactFloats format) markers = (markers.map FingerprintMarker.weight).sum :=
  (List.sum_eq_foldl ..).symm

theorem scoreOf_eq : scoreOf t format names fp =
    roundTo 6 (((fp.markers.filter (markerMatched t names)).map FingerprintMarker.weight).sum /
      (fp.markers.map FingerprintMarker.weight).sum) := by
  unfold scoreOf scored scoreFingerprint
  dsimp only
  rw [totalWeight_eq_sum, totalWeight_eq_sum]
  by_cases htotal : (fp.markers.map FingerprintMarker.weight).sum = 0
  · have hzero : (exactFloats format).eq 0 (exactFloats format).zero = true :=
      decide_eq_true (p := (0 : ℚ) = 0) rfl
    rw [htotal, div_zero, if_pos hzero]
    show roundTo 6 (if fp.markers.isEmpty then 0 else 0) = _
    rw [ite_self]
  · have hmarkers : fp.markers.isEmpty = false := by
      cases hnil : fp.markers with
      | nil => exact absurd (by rw [hnil]; rfl) htotal
      | cons m ms => rfl
    have hzero : ¬(exactFloats format).eq (fp.markers.map FingerprintMarker.weight).sum
        (exactFloats format).zero = true := fun h => htotal (of_decide_eq_true h)
    rw [if_neg hzero, hmarkers]
    rfl

theorem sum_filter_le {p q : FingerprintMarker ℚ → Bool} (hweight : ∀ m ∈ markers, 0 ≤ m.weight)
    (hpq : ∀ m ∈ markers, p m = true → q m = true) :
    ((markers.filter p).map FingerprintMarker.weight).sum ≤
      ((markers.filter q).map FingerprintMarker.weight).sum := by
  induction markers with
  | nil => exact le_rfl
  | cons m ms ih =>
    obtain ⟨hm, hms⟩ := List.forall_mem_cons.mp hweight
    obtain ⟨hpm, hpms⟩ := List.forall_mem_cons.mp hpq
    have hrest := ih hms hpms
    cases hp : p m with
    | true =>
      rw [List.filter_cons_of_pos hp, List.filter_cons_of_pos (hpm hp)]
      simpa using hrest
    | false =>
      rw [List.filter_cons_of_neg (by simp [hp])]
      cases hq : q m with
      | true =>
        rw [List.filter_cons_of_pos hq, List.map_cons, List.sum_cons]
        linarith
      | false =>
        rw [List.filter_cons_of_neg (by simp [hq])]
        exact hrest

theorem markerMatched_mono (h : names ⊆ more) {m : FingerprintMarker ℚ}
    (hm : markerMatched t names m = true) : markerMatched t more m = true := by
  unfold markerMatched at *
  split at hm
  · rw [if_pos ‹_›]
    rw [List.contains_iff_mem, List.mem_map] at *
    obtain ⟨name, hname, heq⟩ := hm
    exact ⟨name, h hname, heq⟩
  · rw [if_neg ‹_›]
    rw [List.any_eq_true] at *
    obtain ⟨name, hname, hmatch⟩ := hm
    exact ⟨name, h hname, hmatch⟩

theorem scoreOf_mono (hweight : ∀ m ∈ fp.markers, 0 ≤ m.weight) (h : names ⊆ more) :
    scoreOf t format names fp ≤ scoreOf t format more fp := by
  rw [scoreOf_eq, scoreOf_eq]
  refine roundTo_mono (div_le_div_of_nonneg_right ?_ ?_)
  · exact sum_filter_le hweight fun m _ hm => markerMatched_mono h hm
  · exact List.sum_nonneg (by simpa using hweight)

theorem scoreOf_mem_unit (hweight : ∀ m ∈ fp.markers, 0 ≤ m.weight) :
    0 ≤ scoreOf t format names fp ∧ scoreOf t format names fp ≤ 1 := by
  have htotal : 0 ≤ (fp.markers.map FingerprintMarker.weight).sum :=
    List.sum_nonneg (by simpa using hweight)
  have hpart : ((fp.markers.filter (markerMatched t names)).map FingerprintMarker.weight).sum ≤
      (fp.markers.map FingerprintMarker.weight).sum := by
    simpa using sum_filter_le (q := fun _ => true) hweight fun _ _ _ => rfl
  rw [scoreOf_eq]
  refine roundTo_mem_unit (div_nonneg (List.sum_nonneg ?_) htotal) (div_le_one_of_le₀ hpart htotal)
  intro w hw
  obtain ⟨m, hm, rfl⟩ := List.mem_map.mp hw
  exact hweight m (List.mem_filter.mp hm).1

end Weights

section Verdicts

variable {t : Taxonomy.CaseText} {format : ℚ → String} {names : List String} {th : Thresholds ℚ}
  {groupId groupName : String} {fingerprints more : List (Fingerprint ℚ)}
  {scores rest : List (GroupMatchScore ℚ)} {best : GroupMatchScore ℚ}
variable {s : GroupMatchScore ℚ}

def ranking (scores : List (GroupMatchScore ℚ)) : List (GroupMatchScore ℚ) :=
  sortBy (fun s => OrderDual.toDual s.score) scores

theorem topScores_eq :
    topScores (exactFloats format) scores = (ranking scores).take topNScores := by
  unfold topScores ranking sortBy
  congr 1
  have hmap := List.map_insertionSort
    (fun a b : GroupMatchScore ℚ => (exactFloats format).lt a.score b.score = false)
    (fun a b : GroupMatchScore ℚ => OrderDual.toDual a.score ≤ OrderDual.toDual b.score) id scores
    fun a _ b _ => by
      show decide (a.score < b.score) = false ↔ b.score ≤ a.score
      rw [decide_eq_false_iff_not, not_lt]
  rwa [List.map_id, List.map_id] at hmap

def Finding.outcome (finding : Finding) : Verdict × Option String :=
  (finding.classification, finding.suggestedGroupId)

def gapBehind (score : ℚ) (second : Option ℚ) : ℚ := (second.map fun s => score - s).getD score

def IsClear (th : Thresholds ℚ) (score : ℚ) (second : Option ℚ) : Prop :=
  th.partialMatch ≤ score ∧ th.clear ≤ score ∧ th.gap ≤ gapBehind score second

theorem judgeBest_outcome {second : Option (GroupMatchScore ℚ)}
    (henough : th.partialMatch ≤ best.score) :
    (IsClear th best.score (second.map GroupMatchScore.score) →
      Finding.outcome (judgeBest (exactFloats format) th groupId groupName best second) =
        if best.groupId = groupId then (.correct, none) else (.misclassified, some best.groupId)) ∧
    (¬IsClear th best.score (second.map GroupMatchScore.score) →
      Finding.outcome (judgeBest (exactFloats format) th groupId groupName best second) =
        (.ambiguous, none)) := by
  have hcond : ((exactFloats format).le th.clear best.score && (exactFloats format).le th.gap
      ((second.map fun s => (exactFloats format).sub best.score s.score).getD best.score)) = true ↔
      IsClear th best.score (second.map GroupMatchScore.score) := by
    unfold IsClear gapBehind
    rw [Option.map_map, Bool.and_eq_true]
    exact (and_congr decide_eq_true_iff decide_eq_true_iff).trans (and_iff_right henough).symm
  unfold judgeBest
  dsimp only
  constructor
  · intro hclear
    rw [if_pos (hcond.mpr hclear)]
    split
    · rfl
    · rfl
  · intro hclear
    rw [if_neg fun h => hclear (hcond.mp h)]
    rfl

theorem mem_ranking : s ∈ ranking scores ↔ s ∈ scores := mem_sortBy _

theorem pairwise_ranking (scores : List (GroupMatchScore ℚ)) :
    (ranking scores).Pairwise fun a b => b.score ≤ a.score :=
  @pairwise_sortBy _ _ _ (fun s : GroupMatchScore ℚ => OrderDual.toDual s.score) scores

theorem le_of_ranking (h : ranking scores = best :: rest)
    (hs : s ∈ scores) :
    s.score ≤ best.score := by
  have hsorted := h ▸ pairwise_ranking scores
  rcases List.mem_cons.mp (h ▸ mem_ranking.mpr hs) with rfl | hrest
  · exact le_rfl
  · exact (List.pairwise_cons.mp hsorted).1 s hrest

theorem second_of_tie (h : ranking scores = best :: rest) (hs : s ∈ scores)
    (hne : s ≠ best) (hscore : s.score = best.score) :
    (rest.map GroupMatchScore.score).head? = some best.score := by
  have hsorted := h ▸ pairwise_ranking scores
  have hmem : s ∈ rest := List.mem_of_ne_of_mem hne (h ▸ mem_ranking.mpr hs)
  cases rest with
  | nil => cases hmem
  | cons second rest =>
    have hle : second.score ≤ best.score :=
      (List.pairwise_cons.mp hsorted).1 second List.mem_cons_self
    have hge : s.score ≤ second.score := by
      rcases List.mem_cons.mp hmem with rfl | hrest
      · exact le_rfl
      · exact (List.pairwise_cons.mp (List.pairwise_cons.mp hsorted).2).1 s hrest
    exact congrArg some (le_antisymm hle (hscore ▸ hge))

theorem map_ranking_of_perm {scores' : List (GroupMatchScore ℚ)} (h : scores'.Perm scores) :
    (ranking scores').map GroupMatchScore.score = (ranking scores).map GroupMatchScore.score := by
  have hperm : ((ranking scores').map GroupMatchScore.score).Perm
      ((ranking scores).map GroupMatchScore.score) :=
    (((perm_sortBy _ _).trans h).trans (perm_sortBy _ _).symm).map _
  have hsorted : ∀ l : List (GroupMatchScore ℚ),
      ((ranking l).map GroupMatchScore.score).Pairwise (· ≥ ·) := fun l =>
    List.pairwise_map.mpr (pairwise_ranking l)
  exact hperm.eq_of_pairwise (fun a b _ _ hab hba => le_antisymm hba hab) (hsorted _) (hsorted _)

theorem judge_outcome (hfingerprints : fingerprints ≠ [])
    (hranking : ranking scores = best :: rest) :
    let second := (rest.map GroupMatchScore.score).head?
    let finding := judge (exactFloats format) th groupId groupName fingerprints
      (topScores (exactFloats format) scores)
    (IsClear th best.score second → Finding.outcome finding =
      if best.groupId = groupId then (.correct, none) else (.misclassified, some best.groupId)) ∧
    (¬IsClear th best.score second → Finding.outcome finding =
      if best.score < th.partialMatch then (.unclassifiable, none) else (.ambiguous, none)) := by
  have hempty : ¬fingerprints.isEmpty = true := by
    rw [List.isEmpty_iff]
    exact hfingerprints
  have hsecond : (rest.take 4).head? = rest.head? := by cases rest <;> rfl
  have hjudge : judge (exactFloats format) th groupId groupName fingerprints
      (topScores (exactFloats format) scores) =
      if (exactFloats format).lt best.score th.partialMatch then
        unclassifiable ("Best match score " ++ (exactFloats format).format best.score ++
          " is below the minimum threshold of " ++ (exactFloats format).format th.partialMatch ++
          ".")
      else judgeBest (exactFloats format) th groupId groupName best rest.head? := by
    rw [topScores_eq, hranking, topNScores, List.take_succ_cons]
    unfold judge
    rw [if_neg hempty]
    dsimp only
    rw [hsecond]
  rw [hjudge, List.head?_map]
  dsimp only
  by_cases henough : best.score < th.partialMatch
  · rw [if_pos (show (exactFloats format).lt best.score th.partialMatch = true from
      decide_eq_true henough), if_pos henough]
    exact ⟨fun hclear => absurd hclear.1 henough.not_ge, fun _ => rfl⟩
  · rw [if_neg (show ¬(exactFloats format).lt best.score th.partialMatch = true from
      fun h => henough (of_decide_eq_true h)), if_neg henough]
    exact judgeBest_outcome (not_lt.mp henough)

theorem ranking_cons (h : ∀ s ∈ scores, s.score ≤ best.score) :
    ranking (best :: scores) = best :: ranking scores :=
  List.insertionSort_cons_of_forall_rel _ h

theorem exists_best (t : Taxonomy.CaseText) (format : ℚ → String) (names : List String)
    (hfingerprints : fingerprints ≠ []) :
    ∃ a ∈ fingerprints, ∃ rest,
      ranking (fingerprints.map (scored t format names)) = scored t format names a :: rest := by
  cases hranking : ranking (fingerprints.map (scored t format names)) with
  | nil =>
    have hlength := congrArg List.length hranking
    rw [ranking, (perm_sortBy _ _).length_eq, List.length_map] at hlength
    exact absurd (List.length_eq_zero_iff.mp hlength) hfingerprints
  | cons best rest =>
    have hbest : best ∈ fingerprints.map (scored t format names) :=
      mem_ranking.mp (hranking ▸ List.mem_cons_self)
    obtain ⟨a, ha, rfl⟩ := List.mem_map.mp hbest
    exact ⟨a, ha, rest, rfl⟩

end Verdicts

section Orders

variable {t : Taxonomy.CaseText} {format : ℚ → String} {names : List String} {loaded : Loaded ℚ}
  {computedAt : Int} {agent : Sync.AgentDoc} {fingerprints : List (Fingerprint ℚ)}
  {a b : Fingerprint ℚ}

def verdict (t : Taxonomy.CaseText) (format : ℚ → String) (names : List String)
    (loaded : Loaded ℚ) (computedAt : Int) (agent : Sync.AgentDoc)
    (fingerprints : List (Fingerprint ℚ)) : Verdict × Option String :=
  Finding.outcome
    (classified t format names { loaded with fingerprints } computedAt agent).toFinding

theorem verdict_eq {rest : List (GroupMatchScore ℚ)} (loaded : Loaded ℚ) (computedAt : Int)
    (agent : Sync.AgentDoc) (hfingerprints : fingerprints ≠ [])
    (hranking : ranking (fingerprints.map (scored t format names)) =
      scored t format names a :: rest) :
    let th := thresholds (exactFloats format) loaded.config
    let second := (rest.map GroupMatchScore.score).head?
    let score := scoreOf t format names a
    (IsClear th score second → verdict t format names loaded computedAt agent fingerprints =
      if a.groupId = agent.groupId then (.correct, none) else (.misclassified, some a.groupId)) ∧
    (¬IsClear th score second → verdict t format names loaded computedAt agent fingerprints =
      if score < th.partialMatch then (.unclassifiable, none) else (.ambiguous, none)) :=
  judge_outcome hfingerprints hranking

theorem tied_of_isClear {rest : List (GroupMatchScore ℚ)} (ha : a ∈ loaded.fingerprints)
    (hb : b ∈ loaded.fingerprints) (hne : a.groupId ≠ b.groupId)
    (hranking : ranking (loaded.fingerprints.map (scored t format names)) =
      scored t format names a :: rest)
    (hscore : scoreOf t format names b = scoreOf t format names a)
    (hclear : IsClear (thresholds (exactFloats format) loaded.config) (scoreOf t format names a)
      (rest.map GroupMatchScore.score).head?) :
    Tied t format names loaded := by
  have hother : scored t format names b ≠ scored t format names a := fun h =>
    hne (congrArg GroupMatchScore.groupId h).symm
  have hsecond := second_of_tie hranking (List.mem_map_of_mem hb) hother hscore
  obtain ⟨henough, hthreshold, hgap⟩ := hclear
  have hzero : gapBehind (scoreOf t format names a) (rest.map GroupMatchScore.score).head? = 0 := by
    rw [hsecond]
    exact sub_self _
  refine ⟨a, ha, b, hb, hne, hscore.symm, fun c hc => ?_, henough, hthreshold, hzero ▸ hgap⟩
  exact le_of_ranking hranking (List.mem_map_of_mem hc)

theorem verdict_of_perm (h : ¬Tied t format names loaded)
    (hperm : fingerprints.Perm loaded.fingerprints) :
    verdict t format names loaded computedAt agent fingerprints =
      verdict t format names loaded computedAt agent loaded.fingerprints := by
  by_cases hempty : loaded.fingerprints = []
  · rw [hempty] at hperm
    rw [hperm.eq_nil, hempty]
  · have hempty' : fingerprints ≠ [] := fun hnil => hempty (hnil ▸ hperm).symm.eq_nil
    obtain ⟨a, ha, rest, hranking⟩ := exists_best t format names hempty
    obtain ⟨b, hb, rest', hranking'⟩ := exists_best t format names hempty'
    have hscores := map_ranking_of_perm (hperm.map (scored t format names))
    rw [hranking, hranking', List.map_cons, List.map_cons] at hscores
    obtain ⟨hscore, hrest⟩ := List.cons.inj hscores
    have hscore : scoreOf t format names b = scoreOf t format names a := hscore
    obtain ⟨hclear, hunclear⟩ := verdict_eq loaded computedAt agent hempty hranking
    obtain ⟨hclear', hunclear'⟩ := verdict_eq loaded computedAt agent hempty' hranking'
    rw [hscore, hrest] at hclear' hunclear'
    by_cases hwinner : IsClear (thresholds (exactFloats format) loaded.config)
        (scoreOf t format names a) (rest.map GroupMatchScore.score).head?
    · have hsame : a.groupId = b.groupId := by
        by_contra hne
        exact h (tied_of_isClear ha (hperm.subset hb) hne hranking hscore hwinner)
      rw [hclear hwinner, hclear' hwinner, hsame]
    · rw [hunclear hwinner, hunclear' hwinner]

theorem verdict_of_first (computedAt : Int) (agent : Sync.AgentDoc)
    (ha : a ∈ loaded.fingerprints) (hb : b ∈ loaded.fingerprints) (hne : a.groupId ≠ b.groupId)
    (hscore : scoreOf t format names a = scoreOf t format names b)
    (hmax : ∀ c ∈ loaded.fingerprints, scoreOf t format names c ≤ scoreOf t format names a)
    (hth : let th := thresholds (exactFloats format) loaded.config
      th.partialMatch ≤ scoreOf t format names a ∧ th.clear ≤ scoreOf t format names a ∧
        th.gap ≤ 0) :
    ∃ fingerprints, fingerprints.Perm loaded.fingerprints ∧
      verdict t format names loaded computedAt agent fingerprints =
        if a.groupId = agent.groupId then (.correct, none)
        else (.misclassified, some a.groupId) := by
  obtain ⟨before, behind, hsplit⟩ := List.append_of_mem ha
  have hperm : (a :: (before ++ behind)).Perm loaded.fingerprints := hsplit ▸ List.perm_middle.symm
  have hmax' : ∀ s ∈ (before ++ behind).map (scored t format names),
      s.score ≤ (scored t format names a).score := by
    intro s hs
    obtain ⟨c, hc, rfl⟩ := List.mem_map.mp hs
    exact hmax c (hperm.subset (List.mem_cons_of_mem _ hc))
  have hother : scored t format names b ∈ (before ++ behind).map (scored t format names) := by
    refine List.mem_map_of_mem (List.mem_of_ne_of_mem ?_ (hperm.symm.subset hb))
    exact fun h => hne (congrArg Fingerprint.groupId h).symm
  have hranking : ranking ((a :: (before ++ behind)).map (scored t format names)) =
      scored t format names a :: ranking ((before ++ behind).map (scored t format names)) :=
    ranking_cons hmax'
  have hdistinct : scored t format names b ≠ scored t format names a := fun h =>
    hne (congrArg GroupMatchScore.groupId h).symm
  have hsecond := second_of_tie hranking (List.mem_cons_of_mem _ hother) hdistinct hscore.symm
  refine ⟨a :: (before ++ behind), hperm, ?_⟩
  refine (verdict_eq loaded computedAt agent (List.cons_ne_nil _ _) hranking).1 ⟨hth.1, hth.2.1, ?_⟩
  rw [hsecond]
  exact hth.2.2.trans (sub_self (scoreOf t format names a)).ge

/-- The order matters if and only if fingerprints are tied and no gap is asked for. -/
theorem lawful_iff_not_tied (t : Taxonomy.CaseText) (format : ℚ → String) (names : List String)
    (loaded : Loaded ℚ) (computedAt : Int) (agent : Sync.AgentDoc)
    (hweight : ∀ fp ∈ loaded.fingerprints, ∀ m ∈ fp.markers, 0 ≤ m.weight) :
    Lawful t format names loaded computedAt agent ↔ ¬Tied t format names loaded := by
  constructor
  · rintro h ⟨a, ha, b, hb, hne, hscore, hmax, hth⟩
    obtain ⟨first, hfirst, hwinner⟩ :=
      verdict_of_first computedAt agent ha hb hne hscore hmax hth
    obtain ⟨second, hsecond, hwinner'⟩ :=
      verdict_of_first computedAt agent hb ha hne.symm hscore.symm
        (fun c hc => hscore ▸ hmax c hc) (hscore ▸ hth)
    have hverdict : ∀ fingerprints, fingerprints.Perm loaded.fingerprints →
        verdict t format names loaded computedAt agent fingerprints =
          verdict t format names loaded computedAt agent loaded.fingerprints := fun F hF =>
      Prod.ext (h.order F hF).1 (h.order F hF).2
    have hsame := (hverdict first hfirst).trans (hverdict second hsecond).symm
    rw [hwinner, hwinner'] at hsame
    split at hsame
    · split at hsame
      · exact hne (‹a.groupId = agent.groupId›.trans ‹b.groupId = agent.groupId›.symm)
      · cases hsame
    · split at hsame
      · cases hsame
      · exact hne (Option.some.inj (congrArg Prod.snd hsame))
  · intro h
    refine ⟨fun fingerprints hperm => ?_, fun fp hfp => scoreOf_mem_unit (hweight fp hfp),
      fun more hmore fp hfp => scoreOf_mono (hweight fp hfp) hmore⟩
    exact Prod.mk.inj (verdict_of_perm h hperm)

/-- What the validators of `AppConfig` admit. -/
def Admitted (cfg : AppConfig ℚ) : Prop :=
  (0 ≤ cfg.classificationThreshold ∧ cfg.classificationThreshold ≤ 1) ∧
    (0 ≤ cfg.partialThreshold ∧ cfg.partialThreshold ≤ 1) ∧
      (0 ≤ cfg.ambiguityGap ∧ cfg.ambiguityGap ≤ 1)

instance (cfg : AppConfig ℚ) : Decidable (Admitted cfg) := inferInstanceAs (Decidable (_ ∧ _ ∧ _))

def zoomFingerprint (groupId : String) : Fingerprint ℚ :=
  ⟨groupId, groupId, [⟨"zoom", "Zoom", 1⟩]⟩

def zoomGroups (gap : ℚ) : Loaded ℚ :=
  ⟨1, [zoomFingerprint "g1", zoomFingerprint "g2"], some ⟨7 / 10, 4 / 10, gap⟩⟩

def zoomAgent : Sync.AgentDoc where
  id := "a1"
  source := some "sentinelone"
  sourceId := "a1"
  hostname := "pc-a1"
  groupId := "g1"
  installedAppNames := some ["zoom"]

theorem first_of_tied_wins :
    Admitted ⟨7 / 10, 4 / 10, 0⟩ ∧
      ¬Lawful Enforcement.asciiCase (fun _ => "") ["zoom"] (zoomGroups 0) 0 zoomAgent := by
  refine ⟨by decide +kernel, fun h => ?_⟩
  have horder := h.order [zoomFingerprint "g2", zoomFingerprint "g1"] (.swap _ _ _)
  exact absurd horder.1 (by decide +kernel)

theorem tie_with_gap_is_lawful :
    Lawful Enforcement.asciiCase (fun _ => "") ["zoom"] (zoomGroups (15 / 100)) 0 zoomAgent := by
  refine (lawful_iff_not_tied _ _ _ _ _ _ ?_).mpr ?_
  · decide +kernel
  · rintro ⟨a, -, b, -, -, -, -, -, -, hgap⟩
    exact absurd hgap (by decide +kernel)

end Orders

end Order
end Sentora.Classification
