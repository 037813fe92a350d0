import Sentora.Agents.Inventory
import Sentora.Eol.Matching
import Sentora.Lib.Machine

/-!
# Decisions about matches

What becomes of the matches that were confirmed or dismissed (`confirm_match` and
`dismiss_match` of `domains/eol/repository.py`) under rebuilds of the summaries and runs of
the matching.

A decision is nowhere but in the summary.  A rebuild writes the summaries anew without their
matches, and a run puts its own match in the place of every one it covers.
-/

namespace Sentora.Eol

open Lib Agents

/-- The app summaries and what they are made of, with the product that was last confirmed and
the one that was last dismissed for a name. -/
structure World where
  apps : List Sync.AppDoc
  agents : List Sync.AgentDoc
  summaries : Collection AppSummary.normalizedName
  confirmed : String → Option String := fun _ => none
  dismissed : String → Option String := fun _ => none

def World.stored (w : World) (name : String) : Option EolMatchDoc :=
  (w.summaries.get name).bind AppSummary.eolMatch

def World.product (w : World) (name : String) : Option String :=
  (w.stored name).map EolMatchDoc.eolProductId

def World.updateMatch (w : World) (name : String)
    (change : Option EolMatchDoc → Option EolMatchDoc) : Collection AppSummary.normalizedName :=
  w.summaries.updateOne (fun d => d.normalizedName == name)
    (fun d => { d with eolMatch := change d.eolMatch }) fun _ => rfl

def EolMatchDoc.confirm (m : EolMatchDoc) : EolMatchDoc :=
  { m with matchSource := .manual, matchConfidence := 1 }

/-- `confirm_match`, a decision where the document is found. -/
def confirmMatch (normalizedName eolProductId : String) (w : World) : World :=
  if w.product normalizedName = some eolProductId then
    { w with
      summaries := w.updateMatch normalizedName (Option.map EolMatchDoc.confirm)
      confirmed := Function.update w.confirmed normalizedName (some eolProductId) }
  else w

/-- `dismiss_match`, of the product that is stored. -/
def dismissMatch (normalizedName : String) (w : World) : World :=
  { w with
    summaries := w.updateMatch normalizedName fun _ => none
    confirmed := Function.update w.confirmed normalizedName none
    dismissed :=
      match w.product normalizedName with
      | some id => Function.update w.dismissed normalizedName (some id)
      | none => w.dismissed }

/-- `rebuild_app_summaries`, whose documents get a unique index. -/
def rebuild (t : Taxonomy.CaseText) (entries : List Taxonomy.EntryDoc) (w : World) : World :=
  match rebuildAppSummaries t entries w.apps w.agents w.summaries.docs with
  | some docs =>
    if h : (docs.map AppSummary.normalizedName).Nodup then { w with summaries := ⟨docs, h⟩ } else w
  | none => w

def runEolMatching (py : Python) (data : MatchingData) (deltaOnly : Bool)
    (changedAppNames : List String) (w : World) : World :=
  { w with
    summaries := w.summaries.updateMany (fun d => covers deltaOnly changedAppNames d.normalizedName)
      (fun d => { d with eolMatch := matchApp py data d }) fun _ => rfl }

inductive Request where
  | confirm (normalizedName eolProductId : String)
  | dismiss (normalizedName : String)
  /-- Apps are installed and removed. -/
  | sync (apps : List Sync.AppDoc) (agents : List Sync.AgentDoc)
  | rebuild (entries : List Taxonomy.EntryDoc)
  | matching (data : MatchingData) (deltaOnly : Bool) (changedAppNames : List String)

def perform (t : Taxonomy.CaseText) (py : Python) (w : World) : Request → World
  | .confirm normalizedName eolProductId => confirmMatch normalizedName eolProductId w
  | .dismiss normalizedName => dismissMatch normalizedName w
  | .sync apps agents => { w with apps := apps, agents := agents }
  | .rebuild entries => rebuild t entries w
  | .matching data deltaOnly changedAppNames => runEolMatching py data deltaOnly changedAppNames w

def performs (t : Taxonomy.CaseText) (py : Python) (w : World) (requests : List Request) : World :=
  requests.foldl (perform t py) w

/-- The decisions stand: the confirmed products are stored as such, and the dismissed ones are
not. -/
structure Standing (w : World) : Prop where
  confirmed : ∀ name id, w.confirmed name = some id →
    ∃ m, w.stored name = some m ∧ m.matchSource = .manual ∧ m.eolProductId = id
  dismissed : ∀ name id, w.dismissed name = some id → w.product name ≠ some id

/-- A rebuild that replaces the summaries: some app is active, and no entry has null for its
patterns. -/
def Rewrites (t : Taxonomy.CaseText) (entries : List Taxonomy.EntryDoc)
    (apps : List Sync.AppDoc) : Prop :=
  activeApps apps ≠ [] ∧
    (entryMatcher t (entries.filter fun doc => doc.patterns != some [])).isSome = true

/-- A rebuild that replaces the summaries comes while no product is confirmed, and a run covers
no name with a confirmed product and finds no product that was dismissed. -/
def KeepsDecisions (t : Taxonomy.CaseText) (py : Python) (w : World) : Request → Prop
  | .rebuild entries => Rewrites t entries w.apps → ∀ name, w.confirmed name = none
  | .matching data deltaOnly changedAppNames => ∀ d ∈ w.summaries,
    covers deltaOnly changedAppNames d.normalizedName = true →
      w.confirmed d.normalizedName = none ∧
        ∀ id, w.dismissed d.normalizedName = some id →
          (matchApp py data d).map EolMatchDoc.eolProductId ≠ some id
  | _ => True

section Steps

variable {t : Taxonomy.CaseText} {py : Python} {w : World} {name other id : String}

theorem product_eq_some_iff :
    w.product name = some id ↔ ∃ m, w.stored name = some m ∧ m.eolProductId = id :=
  Option.map_eq_some_iff

theorem get_updateMatch {change : Option EolMatchDoc → Option EolMatchDoc} :
    ((w.updateMatch name change).get other).bind AppSummary.eolMatch =
      if other = name then (w.summaries.get other).bind fun d => change d.eolMatch
      else w.stored other := by
  have hone : ∀ d ∈ w.summaries, ∀ e ∈ w.summaries, (d.normalizedName == name) = true →
      (e.normalizedName == name) = true → d = e := fun d hd e he hdn hen =>
    w.summaries.eq_of_key hd he ((beq_iff_eq.mp hdn).trans (beq_iff_eq.mp hen).symm)
  rw [World.updateMatch, Collection.get_updateOne _ hone]
  unfold World.stored
  cases hget : w.summaries.get other with
  | none => simp
  | some d =>
    have hd := (Collection.get_eq_some_iff.mp hget).2
    simp only [Option.map_some, Option.bind_some, hd, beq_iff_eq]
    split
    · rfl
    · rfl

theorem stored_confirmMatch (h : w.product name = some id) :
    (confirmMatch name id w).stored other =
      if other = name then (w.stored other).map EolMatchDoc.confirm else w.stored other := by
  unfold confirmMatch
  rw [if_pos h]
  refine get_updateMatch.trans ?_
  unfold World.stored
  rw [Option.map_bind]
  rfl

theorem product_confirmMatch : (confirmMatch name id w).product other = w.product other := by
  by_cases h : w.product name = some id
  · unfold World.product
    rw [stored_confirmMatch h]
    split
    · rw [Option.map_map]
      rfl
    · rfl
  · rw [confirmMatch, if_neg h]

theorem stored_dismissMatch :
    (dismissMatch name w).stored other = if other = name then none else w.stored other := by
  refine get_updateMatch.trans ?_
  rw [Option.bind_fun_none]

theorem dismissed_dismissMatch (h : other ≠ name) :
    (dismissMatch name w).dismissed other = w.dismissed other := by
  unfold dismissMatch
  cases w.product name with
  | none => rfl
  | some id => exact Function.update_of_ne h _ _

theorem stored_rebuild {entries : List Taxonomy.EntryDoc} (h : Rewrites t entries w.apps) :
    (rebuild t entries w).stored name = none := by
  obtain ⟨matcher, hmatcher⟩ := Option.isSome_iff_exists.mp h.2
  have hdocs := @rebuildAppSummaries_of_some t entries w.apps w.agents w.summaries.docs h.1
  rw [hmatcher, Option.map_some] at hdocs
  have hnames : (((rows w.apps).map (summary matcher w.agents)).map
      AppSummary.normalizedName).Nodup := by
    rw [names_summaries]
    exact nodup_names_rows
  unfold rebuild World.stored
  rw [hdocs]
  dsimp only
  rw [dif_pos hnames, Option.bind_eq_none_iff]
  intro d hd
  obtain ⟨r, -, heq⟩ := List.mem_map.mp (Collection.get_eq_some_iff.mp hd).1
  rw [← heq]
  rfl

theorem rebuild_of_not {entries : List Taxonomy.EntryDoc} (h : ¬Rewrites t entries w.apps) :
    rebuild t entries w = w := by
  unfold rebuild
  by_cases hactive : activeApps w.apps = []
  · rw [rebuildAppSummaries_of_none hactive]
    dsimp only
    rw [dif_pos w.summaries.distinct]
  · have hmatcher : entryMatcher t (entries.filter fun doc => doc.patterns != some []) = none := by
      rw [← Option.not_isSome_iff_eq_none]
      exact fun hsome => h ⟨hactive, hsome⟩
    rw [rebuildAppSummaries_of_some hactive, hmatcher]
    rfl

theorem stored_runEolMatching {data : MatchingData} {deltaOnly : Bool}
    {changedAppNames : List String} :
    (runEolMatching py data deltaOnly changedAppNames w).stored name =
      (w.summaries.get name).bind fun d =>
        if covers deltaOnly changedAppNames name then matchApp py data d else d.eolMatch := by
  unfold runEolMatching World.stored
  rw [Collection.get_updateMany]
  cases hget : w.summaries.get name with
  | none => rfl
  | some d =>
    have hd := (Collection.get_eq_some_iff.mp hget).2
    simp only [Option.map_some, Option.bind_some, hd]
    split
    · rfl
    · rfl

theorem standing_confirmMatch (h : Standing w) : Standing (confirmMatch name id w) := by
  by_cases hproduct : w.product name = some id
  · constructor
    · intro other id' hconfirmed
      rw [stored_confirmMatch hproduct]
      rw [confirmMatch, if_pos hproduct] at hconfirmed
      by_cases hother : other = name
      · obtain ⟨m, hm, hid⟩ := product_eq_some_iff.mp hproduct
        have hsame : id = id' := by
          rw [hother] at hconfirmed
          exact Option.some.inj
            ((Function.update_self name (some id) w.confirmed).symm.trans hconfirmed)
        rw [if_pos hother, hother, hm]
        exact ⟨m.confirm, rfl, rfl, hid.trans hsame⟩
      · rw [if_neg hother]
        exact h.confirmed other id' ((Function.update_of_ne hother _ _).symm.trans hconfirmed)
    · intro other id' hdismissed
      rw [product_confirmMatch]
      rw [confirmMatch, if_pos hproduct] at hdismissed
      exact h.dismissed other id' hdismissed
  · rw [confirmMatch, if_neg hproduct]
    exact h

theorem standing_dismissMatch (h : Standing w) : Standing (dismissMatch name w) := by
  constructor
  · intro other id hconfirmed
    have hother : other ≠ name := by
      intro hsame
      have hnone : (dismissMatch name w).confirmed name = none := Function.update_self ..
      rw [hsame, hnone] at hconfirmed
      cases hconfirmed
    rw [stored_dismissMatch, if_neg hother]
    exact h.confirmed other id ((Function.update_of_ne hother _ _).symm.trans hconfirmed)
  · intro other id hdismissed
    unfold World.product
    rw [stored_dismissMatch]
    by_cases hother : other = name
    · rw [if_pos hother]
      exact nofun
    · rw [if_neg hother]
      rw [dismissed_dismissMatch hother] at hdismissed
      exact h.dismissed other id hdismissed

theorem confirmed_rebuild {entries : List Taxonomy.EntryDoc} :
    (rebuild t entries w).confirmed = w.confirmed := by
  unfold rebuild
  split
  · split
    · rfl
    · rfl
  · rfl

theorem standing_rebuild_iff (h : Standing w) {entries : List Taxonomy.EntryDoc} :
    Standing (rebuild t entries w) ↔
      (Rewrites t entries w.apps → ∀ name, w.confirmed name = none) := by
  by_cases hwrites : Rewrites t entries w.apps
  · constructor
    · intro hstanding _ name
      rw [Option.eq_none_iff_forall_ne_some]
      intro id hconfirmed
      rw [← confirmed_rebuild] at hconfirmed
      obtain ⟨m, hm, -⟩ := hstanding.confirmed name id hconfirmed
      rw [stored_rebuild hwrites] at hm
      cases hm
    · intro hnone
      constructor
      · intro name id hconfirmed
        rw [confirmed_rebuild, hnone hwrites name] at hconfirmed
        cases hconfirmed
      · intro name id _
        unfold World.product
        rw [stored_rebuild hwrites]
        exact nofun
  · rw [rebuild_of_not hwrites]
    exact iff_of_true h fun hrewrites => absurd hrewrites hwrites

theorem stored_of_covers {data : MatchingData} {deltaOnly : Bool} {changedAppNames : List String}
    {d : AppSummary} (hd : d ∈ w.summaries)
    (hcovers : covers deltaOnly changedAppNames d.normalizedName = true) :
    (runEolMatching py data deltaOnly changedAppNames w).stored d.normalizedName =
      matchApp py data d := by
  rw [stored_runEolMatching, Collection.get_eq_some_iff.mpr ⟨hd, rfl⟩, Option.bind_some,
    if_pos hcovers]

theorem stored_of_not_covers {data : MatchingData} {deltaOnly : Bool}
    {changedAppNames : List String} (hcovers : ¬covers deltaOnly changedAppNames name = true) :
    (runEolMatching py data deltaOnly changedAppNames w).stored name = w.stored name := by
  rw [stored_runEolMatching]
  simp only [if_neg hcovers]
  rfl

theorem standing_runEolMatching_iff (h : Standing w) {data : MatchingData} {deltaOnly : Bool}
    {changedAppNames : List String} :
    Standing (runEolMatching py data deltaOnly changedAppNames w) ↔
      KeepsDecisions t py w (.matching data deltaOnly changedAppNames) := by
  constructor
  · intro hstanding d hd hcovers
    have hstored := @stored_of_covers py w data deltaOnly changedAppNames d hd hcovers
    constructor
    · rw [Option.eq_none_iff_forall_ne_some]
      intro id hconfirmed
      obtain ⟨m, hm, hmanual, -⟩ := hstanding.confirmed d.normalizedName id hconfirmed
      exact (of_matchApp (hstored.symm.trans hm)).1 hmanual
    · intro id hdismissed
      rw [← hstored]
      exact hstanding.dismissed d.normalizedName id hdismissed
  · intro hkeeps
    constructor
    · intro name id hconfirmed
      obtain ⟨m, hm, hmanual, hid⟩ := h.confirmed name id hconfirmed
      obtain ⟨d, hget, -⟩ := Option.bind_eq_some_iff.mp hm
      obtain ⟨hd, rfl⟩ := Collection.get_eq_some_iff.mp hget
      refine ⟨m, (stored_of_not_covers fun hcovers => ?_).trans hm, hmanual, hid⟩
      cases (hkeeps d hd hcovers).1.symm.trans hconfirmed
    · intro name id hdismissed
      by_cases hcovers : covers deltaOnly changedAppNames name = true
      · cases hget : w.summaries.get name with
        | none =>
          unfold World.product
          rw [stored_runEolMatching, hget]
          exact nofun
        | some d =>
          obtain ⟨hd, rfl⟩ := Collection.get_eq_some_iff.mp hget
          unfold World.product
          rw [stored_of_covers hd hcovers]
          exact (hkeeps d hd hcovers).2 id hdismissed
      · unfold World.product
        rw [stored_of_not_covers hcovers]
        exact h.dismissed name id hdismissed

theorem standing_perform_iff (h : Standing w) (request : Request) :
    Standing (perform t py w request) ↔ KeepsDecisions t py w request := by
  cases request with
  | confirm normalizedName eolProductId => exact iff_of_true (standing_confirmMatch h) trivial
  | dismiss normalizedName => exact iff_of_true (standing_dismissMatch h) trivial
  | sync apps agents => exact iff_of_true ⟨h.confirmed, h.dismissed⟩ trivial
  | rebuild entries =>
    show Standing (rebuild t entries w) ↔ (Rewrites t entries w.apps → _)
    exact standing_rebuild_iff h
  | matching data deltaOnly changedAppNames => exact standing_runEolMatching_iff h

end Steps

/-- From summaries without decisions on, the decisions stand after each of some requests if and
only if every request keeps them. -/
theorem decisions_stand_iff (t : Taxonomy.CaseText) (py : Python) (apps : List Sync.AppDoc)
    (agents : List Sync.AgentDoc) (summaries : Collection AppSummary.normalizedName)
    (requests : List Request) :
    (∀ n, Standing (performs t py { apps, agents, summaries } (requests.take n))) ↔
      AllMeet (perform t py) (KeepsDecisions t py) { apps, agents, summaries } requests := by
  refine forall_take_iff_allMeet (I := Standing)
    (fun _ request h => standing_perform_iff h request) ⟨?_, ?_⟩
  · intro name id h
    cases h
  · intro name id h
    cases h

def plainPython : Python where
  toPyText := ⟨⟨id, fun a b => a == b⟩, id, id, fun s => [s]⟩
  isDecimal := Char.isDigit

/-- A run finds the product, it is confirmed, and the next run finds it again. -/
def zoomRequests : List Request :=
  [.matching { eolProducts := [("zoom", [])] } false [], .confirm "zoom" "zoom",
    .matching { eolProducts := [("zoom", [])] } false []]

theorem confirmed_match_is_overwritten :
    ¬∀ (t : Taxonomy.CaseText) (py : Python) (apps : List Sync.AppDoc)
      (agents : List Sync.AgentDoc) (summaries : Collection AppSummary.normalizedName)
      (requests : List Request) (n : Nat),
      Standing (performs t py { apps, agents, summaries } (requests.take n)) := by
  intro hall
  have hstanding := hall caselessText plainPython [zoomApp] [laptop] ⟨[zoomSummary], by decide⟩
    zoomRequests 3
  have hend : (fun w : World => (w.confirmed "zoom", (w.stored "zoom").map EolMatchDoc.matchSource))
      (performs caselessText plainPython
        { apps := [zoomApp], agents := [laptop], summaries := ⟨[zoomSummary], by decide⟩ }
        (zoomRequests.take 3)) = (some "zoom", some .cpe) := by
    decide +kernel
  obtain ⟨hconfirmed, hsource⟩ := Prod.mk.inj hend
  obtain ⟨m, hm, hmanual, -⟩ := hstanding.confirmed "zoom" "zoom" hconfirmed
  rw [hm, Option.map_some, hmanual] at hsource
  cases hsource

end Sentora.Eol
