import Mathlib.Logic.Function.Iterate
import Sentora.Tags.Matcher

/-!
# Applying a tag rule

`apply_rule` and the task `_run_apply` that it starts (`domains/tags/service.py`), for one rule.

Calls take their steps in any order, among edits and the deletion of the rule and syncs of agents
and tags.  A step that raises has done nothing.
-/

namespace Sentora.Tags

open Lib Classification

inductive ApplyStatus where
  | idle | running | done | failed
deriving DecidableEq

structure RuleDoc extends TagRule where
  tagName : String
  applyStatus : ApplyStatus := .idle
  lastAppliedAt : Option Nat := none
  lastAppliedCount : Nat := 0

/-- What the database has, and the requests for tags that the source has got. -/
structure Store where
  rule : Option RuleDoc
  agents : List Sync.AgentDoc := []
  sourceTags : List Sync.TagDoc := []
  requests : List (List String × String) := []

/-- Where a call is.  The run has its own copy of the rule from `finding` on. -/
inductive Stage where
  | idle
  | guarding (rule : RuleDoc)
  | finding (rule : RuleDoc)
  | resolving (tagName : String) (ids : List String)
  | creating (tagName : String) (ids : List String)
  | keeping (tagName : String) (ids : List String) (created : Sync.TagDoc)
  | tagging (tagName : String) (ids rest : List String) (tagId : String)
  | closing (tagName : String) (ids : List String)
  | marking (tagName : String) (ids : List String)
  | finishing (count : Nat)
  | failing

/-- A run is under way, and its outcome is still to be stored. -/
def Stage.underWay : Stage → Bool
  | .idle | .guarding _ => false
  | _ => true

/-- What a step finds outside: the time, and the tag that the source creates, as it is stored. -/
structure Outside where
  now : Nat
  created : Sync.TagDoc

def setApplyStatus (status : ApplyStatus) (s : Store) : Store :=
  { s with rule := s.rule.map fun doc => { doc with applyStatus := status } }

def setDone (count now : Nat) (s : Store) : Store :=
  { s with rule := s.rule.map fun doc =>
      { doc with applyStatus := .done, lastAppliedAt := some now, lastAppliedCount := count } }

/-- `update_one` by the id of the tag, with `upsert`. -/
def upsertTag (tag : Sync.TagDoc) : List Sync.TagDoc → List Sync.TagDoc
  | [] => [tag]
  | doc :: docs => if doc.sourceId == tag.sourceId then tag :: docs else doc :: upsertTag tag docs

/-- `$addToSet`, of agents of any source. -/
def addTag (tagName : String) (ids : List String) (doc : Sync.AgentDoc) : Sync.AgentDoc :=
  if doc.sourceId ∈ ids ∧ tagName ∉ doc.tags then { doc with tags := doc.tags ++ [tagName] }
  else doc

/-- What raises within the run leads to its `except`, and ends it there. -/
def Stage.raised : Stage → Stage
  | .idle | .guarding _ | .failing => .idle
  | _ => .failing

def goOn (server : Server) (o : Outside) (s : Store) : Stage → Store × Stage
  | .idle => (s, s.rule.elim .idle .guarding)
  | .guarding rule =>
    if s.rule.any fun doc => doc.applyStatus ≠ .running then
      (setApplyStatus .running s, .finding rule)
    else (s, .idle)
  | .finding rule =>
    let ids := (findMatchingAgents server rule.toTagRule s.agents none).1.map
      TagPreviewAgent.sourceId
    (s, if ids.isEmpty then .finishing 0 else .resolving rule.tagName ids)
  | .resolving tagName ids =>
    (s, (s.sourceTags.find? fun doc => doc.name == tagName).elim (.creating tagName ids)
      fun doc => .tagging tagName ids ids doc.sourceId)
  | .creating tagName ids => (s, .keeping tagName ids o.created)
  | .keeping tagName ids tag =>
    ({ s with sourceTags := upsertTag tag s.sourceTags }, .tagging tagName ids ids tag.sourceId)
  | .tagging tagName ids rest tagId =>
    ({ s with requests := s.requests ++ [(rest.take 100, tagId)] },
      if rest.length ≤ 100 then .closing tagName ids
      else .tagging tagName ids (rest.drop 100) tagId)
  | .closing tagName ids => (s, .marking tagName ids)
  | .marking tagName ids =>
    ({ s with agents := s.agents.map (addTag tagName ids) }, .finishing ids.length)
  | .finishing count => (setDone count o.now s, .idle)
  | .failing => (setApplyStatus .failed s, .idle)

def advance (server : Server) (raises : Bool) (o : Outside) (s : Store) (stage : Stage) :
    Store × Stage :=
  if raises then (s, stage.raised) else goOn server o s stage

structure World where
  store : Store
  calls : Nat → Stage := fun _ => .idle

/-- A call goes on, or is made where none is under way. -/
inductive Act where
  | call (i : Nat) (raises : Bool) (o : Outside)
  | edit (tagName : String) (patterns : List TagRulePattern)
  | delete
  | sync (agents : List Sync.AgentDoc) (sourceTags : List Sync.TagDoc)

def perform (server : Server) (w : World) : Act → World
  | .call i raises o =>
    let (store, stage) := advance server raises o w.store (w.calls i)
    { store, calls := Function.update w.calls i stage }
  | .edit tagName patterns =>
    { w with store.rule := w.store.rule.map (fun doc => { doc with tagName, patterns }) }
  | .delete => { w with store.rule := none }
  | .sync agents sourceTags => { w with store := { w.store with agents, sourceTags } }

/-- The rule is marked as being applied, unless it is gone. -/
def Store.Running (s : Store) : Prop := ∀ doc, s.rule = some doc → doc.applyStatus = .running

structure Exclusive (w : World) : Prop where
  single : ∀ i j, (w.calls i).underWay = true → (w.calls j).underWay = true → i = j
  running : ∀ i, (w.calls i).underWay = true → w.store.Running

section Runs

variable {server : Server} {raises : Bool} {o : Outside} {s : Store} {stage : Stage} {w : World}

theorem running_map {f : RuleDoc → RuleDoc} (hf : ∀ doc, (f doc).applyStatus = doc.applyStatus)
    (h : s.Running) : Store.Running { s with rule := s.rule.map f } := by
  intro doc hdoc
  obtain ⟨old, hold, rfl⟩ := Option.map_eq_some_iff.mp hdoc
  exact (hf old).trans (h old hold)

theorem not_running_of_any (h : s.rule.any (fun doc => doc.applyStatus ≠ .running) = true) :
    ¬s.Running := by
  cases hrule : s.rule with
  | none =>
    rw [hrule] at h
    cases h
  | some doc =>
    rw [hrule] at h
    exact fun hrunning => of_decide_eq_true h (hrunning doc hrule)

/-- A run begins where none is marked, and marks itself. -/
theorem advance_begins (hstage : stage.underWay = false)
    (h : (advance server raises o s stage).2.underWay = true) :
    ¬s.Running ∧ (advance server raises o s stage).1.Running := by
  unfold advance at h ⊢
  split at h
  · cases stage with
    | idle | guarding => cases h
    | _ => cases hstage
  · next hraises =>
    rw [if_neg hraises]
    cases stage with
    | idle => cases hrule : s.rule <;> rw [goOn, hrule] at h <;> cases h
    | guarding rule =>
      rw [goOn] at h ⊢
      split at h
      · next hready =>
        rw [if_pos hready]
        refine ⟨not_running_of_any hready, fun doc hdoc => ?_⟩
        obtain ⟨old, -, rfl⟩ := Option.map_eq_some_iff.mp hdoc
        rfl
      · cases h
    | _ => cases hstage

/-- A call outside its run leaves a rule that is being applied. -/
theorem advance_waits (hstage : stage.underWay = false) (h : s.Running) :
    (advance server raises o s stage).1.Running := by
  unfold advance
  split
  · exact h
  · cases stage with
    | idle => exact h
    | guarding rule =>
      rw [goOn]
      split
      · next hready => exact absurd h (not_running_of_any hready)
      · exact h
    | _ => cases hstage

/-- A run leaves the rule until it stores its outcome. -/
theorem advance_keeps (hstage : stage.underWay = true) (h : s.Running)
    (hafter : (advance server raises o s stage).2.underWay = true) :
    (advance server raises o s stage).1.Running := by
  unfold advance at hafter ⊢
  split at hafter
  · next hraises =>
    rw [if_pos hraises]
    exact h
  · next hraises =>
    rw [if_neg hraises]
    cases stage with
    | idle | guarding => cases hstage
    | finishing | failing => cases hafter
    | _ => exact h

theorem Exclusive.call (h : Exclusive w) (i : Nat) (raises : Bool) (o : Outside) :
    Exclusive (perform server w (.call i raises o)) := by
  have hother : ∀ j, j ≠ i → (perform server w (.call i raises o)).calls j = w.calls j :=
    fun j hj => Function.update_of_ne hj ..
  have hself : (perform server w (.call i raises o)).calls i =
      (advance server raises o w.store (w.calls i)).2 :=
    Function.update_self ..
  cases hstage : (w.calls i).underWay with
  | true =>
    have honly : ∀ j, ((perform server w (.call i raises o)).calls j).underWay = true → j = i := by
      intro j hj
      by_contra hne
      rw [hother j hne] at hj
      exact hne (h.single j i hj hstage)
    refine ⟨fun j k hj hk => (honly j hj).trans (honly k hk).symm, fun j hj => ?_⟩
    rw [honly j hj, hself] at hj
    exact advance_keeps hstage (h.running i hstage) hj
  | false =>
    cases hafter : (advance server raises o w.store (w.calls i)).2.underWay with
    | true =>
      obtain ⟨hfree, hrunning⟩ := advance_begins hstage hafter
      have honly : ∀ j, ((perform server w (.call i raises o)).calls j).underWay = true →
          j = i := by
        intro j hj
        by_contra hne
        rw [hother j hne] at hj
        exact hfree (h.running j hj)
      exact ⟨fun j k hj hk => (honly j hj).trans (honly k hk).symm, fun _ _ => hrunning⟩
    | false =>
      have hbefore : ∀ j, ((perform server w (.call i raises o)).calls j).underWay = true →
          (w.calls j).underWay = true := by
        intro j hj
        by_cases hji : j = i
        · rw [hji, hself, hafter] at hj
          cases hj
        · rwa [hother j hji] at hj
      exact ⟨fun j k hj hk => h.single j k (hbefore j hj) (hbefore k hk), fun j hj =>
        advance_waits hstage (h.running j (hbefore j hj))⟩

theorem Exclusive.perform (h : Exclusive w) (act : Act) : Exclusive (perform server w act) := by
  cases act with
  | call i raises o => exact h.call i raises o
  | edit tagName patterns =>
    exact ⟨h.single, fun i hi => running_map (fun _ => rfl) (h.running i hi)⟩
  | delete => exact ⟨h.single, fun _ _ doc hdoc => nomatch hdoc⟩
  | sync agents sourceTags => exact ⟨h.single, h.running⟩

/-- However the calls interleave, and whatever raises, at most one run of the rule is under way,
and the rule is marked as being applied until it ends. -/
theorem one_run (server : Server) (store : Store) (acts : List Act) :
    Exclusive (acts.foldl (perform server) ⟨store, fun _ => .idle⟩) := by
  induction acts using List.reverseRecOn with
  | nil => exact ⟨fun _ _ h => (nomatch h), fun _ h => (nomatch h)⟩
  | append_singleton acts act ih =>
    rw [List.foldl_append]
    exact ih.perform act

end Runs

/-- What a run leaves that nothing comes between: it asks the source to tag the agents that match,
each once and no more than 100 at a time, tags those with their ids here, and counts them. -/
structure Applied (server : Server) (rule : RuleDoc) (now : Nat) (s s' : Store) : Prop where
  done : s'.rule = s.rule.map fun doc => { doc with
    applyStatus := .done, lastAppliedAt := some now,
    lastAppliedCount := (hits server rule.toTagRule s.agents).length }
  requests : ∃ batches tagId, s'.requests = s.requests ++ batches.map (·, tagId) ∧
    (∀ batch ∈ batches, batch ≠ [] ∧ batch.length ≤ 100) ∧
    batches.flatten.Perm ((hits server rule.toTagRule s.agents).map Sync.AgentDoc.sourceId) ∧
    (batches ≠ [] → ∃ tag ∈ s'.sourceTags, tag.sourceId = tagId)
  agents : s'.agents = s.agents.map (addTag rule.tagName
    ((hits server rule.toTagRule s.agents).map Sync.AgentDoc.sourceId))

/-- One step of a call, which does not raise. -/
def Goes (server : Server) (o : Outside) (c d : Store × Stage) : Prop :=
  advance server false o c.1 c.2 = d

section Alone

variable {server : Server} {rule : RuleDoc} {o : Outside} {s : Store} {agents : List Sync.AgentDoc}
  {tags : List Sync.TagDoc} {tagName tagId : String} {ids rest : List String}

theorem goes_of_goOn {c d : Store × Stage} (h : goOn server o c.1 c.2 = d) : Goes server o c d :=
  (if_neg Bool.false_ne_true).trans h

theorem matching_perm (hserver : FindsNames server)
    (hascii : ∀ p ∈ rule.patterns, IsAscii p.pattern) :
    ((findMatchingAgents server rule.toTagRule agents none).1.map TagPreviewAgent.sourceId).Perm
      ((hits server rule.toTagRule agents).map Sync.AgentDoc.sourceId) := by
  unfold findMatchingAgents
  split
  · next hnone =>
    rw [hits_of_no_patterns (List.isEmpty_iff.mp hnone)]
    exact List.Perm.refl []
  · have hresults := (@holds_foldl server rule.toTagRule none
      (agents.filter fun doc => (query server rule.toTagRule).accepts server doc) [] {}
      holds_nil).results
    rw [List.nil_append, hits_query hserver hascii] at hresults
    refine ((perm_sortBy _ _).map _).trans ?_
    rw [hresults, List.map_map]
    exact List.Perm.refl _

theorem tagging_goes (hrest : rest ≠ []) : ∃ batches : List (List String), batches.flatten = rest ∧
    (∀ batch ∈ batches, batch ≠ [] ∧ batch.length ≤ 100) ∧
    Relation.ReflTransGen (Goes server o) (s, .tagging tagName ids rest tagId)
      ({ s with requests := s.requests ++ batches.map (·, tagId) }, .closing tagName ids) := by
  induction hn : rest.length using Nat.strong_induction_on generalizing s rest with
  | _ n ih =>
    by_cases hlast : rest.length ≤ 100
    · refine ⟨[rest], List.flatten_singleton .., ?_, .single ?_⟩
      · simpa using ⟨hrest, hlast⟩
      · refine goes_of_goOn ?_
        rw [goOn, if_pos hlast, List.take_of_length_le hlast]
        rfl
    · have hmore : rest.drop 100 ≠ [] := by simpa [List.drop_eq_nil_iff] using hlast
      obtain ⟨batches, hflatten, hsizes, hgoes⟩ := ih (rest.drop 100).length
        (by rw [List.length_drop]; omega)
        (s := { s with requests := s.requests ++ [(rest.take 100, tagId)] }) hmore rfl
      refine ⟨rest.take 100 :: batches, ?_, List.forall_mem_cons.mpr ⟨?_, hsizes⟩, ?_⟩
      · rw [List.flatten_cons, hflatten, List.take_append_drop]
      · exact ⟨by simpa using hrest, List.length_take_le ..⟩
      · rw [List.map_cons, List.append_cons]
        refine .head (goes_of_goOn ?_) hgoes
        rw [goOn, if_neg hlast]

theorem tagging_applies (hids : ids ≠ [])
    (hperm : ids.Perm ((hits server rule.toTagRule s.agents).map Sync.AgentDoc.sourceId))
    (htag : ∃ tag ∈ tags, tag.sourceId = tagId) :
    ∃ s', Relation.ReflTransGen (Goes server o)
      ({ setApplyStatus .running s with sourceTags := tags }, .tagging rule.tagName ids ids tagId)
      (s', .idle) ∧ Applied server rule o.now s s' := by
  obtain ⟨batches, hflatten, hsizes, hgoes⟩ := @tagging_goes server o
    { setApplyStatus .running s with sourceTags := tags } rule.tagName tagId ids ids hids
  refine ⟨_, hgoes.tail rfl |>.tail rfl |>.tail rfl, ?_, ⟨batches, tagId, rfl, hsizes, ?_, ?_⟩, ?_⟩
  · show (s.rule.map _).map _ = _
    rw [Option.map_map, hperm.length_eq, List.length_map]
    rfl
  · rwa [hflatten]
  · exact fun _ => htag
  · refine List.map_congr_left fun doc _ => ?_
    simp only [addTag, hperm.mem_iff]

theorem mem_upsertTag (tag : Sync.TagDoc) : tag ∈ upsertTag tag tags := by
  induction tags with
  | nil => exact List.mem_cons_self
  | cons doc docs ih =>
    rw [upsertTag]
    split
    · exact List.mem_cons_self
    · exact List.mem_cons_of_mem _ ih

/-- A run that nothing raises in and nothing comes between ends, with the rule applied. -/
theorem run_applies (server : Server) (hserver : FindsNames server) (rule : RuleDoc)
    (hascii : ∀ p ∈ rule.patterns, IsAscii p.pattern) (o : Outside) (s : Store)
    (hready : s.rule.any (fun doc => doc.applyStatus ≠ .running) = true) :
    ∃ s', Relation.ReflTransGen (Goes server o) (s, .guarding rule) (s', .idle) ∧
      Applied server rule o.now s s' := by
  have hguard : Goes server o (s, .guarding rule) (setApplyStatus .running s, .finding rule) :=
    if_pos hready
  generalize hids : (findMatchingAgents server rule.toTagRule s.agents none).1.map
    TagPreviewAgent.sourceId = ids
  have hperm := hids ▸ @matching_perm server rule s.agents hserver hascii
  have hfind : Goes server o (setApplyStatus .running s, .finding rule) (setApplyStatus .running s,
      if ids.isEmpty then .finishing 0 else .resolving rule.tagName ids) := by
    rw [← hids]
    rfl
  by_cases hnone : ids = []
  · rw [hnone] at hfind hperm
    have hnil := hperm.symm.eq_nil
    refine ⟨_, .head hguard (.head hfind (.single rfl)), ?_, ⟨[], "", ?_, nofun, hperm, nofun⟩, ?_⟩
    · show (s.rule.map _).map _ = _
      rw [Option.map_map, List.map_eq_nil_iff.mp hnil]
      rfl
    · exact (List.append_nil _).symm
    · have hsame : addTag rule.tagName [] = id := funext fun doc => if_neg fun h => nomatch h.1
      rw [hnil, hsame, List.map_id]
      rfl
  · rw [if_neg (by simpa using hnone)] at hfind
    cases htag : s.sourceTags.find? fun doc => doc.name == rule.tagName with
    | some tag =>
      obtain ⟨s', hgoes, happlied⟩ := @tagging_applies server rule o s s.sourceTags
        tag.sourceId ids hnone hperm ⟨tag, List.mem_of_find?_eq_some htag, rfl⟩
      refine ⟨s', .head hguard (.head hfind (.head ?_ hgoes)), happlied⟩
      refine goes_of_goOn ?_
      rw [goOn, show (setApplyStatus .running s).sourceTags = s.sourceTags from rfl, htag]
      rfl
    | none =>
      obtain ⟨s', hgoes, happlied⟩ := @tagging_applies server rule o s
        (upsertTag o.created s.sourceTags) o.created.sourceId ids hnone hperm
        ⟨o.created, mem_upsertTag o.created, rfl⟩
      have hcreate : Goes server o (setApplyStatus .running s, .creating rule.tagName ids)
          (setApplyStatus .running s, .keeping rule.tagName ids o.created) := rfl
      refine ⟨s', .head hguard (.head hfind (.head ?_ (.head hcreate (.head rfl hgoes)))), happlied⟩
      refine goes_of_goOn ?_
      rw [goOn, show (setApplyStatus .running s).sourceTags = s.sourceTags from rfl, htag]
      rfl

end Alone

def newTag : Sync.TagDoc where
  id := "t"
  source := "sentinelone"
  sourceId := "7"
  name := "browser"

def browserDoc : RuleDoc := { toTagRule := browserRule, tagName := "browser" }

def untagged : Store where
  rule := some browserDoc
  agents := offices

theorem browsers_are_tagged :
    ∃ s', Relation.ReflTransGen (Goes asciiServer ⟨5, newTag⟩) (untagged, .guarding browserDoc)
      (s', .idle) ∧ Applied asciiServer browserDoc 5 untagged s' :=
  have hascii : (browserRule.patterns.all fun p =>
      p.pattern.toList.all fun c => c.toNat < 128) = true := by decide +kernel
  run_applies asciiServer findsNames_asciiServer browserDoc
    (fun p hp => isAscii_of_all (List.all_eq_true.mp hascii p hp)) ⟨5, newTag⟩ untagged rfl

end Sentora.Tags
