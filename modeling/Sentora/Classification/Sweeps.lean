import Sentora.Classification.Run
import Sentora.Lib.PageCuts

namespace Sentora.Classification

open Lib

section Keyset

variable {agents : List Sync.AgentDoc} {lastSeenId : Option String} {a last : Sync.AgentDoc}

theorem pairwise_id_sortBy (hids : (agents.map Sync.AgentDoc.id).Nodup) :
    (sortBy Sync.AgentDoc.id (afterId lastSeenId agents)).Pairwise fun a b => a.id < b.id := by
  have hsorted : (sortBy Sync.AgentDoc.id (afterId lastSeenId agents)).Pairwise
      fun a b => a.id ≤ b.id := List.pairwise_insertionSort _ _
  have hdistinct : ((sortBy Sync.AgentDoc.id (afterId lastSeenId agents)).map
      Sync.AgentDoc.id).Nodup :=
    ((perm_sortBy _ _).map _).nodup_iff.mpr (hids.sublist (List.filter_sublist.map _))
  exact (hsorted.and (List.pairwise_map.mp hdistinct)).imp fun ⟨hle, hne⟩ => lt_of_le_of_ne hle hne

theorem sortBy_afterId {batch rest : List Sync.AgentDoc}
    (hids : (agents.map Sync.AgentDoc.id).Nodup)
    (h : sortBy Sync.AgentDoc.id (afterId lastSeenId agents) = batch ++ rest)
    (hlast : batch.getLast? = some last) :
    sortBy Sync.AgentDoc.id (afterId (some last.id) agents) = rest := by
  have hmem : last ∈ batch := List.mem_of_getLast? hlast
  have hbehind : lastSeenId.all (· < last.id) = true := by
    have hin : last ∈ sortBy Sync.AgentDoc.id (afterId lastSeenId agents) :=
      h ▸ List.mem_append_left rest hmem
    exact (List.mem_filter.mp ((mem_sortBy _).mp hin)).2
  have hafter : afterId (some last.id) agents =
      (afterId lastSeenId agents).filter fun a => last.id < a.id := by
    unfold afterId
    rw [List.filter_filter]
    refine List.filter_congr fun a _ => ?_
    rw [Option.all_some, Bool.eq_iff_iff, Bool.and_eq_true, decide_eq_true_iff]
    refine ⟨fun hlt => ⟨hlt, ?_⟩, And.left⟩
    cases lastSeenId with
    | none => rfl
    | some seen =>
      rw [Option.all_some, decide_eq_true_iff] at hbehind ⊢
      exact hbehind.trans hlt
  have hsorted := @pairwise_id_sortBy agents lastSeenId hids
  rw [h] at hsorted
  obtain ⟨hbatch, -, hcross⟩ := List.pairwise_append.mp hsorted
  have hfirst : batch.filter (fun a => last.id < a.id) = [] := by
    obtain ⟨before, rfl⟩ := List.getLast?_eq_some_iff.mp hlast
    rw [List.filter_eq_nil_iff]
    intro a ha
    rw [decide_eq_true_iff, not_lt]
    rcases List.mem_append.mp ha with hbefore | hsame
    · exact ((List.pairwise_append.mp hbatch).2.2 a hbefore last List.mem_cons_self).le
    · rw [List.mem_singleton.mp hsame]
  have hrest : rest.filter (fun a => last.id < a.id) = rest := by
    rw [List.filter_eq_self]
    exact fun a ha => decide_eq_true (hcross last hmem a ha)
  rw [hafter, sortBy_filter_gt, h, List.filter_append, hfirst, hrest, List.nil_append]

end Keyset

section Sweep

variable {F : Type} [DecidableEq F] {result : Sync.AgentDoc → ClassificationResult F} {size : Nat}
  {fails : Failures} {agents rest : List Sync.AgentDoc} {k : Nat} {p q : Progress F}

/-- The loop leads from its batch `k` on, with the agents that are left, to a progress. -/
inductive Sweeps (result : Sync.AgentDoc → ClassificationResult F) (size : Nat)
    (fails : Failures) : Nat → List Sync.AgentDoc → Progress F → Progress F → Prop where
  | unfetched {k : Nat} {rest : List Sync.AgentDoc} {p : Progress F} (h : fails.fetch k = true) :
    Sweeps result size fails k rest p { p with errors := p.errors + 1 }
  | nothing {k : Nat} {p : Progress F} (h : fails.fetch k = false) :
    Sweeps result size fails k [] p p
  | last {k : Nat} {rest : List Sync.AgentDoc} {p : Progress F} (h : fails.fetch k = false)
      (hne : rest ≠ []) (hshort : rest.length < size) :
    Sweeps result size fails k rest p (classifyBatch result fails k rest p)
  | more {k : Nat} {rest : List Sync.AgentDoc} {p q : Progress F} (h : fails.fetch k = false)
      (hfull : size ≤ rest.length)
      (hrest : Sweeps result size fails (k + 1) (rest.drop size)
        (classifyBatch result fails k (rest.take size) p) q) :
    Sweeps result size fails k rest p q

theorem sweeps_runBatches (hsize : 0 < size) (hids : (agents.map Sync.AgentDoc.id).Nodup)
    {fuel : Nat} {lastSeenId : Option String}
    (h : sortBy Sync.AgentDoc.id (afterId lastSeenId agents) = rest)
    (hfuel : rest.length < fuel) :
    Sweeps result size fails k rest p
      (runBatches result size fails agents fuel k lastSeenId p) := by
  induction fuel generalizing k lastSeenId rest p with
  | zero => cases hfuel
  | succ fuel ih =>
    rw [runBatches]
    by_cases hfetch : fails.fetch k = true
    · rw [if_pos hfetch]
      exact .unfetched hfetch
    · rw [if_neg hfetch]
      rw [Bool.not_eq_true] at hfetch
      have hbatch : fetchBatch size lastSeenId agents = rest.take size := by rw [fetchBatch, h]
      simp only [hbatch]
      cases hlast : (rest.take size).getLast? with
      | none =>
        rw [List.getLast?_eq_none_iff, List.take_eq_nil_iff] at hlast
        rw [hlast.resolve_left hsize.ne']
        exact .nothing hfetch
      | some last =>
        have hne : rest ≠ [] := by
          rintro rfl
          rw [List.take_nil] at hlast
          cases hlast
        have hsplit := sortBy_afterId hids (h.trans (List.take_append_drop size rest).symm) hlast
        have hlength : (rest.take size).length = min size rest.length := List.length_take
        by_cases hshort : rest.length < size
        · have hall : rest.take size = rest := List.take_of_length_le hshort.le
          simp only [hall, if_pos hshort]
          exact .last hfetch hne hshort
        · have hfull : ¬(rest.take size).length < size := by omega
          simp only [if_neg hfull]
          refine .more hfetch (not_lt.mp hshort) (ih hsplit ?_)
          rw [List.length_drop]
          omega

end Sweep

section Bulk

variable {F : Type} [DecidableEq F] {results : Results F} {ds : List (ClassificationResult F)}

theorem foldl_upsertResult {n : Nat} :
    (ds.foldl upsertResult (results, n)).1 = results.bulkReplace ds ∧
      (ds.foldl upsertResult (results, n)).2 ≤ n + ds.length := by
  induction ds generalizing results n with
  | nil => exact ⟨rfl, Nat.le_refl n⟩
  | cons d rest ih =>
    obtain ⟨hresults, hwritten⟩ := @ih (results.replaceOne d)
      (n + if results.get d.agentId = some d then 0 else 1)
    refine ⟨hresults, ?_⟩
    rw [List.length_cons]
    refine Nat.le_trans hwritten ?_
    split
    · omega
    · omega

theorem bulkUpsertResults_results : (bulkUpsertResults results ds).1 = results.bulkReplace ds :=
  foldl_upsertResult.1

theorem written_eq (hds : (ds.map fun r => r.agentId).Nodup) (hnew : ∀ d ∈ ds, ¬d ∈ results) :
    (bulkUpsertResults results ds).2 = ds.length := by
  have hall : ∀ n, (ds.foldl upsertResult (results, n)).2 = n + ds.length := by
    induction ds generalizing results with
    | nil => exact fun n => rfl
    | cons d rest ih =>
      intro n
      rw [List.map_cons, List.nodup_cons] at hds
      have hget : results.get d.agentId ≠ some d := by
        intro hget
        exact hnew d List.mem_cons_self (Collection.get_eq_some_iff.mp hget).1
      have hrest : ∀ e ∈ rest, ¬e ∈ results.replaceOne d := by
        intro e he hmem
        rcases Collection.mem_replaceOne.mp hmem with rfl | ⟨hold, -⟩
        · exact hds.1 (List.mem_map_of_mem he)
        · exact hnew e (List.mem_cons_of_mem d he) hold
      rw [List.foldl_cons, upsertResult, if_neg hget, ih hds.2 hrest, List.length_cons]
      omega
  exact (hall 0).trans (Nat.zero_add _)

end Bulk

section Stored

variable {F : Type} {result : Sync.AgentDoc → ClassificationResult F} {fails : Failures}

def isStored (fails : Failures) (a : Sync.AgentDoc) : Bool := !fails.write a && !fails.classify a

def storedResults (result : Sync.AgentDoc → ClassificationResult F) (fails : Failures)
    (agents : List Sync.AgentDoc) : List (ClassificationResult F) :=
  (agents.filter (isStored fails)).map result

theorem storedResults_append {as bs : List Sync.AgentDoc} :
    storedResults result fails (as ++ bs) =
      storedResults result fails as ++ storedResults result fails bs := by
  unfold storedResults
  rw [List.filter_append, List.map_append]

end Stored

section Account

variable {F : Type} [DecidableEq F] {result : Sync.AgentDoc → ClassificationResult F} {size : Nat}
  {fails : Failures} {batch rest : List Sync.AgentDoc} {k n : Nat} {p q : Progress F}

theorem results_classifyBatch :
    (classifyBatch result fails k batch p).results =
      p.results.bulkReplace (storedResults result fails batch) := by
  unfold classifyBatch storedResults
  dsimp only
  rw [bulkUpsertResults_results, List.filter_filter]
  rfl

theorem counts_classifyBatch :
    (classifyBatch result fails k batch p).classified +
        (classifyBatch result fails k batch p).errors =
      p.classified + p.errors + batch.length := by
  unfold classifyBatch
  have hfound := List.length_filter_le (fun a => !fails.classify a) batch
  dsimp only
  split
  · omega
  · omega

/-- The first of some steps, and the others. -/
theorem none_raised_succ {raises : Nat → Bool} :
    (∀ j < n + 1, raises (k + j) = false) ↔
      raises k = false ∧ ∀ j < n, raises (k + 1 + j) = false := by
  rw [Nat.forall_lt_succ_left]
  refine and_congr Iff.rfl (forall₂_congr fun j _ => ?_)
  rw [Nat.add_right_comm, Nat.add_assoc]

/-- No batch from `k` on cannot be fetched, where `n` agents are left. -/
def Fetched (fails : Failures) (size k n : Nat) : Prop :=
  ∀ j ≤ n / size, fails.fetch (k + j) = false

theorem fetched_succ (hsize : 0 < size) (hfull : size ≤ n) :
    Fetched fails size k n ↔ fails.fetch k = false ∧ Fetched fails size (k + 1) (n - size) := by
  unfold Fetched
  simp only [← Nat.lt_succ_iff]
  rw [Nat.div_eq_sub_div hsize hfull]
  exact none_raised_succ

theorem fetched_of_lt (h : fails.fetch k = false) (hshort : n < size) :
    Fetched fails size k n := by
  intro j hj
  rw [Nat.div_eq_of_lt hshort] at hj
  rw [Nat.le_zero.mp hj]
  exact h

theorem Sweeps.account (hsize : 0 < size) (h : Sweeps result size fails k rest p q) :
    ∃ m ≤ rest.length,
      q.results = p.results.bulkReplace (storedResults result fails (rest.take m)) ∧
      ((Fetched fails size k rest.length ∧ m = rest.length ∧
          q.classified + q.errors = p.classified + p.errors + m) ∨
        (¬Fetched fails size k rest.length ∧
          q.classified + q.errors = p.classified + p.errors + m + 1)) := by
  induction h with
  | unfetched h =>
    refine ⟨0, Nat.zero_le _, rfl, Or.inr ⟨fun hall => ?_, rfl⟩⟩
    have hfirst := hall 0 (Nat.zero_le _)
    rw [Nat.add_zero, h] at hfirst
    cases hfirst
  | nothing h => exact ⟨0, Nat.zero_le _, rfl, Or.inl ⟨fetched_of_lt h hsize, rfl, rfl⟩⟩
  | @last k rest p h hne hshort =>
    refine ⟨rest.length, Nat.le_refl _, ?_,
      Or.inl ⟨fetched_of_lt h hshort, rfl, counts_classifyBatch⟩⟩
    rw [List.take_length]
    exact results_classifyBatch
  | @more k rest p q h hfull hrest ih =>
    obtain ⟨m, hm, hresults, hcases⟩ := ih
    rw [List.length_drop] at hm hcases
    have hbatch : (rest.take size).length = size := List.length_take_of_le hfull
    have hcounts := @counts_classifyBatch F _ result fails (rest.take size) k p
    rw [hbatch] at hcounts
    refine ⟨size + m, by omega, ?_, ?_⟩
    · rw [hresults, results_classifyBatch, List.take_add, storedResults_append,
        Collection.bulkReplace_append]
    · rw [fetched_succ hsize hfull]
      rcases hcases with ⟨hfetched, heq, hsum⟩ | ⟨hunfetched, hsum⟩
      · exact Or.inl ⟨⟨h, hfetched⟩, by omega, by omega⟩
      · exact Or.inr ⟨fun hall => hunfetched hall.2, by omega⟩

theorem errors_classifyBatch (hstored : ∀ a ∈ batch, isStored fails a = true)
    (hkeys : ((batch.map result).map fun r => r.agentId).Nodup)
    (hnew : ∀ a ∈ batch, ¬result a ∈ p.results) :
    (classifyBatch result fails k batch p).errors =
      p.errors + if fails.upsert k then batch.length else 0 := by
  have hclassified : batch.filter (fun a => !fails.classify a) = batch :=
    List.filter_eq_self.mpr fun a ha => (Bool.and_eq_true_iff.mp (hstored a ha)).2
  have hwritten : batch.filter (fun a => !fails.write a) = batch :=
    List.filter_eq_self.mpr fun a ha => (Bool.and_eq_true_iff.mp (hstored a ha)).1
  unfold classifyBatch
  dsimp only
  rw [hclassified, hwritten, written_eq hkeys, List.length_map]
  · split
    · omega
    · omega
  · intro d hd
    obtain ⟨a, ha, rfl⟩ := List.mem_map.mp hd
    exact hnew a ha

theorem errors_le_classifyBatch : p.errors ≤ (classifyBatch result fails k batch p).errors := by
  show p.errors ≤ p.errors + _ + _
  omega

theorem errors_classifyBatch_eq_iff (hne : batch ≠ [])
    (hstored : ∀ a ∈ batch, isStored fails a = true)
    (hkeys : ((batch.map result).map fun r => r.agentId).Nodup)
    (hnew : ∀ a ∈ batch, ¬result a ∈ p.results) :
    (classifyBatch result fails k batch p).errors = p.errors ↔ fails.upsert k = false := by
  have hlength := List.length_pos_iff.mpr hne
  rw [errors_classifyBatch hstored hkeys hnew]
  cases fails.upsert k with
  | false => exact iff_of_true rfl rfl
  | true =>
    rw [if_pos rfl]
    exact iff_of_false (by omega) nofun

theorem new_classifyBatch (hnew : ∀ a ∈ rest, ¬result a ∈ p.results)
    (hdisjoint : ((batch.map result).map fun r => r.agentId).Disjoint
      ((rest.map result).map fun r => r.agentId)) :
    ∀ a ∈ rest, ¬result a ∈ (classifyBatch result fails k batch p).results := by
  intro a ha hmem
  rw [results_classifyBatch] at hmem
  rcases Collection.mem_or_mem_of_bulkReplace hmem with hwritten | hold
  · obtain ⟨b, hb, hsame⟩ := List.mem_map.mp hwritten
    exact hdisjoint (List.mem_map_of_mem (List.mem_map_of_mem (List.mem_filter.mp hb).1))
      (hsame ▸ List.mem_map_of_mem (List.mem_map_of_mem ha))
  · exact hnew a ha hold

theorem Sweeps.errors_le (h : Sweeps result size fails k rest p q) : p.errors ≤ q.errors := by
  induction h with
  | unfetched => exact Nat.le_succ _
  | nothing => exact Nat.le_refl _
  | last => exact errors_le_classifyBatch
  | more _ _ _ ih => exact Nat.le_trans errors_le_classifyBatch ih

theorem pageCount_of_le (hsize : 0 < size) (hfull : size ≤ n) :
    pageCount size n = pageCount size (n - size) + 1 := by
  unfold pageCount
  rw [Nat.div_eq_sub_div hsize (by omega)]
  congr 2
  omega

theorem pageCount_of_lt (hpos : 0 < n) (hshort : n < size) : pageCount size n = 1 := by
  unfold pageCount
  exact Nat.div_eq_of_lt_le (by omega) (by omega)

theorem Sweeps.errors_eq_iff (hsize : 0 < size) (h : Sweeps result size fails k rest p q)
    (hfetched : Fetched fails size k rest.length)
    (hstored : ∀ a ∈ rest, isStored fails a = true)
    (hkeys : ((rest.map result).map fun r => r.agentId).Nodup)
    (hnew : ∀ a ∈ rest, ¬result a ∈ p.results) :
    q.errors = p.errors ↔ ∀ j < pageCount size rest.length, fails.upsert (k + j) = false := by
  induction h with
  | @unfetched k rest p h =>
    have hfirst := hfetched 0 (Nat.zero_le _)
    rw [Nat.add_zero, h] at hfirst
    cases hfirst
  | nothing h =>
    refine iff_of_true rfl fun j hj => ?_
    have hnone := mul_lt_of_lt_pageCount hj
    exact absurd hnone (Nat.not_lt_zero _)
  | @last k rest p h hne hshort =>
    rw [pageCount_of_lt (List.length_pos_iff.mpr hne) hshort, none_raised_succ,
      errors_classifyBatch_eq_iff hne hstored hkeys hnew]
    exact (and_iff_left fun j hj => absurd hj (Nat.not_lt_zero j)).symm
  | @more k rest p q h hfull hrest ih =>
    rw [fetched_succ hsize hfull] at hfetched
    rw [← List.take_append_drop size rest, List.map_append, List.map_append,
      List.nodup_append'] at hkeys
    obtain ⟨hbatchKeys, hrestKeys, hdisjoint⟩ := hkeys
    have hne : rest.take size ≠ [] := by
      rw [← List.length_pos_iff, List.length_take_of_le hfull]
      exact hsize
    have hbatch := @errors_classifyBatch_eq_iff F _ result fails (rest.take size) k p hne
      (fun a ha => hstored a (List.mem_of_mem_take ha)) hbatchKeys
      fun a ha => hnew a (List.mem_of_mem_take ha)
    have hmore := @new_classifyBatch F _ result fails (rest.take size) (rest.drop size) k p
      (fun a ha => hnew a (List.mem_of_mem_drop ha)) hdisjoint
    have hlater := ih (by rw [List.length_drop]; exact hfetched.2)
      (fun a ha => hstored a (List.mem_of_mem_drop ha)) hrestKeys hmore
    rw [List.length_drop] at hlater
    rw [pageCount_of_le hsize hfull, none_raised_succ, ← hbatch, ← hlater]
    have hlow := @errors_le_classifyBatch F _ result fails (rest.take size) k p
    have hhigh := hrest.errors_le
    constructor
    · intro heq
      exact ⟨by omega, by omega⟩
    · intro ⟨hfirst, hothers⟩
      omega

end Account

end Sentora.Classification
