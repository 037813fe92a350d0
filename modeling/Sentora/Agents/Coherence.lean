import Sentora.Agents.Settling

/-!
# Coherence of the matcher cache

Whether a call for a matcher gets one whose entries were read behind every write of a
service that had returned before.

A matcher is stored under the lock, which the invalidation waits for, so that it is gone
or new when the service returns.  A rebuild stores its matcher without the lock, and
`toggle_universal` does not invalidate.
-/

namespace Sentora.Agents

open Lib Process Taxonomy

variable {ι : Type}

/-- No matcher of a database is stored, or is being loaded under the lock, that was read before
a write. -/
def Unseen (s : System ι) (db : String) (wrote : Nat) : Prop :=
  (∀ kind m, s.matchers kind db = some m → wrote ≤ m.readAt) ∧
    ∀ i kind since m, s.task i = .getter kind db since (.loaded m) → wrote ≤ m.readAt

/-- A rebuild stores a matcher that was read behind the writes of the services that have
invalidated or returned, and `toggle_universal` returns where no matcher is older than its
write. -/
def Good (s : System ι) : Act ι → Prop
  | .start _ _ => True
  | .advance i =>
    match s.task i with
    | .service db (.toggleUniversal _) wrote true (.ret (.ok _)) => Unseen s db wrote
    | .rebuild db _ (.loaded m) => s.settled db ≤ m.readAt
    | _ => True

def TaskOk (s : System ι) (i : ι) : Task → Prop
  | .idle => True
  | .service db request wrote dirty rest =>
    wrote ≤ s.writes db ∧ (dirty = false → wrote ≤ s.settled db) ∧
      ((∀ entryId, request ≠ .toggleUniversal entryId) → Follows settling Clean dirty rest)
  | .getter _ db since .reading => since ≤ s.settled db ∧ s.lock = some i
  | .getter _ db since (.loaded m) =>
    since ≤ s.settled db ∧ s.lock = some i ∧ s.settled db ≤ m.readAt
  | .getter _ db since _ => since ≤ s.settled db
  | .rebuild _ _ _ => True

structure Coherent (s : System ι) : Prop where
  settled_le : ∀ db, s.settled db ≤ s.writes db
  returned_le : ∀ db, s.returned db ≤ s.settled db
  stored : ∀ kind db m, s.matchers kind db = some m → s.settled db ≤ m.readAt
  tasks : ∀ i, TaskOk s i (s.task i)
  answers : ∀ a ∈ s.answers, a.since ≤ a.matcher.readAt

section Parts

variable {s t : System ι} {i : ι} {task : Task} {db : String} {wrote : Nat}

theorem TaskOk.mono (h : TaskOk s i task) (hwrites : ∀ db, s.writes db ≤ t.writes db)
    (hsettled : t.settled = s.settled) (hlock : s.lock = some i → t.lock = some i) :
    TaskOk t i task := by
  cases task with
  | idle => trivial
  | service db request wrote dirty rest =>
    obtain ⟨hwrote, hclean, hfollows⟩ := h
    refine ⟨hwrote.trans (hwrites db), fun hdirty => ?_, hfollows⟩
    rw [hsettled]
    exact hclean hdirty
  | getter kind db since at_ =>
    cases at_ with
    | looking =>
      show since ≤ t.settled db
      rw [hsettled]
      exact h
    | waiting =>
      show since ≤ t.settled db
      rw [hsettled]
      exact h
    | reading =>
      show since ≤ t.settled db ∧ t.lock = some i
      rw [hsettled]
      exact ⟨h.1, hlock h.2⟩
    | loaded m =>
      show since ≤ t.settled db ∧ t.lock = some i ∧ t.settled db ≤ m.readAt
      rw [hsettled]
      exact ⟨h.1, hlock h.2.1, h.2.2⟩
  | rebuild db hasApps at_ => trivial

variable [DecidableEq ι] in
theorem Coherent.relock (h : Coherent s) (lock : Option ι)
    (hothers : ∀ j, j ≠ i → s.lock ≠ some j) (hi : TaskOk { s with lock := lock } i task) :
    Coherent ({ s with lock := lock }.become i task) := by
  refine ⟨h.settled_le, h.returned_le, h.stored, fun j => ?_, h.answers⟩
  show TaskOk { s with lock := lock } j (Function.update s.task i task j)
  by_cases hj : j = i
  · rw [hj, Function.update_self]
    exact hi
  · rw [Function.update_of_ne hj]
    exact (h.tasks j).mono (fun _ => le_rfl) rfl fun hlock => absurd hlock (hothers j hj)

variable [DecidableEq ι] in
theorem Coherent.become (h : Coherent s) (hi : TaskOk s i task) : Coherent (s.become i task) := by
  refine ⟨h.settled_le, h.returned_le, h.stored, fun j => ?_, h.answers⟩
  show TaskOk s j (Function.update s.task i task j)
  by_cases hj : j = i
  · rw [hj, Function.update_self]
    exact hi
  · rw [Function.update_of_ne hj]
    exact h.tasks j

theorem Coherent.put (h : Coherent s) {kind : Kind} {m : Option Loaded}
    (hm : ∀ loaded, m = some loaded → s.settled db ≤ loaded.readAt) :
    Coherent (s.put kind db m) := by
  refine ⟨h.settled_le, h.returned_le, fun kind' db' loaded hloaded => ?_, h.tasks, h.answers⟩
  have hstored : Function.update s.matchers kind (Function.update (s.matchers kind) db m)
    kind' db' = some loaded := hloaded
  by_cases hkind : kind' = kind
  · rw [hkind, Function.update_self] at hstored
    by_cases hdb : db' = db
    · rw [hdb, Function.update_self] at hstored
      rw [hdb]
      exact hm loaded hstored
    · rw [Function.update_of_ne hdb] at hstored
      exact h.stored kind db' loaded hstored
  · rw [Function.update_of_ne hkind] at hstored
    exact h.stored kind' db' loaded hstored

/-- A matcher is returned that no write from before the call is behind. -/
theorem Coherent.answered (h : Coherent s) {since : Nat} {m : Loaded} (hm : since ≤ m.readAt) :
    Coherent { s with answers := s.answers ++ [Answer.mk db since m] } := by
  refine ⟨h.settled_le, h.returned_le, h.stored, fun j => ?_, fun a ha => ?_⟩
  · exact (h.tasks j).mono (fun _ => le_rfl) rfl id
  · rcases List.mem_append.mp ha with hold | hnew
    · exact h.answers a hold
    · rw [List.mem_singleton.mp hnew]
      exact hm

theorem Coherent.clear (h : Coherent s) : Coherent s.clear := by
  refine ⟨h.settled_le, h.returned_le, fun kind db m hm => ?_, fun j => ?_, h.answers⟩
  · cases hm
  · exact (h.tasks j).mono (fun _ => le_rfl) rfl id

theorem settle_self : (s.settle db wrote).settled db = max (s.settled db) wrote :=
  Function.update_self ..

theorem settle_other {db' : String} (h : db' ≠ db) :
    (s.settle db wrote).settled db' = s.settled db' :=
  Function.update_of_ne h ..

theorem settled_le_settle (db' : String) : s.settled db' ≤ (s.settle db wrote).settled db' := by
  by_cases hdb : db' = db
  · rw [hdb, settle_self]
    exact Nat.le_max_left ..
  · rw [settle_other hdb]

theorem settle_le {db' : String} {n : Nat} (h : s.settled db' ≤ n) (hwrote : db' = db → wrote ≤ n) :
    (s.settle db wrote).settled db' ≤ n := by
  by_cases hdb : db' = db
  · rw [hdb, settle_self, Nat.max_le, ← hdb]
    exact ⟨h, hwrote hdb⟩
  · rw [settle_other hdb]
    exact h

theorem TaskOk.settle (h : TaskOk s i task)
    (hunseen : ∀ kind since m, task = .getter kind db since (.loaded m) → wrote ≤ m.readAt) :
    TaskOk (s.settle db wrote) i task := by
  cases task with
  | idle => trivial
  | service db' request wrote' dirty rest =>
    exact ⟨h.1, fun hdirty => (h.2.1 hdirty).trans (settled_le_settle db'), h.2.2⟩
  | getter kind db' since at_ =>
    cases at_ with
    | looking => exact le_trans h (settled_le_settle db')
    | waiting => exact le_trans h (settled_le_settle db')
    | reading => exact ⟨h.1.trans (settled_le_settle db'), h.2⟩
    | loaded m =>
      refine ⟨h.1.trans (settled_le_settle db'), h.2.1, settle_le h.2.2 fun hdb => ?_⟩
      rw [hdb] at hunseen
      exact hunseen kind since m rfl
  | rebuild db' hasApps at_ => trivial

theorem Coherent.settle (h : Coherent s) (hwrote : wrote ≤ s.writes db)
    (hunseen : Unseen s db wrote) : Coherent (s.settle db wrote) := by
  refine ⟨fun db' => ?_, fun db' => ?_, fun kind db' m hm => ?_, fun j => ?_, h.answers⟩
  · exact settle_le (h.settled_le db') fun hdb => hdb ▸ hwrote
  · exact (h.returned_le db').trans (settled_le_settle db')
  · refine settle_le (h.stored kind db' m hm) fun hdb => ?_
    rw [hdb] at hm
    exact hunseen.1 kind m hm
  · exact (h.tasks j).settle (hunseen.2 j)

theorem unseen_of_le_settled (h : Coherent s) (hwrote : wrote ≤ s.settled db) :
    Unseen s db wrote := by
  refine ⟨fun kind m hm => hwrote.trans (h.stored kind db m hm), fun j kind since m hj => ?_⟩
  have hok := h.tasks j
  rw [hj] at hok
  exact hwrote.trans hok.2.2

theorem unseen_clear (h : Coherent s) (hlock : s.lock = none) : Unseen s.clear db wrote := by
  refine ⟨fun kind m hm => ?_, fun j kind since m hj => ?_⟩
  · cases hm
  · have hok := h.tasks j
    have hj' : s.task j = .getter kind db since (.loaded m) := hj
    rw [hj'] at hok
    have hheld : s.lock = some j := hok.2.1
    rw [hlock] at hheld
    cases hheld

theorem Coherent.unlocked (h : Coherent s) (rebuildLock : Option ι) :
    Coherent { s with rebuildLock := rebuildLock } :=
  ⟨h.settled_le, h.returned_le, h.stored, fun j => (h.tasks j).mono (fun _ => le_rfl) rfl id,
    h.answers⟩

theorem Coherent.returns (h : Coherent s) {wrote : Nat} (hwrote : wrote ≤ s.settled db) :
    Coherent { s with
      returned := Function.update s.returned db (max (s.returned db) wrote) } := by
  refine ⟨h.settled_le, fun db' => ?_, h.stored, fun j => ?_, h.answers⟩
  · show Function.update s.returned db (max (s.returned db) wrote) db' ≤ s.settled db'
    by_cases hdb : db' = db
    · rw [hdb, Function.update_self]
      exact Nat.max_le.mpr ⟨h.returned_le db, hwrote⟩
    · rw [Function.update_of_ne hdb]
      exact h.returned_le db'
  · exact (h.tasks j).mono (fun _ => le_rfl) rfl id

theorem Coherent.stores (h : Coherent s) (store : String → TaxonomyStore) :
    Coherent { s with store := store } :=
  ⟨h.settled_le, h.returned_le, h.stored, fun j => (h.tasks j).mono (fun _ => le_rfl) rfl id,
    h.answers⟩

/-- The entries of a database are written once more. -/
theorem Coherent.writes (h : Coherent s) (db : String) :
    Coherent { s with writes := Function.update s.writes db (s.writes db + 1) } := by
  have hle : ∀ db', s.writes db' ≤ Function.update s.writes db (s.writes db + 1) db' := by
    intro db'
    by_cases hdb : db' = db
    · rw [hdb, Function.update_self]
      exact Nat.le_succ _
    · rw [Function.update_of_ne hdb]
  refine ⟨fun db' => (h.settled_le db').trans (hle db'), h.returned_le, h.stored, fun j => ?_,
    h.answers⟩
  exact (h.tasks j).mono hle rfl id

theorem unseen_of_returns (h : Coherent s) {request : Request} {wrote : Nat} {dirty : Bool}
    {result : Except TaxonomyFailure Unit}
    (hi : s.task i = .service db request wrote dirty (.ret result)) (hgood : Good s (.advance i))
    (hresult : result = .ok ()) : Unseen s db wrote := by
  have hok := h.tasks i
  rw [hi] at hok
  obtain ⟨hwrote, hclean, hfollows⟩ := hok
  rw [hresult] at hi hfollows
  cases dirty with
  | false => exact unseen_of_le_settled h (hclean rfl)
  | true =>
    by_cases hrequest : ∃ entryId, request = .toggleUniversal entryId
    · obtain ⟨entryId, rfl⟩ := hrequest
      have hgood' : match s.task i with
          | .service db (.toggleUniversal _) wrote true (.ret (.ok _)) => Unseen s db wrote
          | .rebuild db _ (.loaded m) => s.settled db ≤ m.readAt
          | _ => True := hgood
      rw [hi] at hgood'
      exact hgood'
    · have hsettles := hfollows fun entryId heq => hrequest ⟨entryId, heq⟩
      exact absurd (hsettles () rfl) Bool.noConfusion

end Parts

section Steps

variable [DecidableEq ι] {s : System ι} {i : ι} {db : String} {since : Nat} {py : Library.PyText}

theorem Coherent.start (h : Coherent s) (call : Call) : Coherent (s.start py i call) := by
  cases call with
  | mutate db request =>
    refine h.become ⟨Nat.zero_le _, fun _ => Nat.zero_le _, fun hrequest => ?_⟩
    exact settles_program py request hrequest
  | getMatcher kind db =>
    refine h.become ?_
    exact h.returned_le db
  | rebuild db hasApps => exact h.become trivial

/-- A getter finds a matcher. -/
theorem Coherent.answer (h : Coherent s) {m : Loaded} (hm : since ≤ m.readAt) :
    Coherent (s.answer i db since m) :=
  (h.answered hm).become trivial

theorem Coherent.advanceGetter (h : Coherent s) {kind : Kind} {at_ : Lookup}
    (hi : s.task i = .getter kind db since at_) (hready : (s.task i).ready s = true) :
    Coherent (s.advanceGetter i kind db since at_) := by
  have hok := h.tasks i
  rw [hi] at hok
  cases at_ with
  | looking =>
    unfold System.advanceGetter
    dsimp only
    split
    · rename_i m hm
      exact h.answer (le_trans hok (h.stored kind db m hm))
    · exact h.become hok
  | waiting =>
    have hlock : s.lock = none := by
      rw [hi] at hready
      exact Option.isNone_iff_eq_none.mp hready
    unfold System.advanceGetter
    dsimp only
    split
    · rename_i m hm
      exact h.answer (le_trans hok (h.stored kind db m hm))
    · refine h.relock (some i) (fun j _ hj => ?_) ⟨hok, rfl⟩
      rw [hlock] at hj
      cases hj
  | reading => exact h.become ⟨hok.1, hok.2, h.settled_le db⟩
  | loaded m =>
    obtain ⟨hsince, hlock, hsettled⟩ := hok
    have hothers : ∀ j, j ≠ i → s.lock ≠ some j := by
      intro j hj heq
      rw [hlock] at heq
      exact hj (Option.some.inj heq).symm
    unfold System.advanceGetter
    dsimp only
    split
    · have hput : Coherent (s.put kind db (some m)) := by
        refine h.put fun loaded hloaded => ?_
        rw [← Option.some.inj hloaded]
        exact hsettled
      have hanswered : Coherent { s.put kind db (some m) with
          answers := s.answers ++ [Answer.mk db since m] } := hput.answered (hsince.trans hsettled)
      exact hanswered.relock none hothers trivial
    · exact h.relock none hothers trivial

theorem Coherent.advanceRebuild (h : Coherent s) {hasApps : Bool} {at_ : Rebuild}
    (hgood : ∀ m, at_ = .loaded m → s.settled db ≤ m.readAt) :
    Coherent (s.advanceRebuild i db hasApps at_) := by
  cases at_ with
  | waiting => exact (h.unlocked (some i)).become trivial
  | counting =>
    unfold System.advanceRebuild
    dsimp only
    split
    · exact h.become trivial
    · exact (h.unlocked none).become trivial
  | loaded m =>
    unfold System.advanceRebuild
    dsimp only
    split
    · have htaxonomy : Coherent (s.put .taxonomy db (some m)) := by
        refine h.put fun loaded hloaded => ?_
        rw [← Option.some.inj hloaded]
        exact hgood m rfl
      have hdetail : Coherent ((s.put .taxonomy db (some m)).put .detail db none) :=
        htaxonomy.put fun loaded hloaded => by cases hloaded
      exact hdetail.become trivial
    · exact (h.unlocked none).become trivial
  | summarising => exact (h.unlocked none).become trivial

theorem Coherent.finish (h : Coherent s) {wrote : Nat} {result : Except TaxonomyFailure Unit}
    (hwrote : wrote ≤ s.writes db) (hunseen : result = .ok () → Unseen s db wrote) :
    Coherent (s.finish i db wrote result) := by
  cases result with
  | error e => exact h.become trivial
  | ok u =>
    have hsettled := h.settle hwrote (hunseen rfl)
    have hbehind : wrote ≤ (s.settle db wrote).settled db := by
      rw [settle_self]
      exact Nat.le_max_right ..
    exact (hsettled.returns hbehind).become trivial

theorem Coherent.perform (h : Coherent s) {request : Request} {wrote : Nat} {dirty : Bool}
    {op : TaxonomyOp} {update : TaxonomyStore → TaxonomyStore}
    {rest : TaxonomyStore → Process TaxonomyStore TaxonomyOp (Except TaxonomyFailure Unit)}
    (hi : s.task i = .service db request wrote dirty (.step op update rest))
    (hready : (s.task i).ready s = true) :
    Coherent (s.perform i db request wrote dirty op update (rest (s.store db))) := by
  have hok := h.tasks i
  rw [hi] at hok
  obtain ⟨hwrote, hclean, hfollows⟩ := hok
  have hrest : (∀ entryId, request ≠ .toggleUniversal entryId) →
      Follows settling Clean (settling.after dirty op) (rest (s.store db)) :=
    fun hrequest => ((hfollows hrequest).2 (s.store db) trivial).2
  have hstored := h.stores (Function.update s.store db (update (s.store db)))
  unfold System.perform
  dsimp only
  by_cases hop : op = .invalidate
  · have hlock : s.lock = none := by
      rw [hi, hop] at hready
      exact Option.isNone_iff_eq_none.mp hready
    have hcleared := hstored.clear.settle hwrote (unseen_clear hstored hlock)
    rw [if_pos hop]
    refine hcleared.become ⟨hwrote, fun _ => ?_, fun hrequest => ?_⟩
    · rw [settle_self]
      exact Nat.le_max_right ..
    · have hafter : settling.after dirty op = false := if_pos hop
      rw [← hafter]
      exact hrest hrequest
  · rw [if_neg hop]
    by_cases hwrites : writesEntries op = true
    · rw [if_pos hwrites]
      refine (hstored.writes db).become ⟨?_, fun hdirty => Bool.noConfusion hdirty, ?_⟩
      · show s.writes db + 1 ≤ Function.update s.writes db (s.writes db + 1) db
        rw [Function.update_self]
      · intro hrequest
        have hafter : settling.after dirty op = true := by
          show (if op = .invalidate then false else if writesEntries op then true else dirty) = true
          rw [if_neg hop, if_pos hwrites]
        rw [← hafter]
        exact hrest hrequest
    · rw [if_neg hwrites]
      refine hstored.become ⟨hwrote, hclean, fun hrequest => ?_⟩
      have hafter : settling.after dirty op = dirty := by
        show (if op = .invalidate then false else if writesEntries op then true else dirty) = dirty
        rw [if_neg hop, if_neg hwrites]
      rw [← hafter]
      exact hrest hrequest

theorem Coherent.advance (h : Coherent s) (hready : (s.task i).ready s = true)
    (hgood : Good s (.advance i)) : Coherent (s.advance i) := by
  unfold System.advance
  cases hi : s.task i with
  | idle => exact h
  | service db request wrote dirty rest =>
    cases rest with
    | ret result =>
      have hok := h.tasks i
      rw [hi] at hok
      exact h.finish hok.1 (unseen_of_returns h hi hgood)
    | step op update rest => exact h.perform hi hready
  | getter kind db since at_ => exact h.advanceGetter hi hready
  | rebuild db hasApps at_ =>
    refine h.advanceRebuild fun m hm => ?_
    have hgood' : match s.task i with
        | .service db (.toggleUniversal _) wrote true (.ret (.ok _)) => Unseen s db wrote
        | .rebuild db _ (.loaded m) => s.settled db ≤ m.readAt
        | _ => True := hgood
    rw [hi, hm] at hgood'
    exact hgood'

end Steps

theorem coherent_keeps [DecidableEq ι] (py : Library.PyText) :
    (appCache py ι).Keeps Good Coherent := by
  intro s act henabled hgood h
  cases act with
  | start i call => exact h.start call
  | advance i => exact h.advance henabled hgood

/-- The process with empty caches and no task. -/
def System.initial (store : String → TaxonomyStore) : System ι := { store := store }

theorem coherent_initial (store : String → TaxonomyStore) :
    Coherent (System.initial store : System ι) := by
  refine ⟨fun _ => le_rfl, fun _ => le_rfl, fun kind db m hm => ?_, fun _ => trivial,
    fun a ha => ?_⟩
  · cases hm
  · cases ha

/-- Where the rebuilds store no matcher from before a settled write, and `toggle_universal`
returns where no matcher is older than its write, every call gets a matcher whose entries
were read behind the writes of the services that had returned when it began. -/
theorem matchers_are_fresh [DecidableEq ι] (py : Library.PyText) (store : String → TaxonomyStore)
    (acts : List (Act ι)) (hrun : (appCache py ι).Runs Good (System.initial store) acts) :
    ∀ a ∈ ((appCache py ι).after (System.initial store) acts).answers,
      a.since ≤ a.matcher.readAt :=
  ((coherent_keeps py).after hrun (coherent_initial store)).answers

def plainText : Library.PyText := ⟨⟨id, fun a b => a == b⟩, id, id, fun s => [s]⟩

def deleteAndMatch : List (Act Bool) :=
  [.start false (.mutate "sentora" (.deleteEntry "1")), .advance false, .advance false,
    .advance false, .start true (.getMatcher .taxonomy "sentora"), .advance true, .advance true,
    .advance true, .advance true]

theorem matcher_after_deletion_is_fresh :
    (((appCache plainText Bool).after (System.initial fun _ => smallTaxonomy)
      deleteAndMatch).answers.all fun a => decide (a.since ≤ a.matcher.readAt)) = true := by
  have hfresh := matchers_are_fresh plainText (fun _ => smallTaxonomy) deleteAndMatch
    ⟨⟨rfl, trivial⟩, ⟨rfl, trivial⟩, ⟨rfl, trivial⟩, ⟨rfl, trivial⟩, ⟨rfl, trivial⟩, ⟨rfl, trivial⟩,
      ⟨rfl, trivial⟩, ⟨rfl, trivial⟩, ⟨rfl, trivial⟩, trivial⟩
  exact List.all_eq_true.mpr fun a ha => decide_eq_true (hfresh a ha)

def deleteWithinRebuild : List (Act Bool) :=
  [.start false (.rebuild "sentora" true), .advance false, .advance false,
    .start true (.mutate "sentora" (.deleteEntry "1")), .advance true, .advance true, .advance true,
    .advance false, .start true (.getMatcher .taxonomy "sentora"), .advance true]

theorem matcher_after_rebuild_is_stale :
    ¬∀ (py : Library.PyText) (store : String → TaxonomyStore) (acts : List (Act Bool)),
      (appCache py Bool).Runs (fun _ _ => True) (System.initial store) acts →
        ∀ a ∈ ((appCache py Bool).after (System.initial store) acts).answers,
          a.since ≤ a.matcher.readAt := by
  intro hall
  have hrun : (appCache plainText Bool).Runs (fun _ _ => True)
      (System.initial fun _ => smallTaxonomy) deleteWithinRebuild :=
    ⟨⟨rfl, trivial⟩, ⟨rfl, trivial⟩, ⟨rfl, trivial⟩, ⟨rfl, trivial⟩, ⟨rfl, trivial⟩, ⟨rfl, trivial⟩,
      ⟨rfl, trivial⟩, ⟨rfl, trivial⟩, ⟨rfl, trivial⟩, ⟨rfl, trivial⟩, trivial⟩
  have hanswers : ((appCache plainText Bool).after (System.initial fun _ => smallTaxonomy)
      deleteWithinRebuild).answers = [⟨"sentora", 1, ⟨[chromeEntry, zipEntry], 0⟩⟩] := by
    decide +kernel
  have hstale := hall plainText _ deleteWithinRebuild hrun
  rw [hanswers] at hstale
  exact absurd (hstale _ List.mem_cons_self) (by decide)

end Sentora.Agents
