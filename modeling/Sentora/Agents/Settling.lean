import Sentora.Agents.AppCache

/-!
# Services that invalidate

Every service of the taxonomy but `toggle_universal` has invalidated the matcher cache
behind its last write of entries when it returns.
-/

namespace Sentora.Agents

open Lib Process Taxonomy

/-- Whether there was a write of entries since the last invalidation. -/
def settling : Phases Bool TaxonomyStore TaxonomyOp where
  admits _ _ := True
  after dirty op := if op = .invalidate then false else if writesEntries op then true else dirty
  holds _ _ := True

/-- Whoever returns has invalidated. -/
def Clean {α : Type} (dirty : Bool) (result : Except TaxonomyFailure α) : Prop :=
  ∀ a, result = .ok a → dirty = false

/-- The process returns only with the cache invalidated. -/
def Settles {α : Type} (dirty : Bool) (p : TaxonomyM α) : Prop := Follows settling Clean dirty p.run

/-- The process neither writes entries nor invalidates. -/
def Stays {α : Type} (dirty : Bool) (p : TaxonomyM α) : Prop :=
  Follows settling (fun d (_ : Except TaxonomyFailure α) => d = dirty) dirty p.run

section Rules

variable {α β : Type} {dirty : Bool} {p : TaxonomyM α} {f : α → TaxonomyM β}
variable {e : TaxonomyFailure} {op : TaxonomyOp}

theorem settles_pure {a : α} : Settles false (pure a : TaxonomyM α) := fun _ _ => rfl

theorem settles_throw : Settles dirty (throw e : TaxonomyM α) := by
  intro a h
  cases h

theorem stays_pure {a : α} : Stays dirty (pure a : TaxonomyM α) := rfl

theorem stays_throw : Stays dirty (throw e : TaxonomyM α) := rfl

theorem stays_throwIf {c : Bool} : Stays dirty (throwIf c e) := by
  cases c with
  | true => exact stays_throw
  | false => exact stays_pure

theorem stays_orThrow {v : Option α} : Stays dirty (orThrow e v) := by
  cases v with
  | some a => exact stays_pure
  | none => exact stays_throw

theorem stays_query_bind {g : TaxonomyStore → α}
    (hop : settling.after dirty op = dirty) (hf : ∀ a, Stays dirty (f a)) :
    Stays dirty (query op g >>= f) := by
  refine ⟨trivial, fun s _ => ⟨trivial, ?_⟩⟩
  rw [hop]
  exact hf (g s)

theorem Stays.bind (hp : Stays dirty p) (hf : ∀ a, Settles dirty (f a)) :
    Settles dirty (p >>= f) := by
  refine Follows.bind hp fun d result hd => ?_
  rw [hd]
  cases result with
  | ok a => exact hf a
  | error e => exact settles_throw

theorem Stays.settles (hp : Stays false p) : Settles false p := hp.mono fun _ _ hd _ _ => hd

theorem Settles.bind_pure {b : β} (hp : Settles dirty p) :
    Settles dirty (p >>= fun _ => pure b) := by
  refine Follows.bind hp fun d result hclean => ?_
  cases result with
  | ok a =>
    rw [hclean a rfl]
    exact settles_pure
  | error e => exact settles_throw

theorem settles_call_bind {g : TaxonomyStore → TaxonomyStore × α}
    (hf : ∀ a, Settles (settling.after dirty op) (f a)) : Settles dirty (call op g >>= f) :=
  ⟨trivial, fun s _ => ⟨trivial, hf (g s).2⟩⟩

theorem settles_throwIf_bind {c : Bool} {f : Unit → TaxonomyM β}
    (hf : Settles dirty (f ())) : Settles dirty (throwIf c e >>= f) := by
  cases c with
  | true => exact settles_throw
  | false => exact hf

theorem settles_orThrow_bind {v : Option α} (hf : ∀ a, Settles dirty (f a)) :
    Settles dirty (orThrow e v >>= f) := by
  cases v with
  | some a => exact hf a
  | none => exact settles_throw

theorem settles_attempt_bind {g : TaxonomyStore → Option TaxonomyStore}
    {f : Unit → TaxonomyM β} (hf : Settles (settling.after dirty op) (f ())) :
    Settles dirty (attempt op g >>= f) :=
  ⟨trivial, fun _ _ => ⟨trivial, settles_throwIf_bind hf⟩⟩

theorem follows_settling (p : Process TaxonomyStore TaxonomyOp α) (dirty : Bool) :
    Follows settling (fun _ _ => True) dirty p := by
  induction p generalizing dirty with
  | ret a => trivial
  | step op update rest ih => exact ⟨trivial, fun s _ => ⟨trivial, ih s _⟩⟩

/-- A process that fails in any case. -/
theorem settles_bind_throw :
    Settles dirty (p >>= fun _ => (throw e : TaxonomyM β)) := by
  refine Follows.bind (follows_settling p.run dirty) fun d result _ => ?_
  cases result with
  | ok a => exact settles_throw
  | error e => exact settles_throw

theorem settles_invalidate_bind {f : Unit → TaxonomyM β} (hf : Settles false (f ())) :
    Settles dirty (invalidate >>= f) :=
  settles_call_bind fun _ => hf

theorem settles_invalidate : Settles dirty invalidate :=
  ⟨trivial, fun _ _ => ⟨trivial, fun _ _ => rfl⟩⟩

end Rules

section Services

variable {py : Library.PyText}

theorem settles_createCategory (r : CategoryCreateRequest) : Settles false (createCategory r) := by
  unfold createCategory
  refine settles_call_bind fun existing => settles_throwIf_bind ?_
  exact settles_attempt_bind settles_pure

theorem settles_updateCategory (fails : Bool) (categoryKey : String) (r : CategoryUpdateRequest) :
    Settles false (updateCategory fails categoryKey r) := by
  unfold updateCategory
  refine settles_throwIf_bind (settles_call_bind fun found => settles_orThrow_bind fun catDoc => ?_)
  refine settles_call_bind fun modified => settles_call_bind fun written => ?_
  split
  · exact settles_invalidate_bind settles_pure
  · exact settles_bind_throw

theorem settles_deleteCategory (categoryKey : String) :
    Settles false (deleteCategory categoryKey) := by
  unfold deleteCategory
  refine settles_call_bind fun found => settles_orThrow_bind fun catDoc => ?_
  refine settles_call_bind fun deleted => settles_call_bind fun _ => ?_
  exact settles_invalidate_bind settles_pure

theorem stays_ensureCategory {dirty : Bool} (id key display : String) :
    Stays dirty (ensureCategory id key display) := by
  unfold ensureCategory
  refine stays_query_bind rfl fun existing => ?_
  split
  · exact ⟨trivial, fun s _ => ⟨trivial, stays_throwIf⟩⟩
  · exact stays_pure

theorem settles_addEntry (r : SoftwareEntryCreateRequest) : Settles false (addEntry r) := by
  unfold addEntry
  refine (stays_ensureCategory _ _ _).bind fun _ => settles_attempt_bind ?_
  exact settles_invalidate_bind settles_pure

theorem stays_fetchEntry {dirty : Bool} (entryId : String) (failure : TaxonomyFailure) :
    Stays dirty (fetchEntry entryId failure) := by
  unfold fetchEntry
  refine stays_query_bind rfl fun found => ?_
  cases found with
  | none => exact stays_throw
  | some doc => exact stays_orThrow

theorem settles_editEntry (entryId : String) (r : SoftwareEntryUpdateRequest) :
    Settles false (editEntry entryId r) := by
  unfold editEntry
  split
  · exact (stays_fetchEntry entryId _).settles
  · refine settles_call_bind fun modified => settles_throwIf_bind ?_
    refine (stays_fetchEntry entryId _).bind fun entry => ?_
    exact settles_invalidate_bind settles_pure

theorem settles_deleteEntry (entryId : String) : Settles false (deleteEntry entryId) := by
  unfold deleteEntry
  refine settles_call_bind fun deleted => settles_throwIf_bind ?_
  exact settles_invalidate

theorem settles_promoteToTaxonomy (r : PromoteRequest) (found : Option Library.LibraryEntry) :
    Settles false (promoteToTaxonomy py r found) := by
  unfold promoteToTaxonomy
  refine settles_orThrow_bind fun entry => settles_throwIf_bind ?_
  refine (stays_ensureCategory _ _ _).bind fun _ => settles_call_bind fun existing? => ?_
  cases existing? with
  | none => exact settles_attempt_bind (settles_invalidate_bind settles_pure)
  | some existing =>
    refine settles_orThrow_bind fun stored => settles_orThrow_bind fun name => ?_
    dsimp only
    split
    · exact settles_invalidate_bind settles_pure
    · exact settles_call_bind fun _ => settles_invalidate_bind settles_pure

theorem settles_program (py : Library.PyText) (request : Request)
    (h : ∀ entryId, request ≠ .toggleUniversal entryId) : Settles false (program py request) := by
  cases request with
  | createCategory r => exact (settles_createCategory r).bind_pure
  | updateCategory fails categoryKey r =>
    exact (settles_updateCategory fails categoryKey r).bind_pure
  | deleteCategory categoryKey => exact (settles_deleteCategory categoryKey).bind_pure
  | addEntry r => exact (settles_addEntry r).bind_pure
  | editEntry entryId r => exact (settles_editEntry entryId r).bind_pure
  | deleteEntry entryId => exact settles_deleteEntry entryId
  | toggleUniversal entryId => exact absurd rfl (h entryId)
  | promote r found => exact (settles_promoteToTaxonomy r found).bind_pure

end Services

end Sentora.Agents
