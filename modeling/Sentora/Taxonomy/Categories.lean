import Sentora.Taxonomy.Service

/-!
# Renaming a category

`update_category`, alone: what it leaves where it returns and where the write of the
category's document fails.

The entries are renamed back by the key that they have then, so that entries which had
the new key before are renamed as well, and all of them get the label of the category.
-/

namespace Sentora.Taxonomy

open Lib Process

section Runs

variable {α β : Type} {s : TaxonomyStore} {p : TaxonomyM α} {f : α → TaxonomyM β}

/-- What a process leaves, and its result. -/
def run (p : TaxonomyM α) (s : TaxonomyStore) : TaxonomyStore × Except TaxonomyFailure α :=
  Process.run p.run s

@[simp] theorem run_pure (a : α) : run (pure a) s = (s, .ok a) := rfl

@[simp] theorem run_throw (e : TaxonomyFailure) : run (throw e : TaxonomyM α) s =
  (s, .error e) := rfl

theorem run_call_bind (op : TaxonomyOp) (g : TaxonomyStore → TaxonomyStore × α) :
    run (call op g >>= f) s = run (f (g s).2) (g s).1 := run_lift_bind _ f s

theorem run_query_bind (op : TaxonomyOp) (g : TaxonomyStore → α) :
    run (query op g >>= f) s = run (f (g s)) s := run_call_bind op _

theorem run_command_bind {f : Unit → TaxonomyM β} (op : TaxonomyOp)
    (g : TaxonomyStore → TaxonomyStore) : run (command op g >>= f) s = run (f ()) (g s) :=
  run_call_bind op _

theorem run_invalidate_bind {f : Unit → TaxonomyM β} : run (invalidate >>= f) s = run (f ()) s :=
  run_command_bind .invalidate id

theorem run_throwIf_bind {f : Unit → TaxonomyM β} (c : Bool) (e : TaxonomyFailure) :
    run (throwIf c e >>= f) s = if c then (s, .error e) else run (f ()) s := by
  cases c with
  | true => rfl
  | false => rfl

theorem run_orThrow_bind (e : TaxonomyFailure) (v : Option α) :
    run (orThrow e v >>= f) s =
      match v with
      | some a => run (f a) s
      | none => (s, .error e) := by
  cases v with
  | some a => rfl
  | none => rfl

theorem run_bind : run (p >>= f) s =
    match run p s with
    | (t, .ok a) => run (f a) t
    | (t, .error e) => (t, .error e) := by
  unfold run
  rw [run_except_bind]
  obtain ⟨t, result⟩ := Process.run p.run s
  cases result with
  | ok a => rfl
  | error e => rfl

theorem run_attempt (op : TaxonomyOp) (g : TaxonomyStore → Option TaxonomyStore) :
    run (attempt op g) s =
      match g s with
      | some t => (t, .ok ())
      | none => (s, .error .raised) := by
  unfold attempt
  rw [run_call_bind]
  cases g s with
  | some t => rfl
  | none => rfl

theorem run_attempt_bind {f : Unit → TaxonomyM β} (op : TaxonomyOp)
    (g : TaxonomyStore → Option TaxonomyStore) :
    run (attempt op g >>= f) s =
      match g s with
      | some t => run (f ()) t
      | none => (s, .error .raised) := by
  rw [run_bind, run_attempt]
  cases g s with
  | some t => rfl
  | none => rfl

end Runs

section Update

variable {fails : Bool} {categoryKey : String} {r : CategoryUpdateRequest} {s : TaxonomyStore}

def recategorized (oldKey : String) (newKey newDisplay : Option String) (s : TaxonomyStore) :
    TaxonomyStore :=
  (updateCategoryEntries oldKey newKey newDisplay s).1

def rolledBack (categoryKey : String) (catDoc : CategoryDoc) (r : CategoryUpdateRequest)
    (s : TaxonomyStore) : TaxonomyStore :=
  recategorized (r.key.getD categoryKey) (r.key.map fun _ => categoryKey)
    (r.display.map fun _ => catDoc.label) (recategorized categoryKey r.key r.display s)

theorem run_updateCategory :
    run (updateCategory fails categoryKey r) s =
      if r.key.isNone && r.display.isNone then
        (s, .error (.taxonomy "Provide at least one of: key, display"))
      else
        match getCategory categoryKey s with
        | none => (s, .error (categoryNotFound categoryKey))
        | some catDoc =>
          let t := recategorized categoryKey r.key r.display s
          match if fails then none else updateCategoryDoc categoryKey r.key r.display t with
          | some u =>
            (u, .ok ⟨categoryKey, r.key.getD categoryKey, r.display.getD catDoc.label,
              (updateCategoryEntries categoryKey r.key r.display s).2⟩)
          | none => (rolledBack categoryKey catDoc r s, .error .raised) := by
  unfold updateCategory
  rw [run_throwIf_bind]
  split
  · rfl
  · rw [run_query_bind, run_orThrow_bind]
    cases getCategory categoryKey s with
    | none => rfl
    | some catDoc =>
      dsimp only
      rw [run_call_bind, run_call_bind]
      cases fails with
      | true => rfl
      | false =>
        rw [if_neg Bool.false_ne_true, if_neg Bool.false_ne_true]
        unfold recategorized
        cases updateCategoryDoc categoryKey r.key r.display
            (updateCategoryEntries categoryKey r.key r.display s).1 with
        | some u => rfl
        | none => rfl

theorem run_of_raised (h : (run (updateCategory fails categoryKey r) s).2 = .error .raised) :
    ∃ catDoc, getCategory categoryKey s = some catDoc ∧
      (run (updateCategory fails categoryKey r) s).1 = rolledBack categoryKey catDoc r s := by
  rw [run_updateCategory] at h ⊢
  split at h
  · cases h
  · rename_i hgiven
    rw [if_neg hgiven]
    cases hfound : getCategory categoryKey s with
    | none =>
      rw [hfound] at h
      cases h
    | some catDoc =>
      rw [hfound] at h
      dsimp only at h ⊢
      split at h
      · cases h
      · exact ⟨catDoc, rfl, rfl⟩

theorem run_of_ok {response : CategoryUpdateResponse}
    (h : (run (updateCategory fails categoryKey r) s).2 = .ok response) :
    ∃ catDoc, getCategory categoryKey s = some catDoc ∧
      updateCategoryDoc categoryKey r.key r.display (recategorized categoryKey r.key r.display s) =
        some (run (updateCategory fails categoryKey r) s).1 := by
  rw [run_updateCategory] at h ⊢
  split at h
  · cases h
  · rename_i hgiven
    rw [if_neg hgiven]
    cases hfound : getCategory categoryKey s with
    | none =>
      rw [hfound] at h
      cases h
    | some catDoc =>
      rw [hfound] at h
      dsimp only at h ⊢
      split at h
      · rename_i u hwritten
        refine ⟨catDoc, rfl, ?_⟩
        cases fails with
        | true => cases hwritten
        | false => exact hwritten
      · cases h

end Update

section Rollback

variable {categoryKey : String} {catDoc : CategoryDoc} {r : CategoryUpdateRequest}
  {s : TaxonomyStore} {doc : EntryDoc}

/-- No other entry has the new key, and a new label replaces that of the category. -/
structure Restorable (categoryKey : String) (r : CategoryUpdateRequest) (s : TaxonomyStore) :
    Prop where
  unused : ∀ newKey, r.key = some newKey → newKey ≠ categoryKey →
    ∀ doc ∈ s.entries, doc.category ≠ some newKey
  labelled : ∀ newDisplay, r.display = some newDisplay → ∀ catDoc,
    getCategory categoryKey s = some catDoc → ∀ doc ∈ s.entries, doc.category = some categoryKey →
      doc.categoryDisplay = some catDoc.label

def EntryDoc.rolledBack (categoryKey : String) (catDoc : CategoryDoc) (r : CategoryUpdateRequest)
    (doc : EntryDoc) : EntryDoc :=
  let renamed :=
    if doc.inCategory categoryKey then doc.recategorize r.key r.display else doc
  if renamed.inCategory (r.key.getD categoryKey) then
    renamed.recategorize (r.key.map fun _ => categoryKey) (r.display.map fun _ => catDoc.label)
  else renamed

theorem docs_rolledBack :
    (Taxonomy.rolledBack categoryKey catDoc r s).entries.docs =
      s.entries.docs.map (EntryDoc.rolledBack categoryKey catDoc r) :=
  List.map_map

theorem rolledBack_eq_iff :
    doc.rolledBack categoryKey catDoc r = doc ↔
      (∀ newKey, r.key = some newKey → newKey ≠ categoryKey → doc.category ≠ some newKey) ∧
        (∀ newDisplay, r.display = some newDisplay → doc.category = some categoryKey →
          doc.categoryDisplay = some catDoc.label) := by
  unfold EntryDoc.rolledBack
  by_cases hin : doc.category = some categoryKey
  · have hrenamed : (doc.recategorize r.key r.display).inCategory (r.key.getD categoryKey) =
      true := by
      rw [inCategory_iff]
      show r.key.or doc.category = _
      rw [hin]
      cases r.key with
      | none => rfl
      | some newKey => rfl
    rw [if_pos (inCategory_iff.mpr hin)]
    dsimp only
    rw [if_pos hrenamed]
    have hback : (doc.recategorize r.key r.display).recategorize (r.key.map fun _ => categoryKey)
        (r.display.map fun _ => catDoc.label) =
          { doc with categoryDisplay :=
            (r.display.map fun _ => catDoc.label).or doc.categoryDisplay } := by
      unfold EntryDoc.recategorize
      dsimp only
      congr 1
      · cases hkey : r.key with
        | none => rfl
        | some newKey => exact hin.symm
      · cases r.display with
        | none => rfl
        | some newDisplay => rfl
    rw [hback]
    constructor
    · intro heq
      refine ⟨fun newKey _ hne hcategory => hne ?_, fun newDisplay hdisplay _ => ?_⟩
      · rw [hin] at hcategory
        exact (Option.some.inj hcategory).symm
      · have hlabel := congrArg EntryDoc.categoryDisplay heq
        rw [hdisplay] at hlabel
        exact hlabel.symm
    · intro h
      cases hdisplay : r.display with
      | none => rfl
      | some newDisplay =>
        have hlabel := h.2 newDisplay hdisplay hin
        show { doc with categoryDisplay := some catDoc.label } = doc
        rw [← hlabel]
  · rw [if_neg fun h => hin (inCategory_iff.mp h)]
    dsimp only
    cases hkey : r.key with
    | none =>
      rw [Option.getD_none, if_neg fun h => hin (inCategory_iff.mp h)]
      exact iff_of_true rfl ⟨fun _ h => (by cases h), fun _ _ hcategory => absurd hcategory hin⟩
    | some newKey =>
      rw [Option.getD_some]
      by_cases hnew : doc.category = some newKey
      · have hne : newKey ≠ categoryKey := fun heq => hin (heq ▸ hnew)
        refine iff_of_false ?_ fun h => h.1 newKey rfl hne hnew
        rw [if_pos (inCategory_iff.mpr hnew)]
        intro heq
        exact hin (congrArg EntryDoc.category heq).symm
      · rw [if_neg fun h => hnew (inCategory_iff.mp h)]
        refine iff_of_true rfl ⟨fun newKey' heq _ => ?_, fun _ _ hcategory => absurd hcategory hin⟩
        rw [← Option.some.inj heq]
        exact hnew

theorem TaxonomyStore.ext_docs {s t : TaxonomyStore} (hentries : s.entries.docs = t.entries.docs)
    (hcategories : s.categories = t.categories) : s = t := by
  obtain ⟨entries, categories⟩ := s
  obtain ⟨entries', categories'⟩ := t
  obtain rfl : entries = entries' := Collection.ext hentries
  obtain rfl : categories = categories' := hcategories
  rfl

theorem rolledBack_eq_self_iff (hfound : getCategory categoryKey s = some catDoc) :
    Taxonomy.rolledBack categoryKey catDoc r s = s ↔ Restorable categoryKey r s := by
  have hdocs : Taxonomy.rolledBack categoryKey catDoc r s = s ↔
      ∀ doc ∈ s.entries, doc.rolledBack categoryKey catDoc r = doc := by
    constructor
    · intro heq
      have hmap := (docs_rolledBack (r := r)).symm.trans
        (congrArg (fun s => s.entries.docs) heq)
      exact List.map_inj_left.mp (hmap.trans (List.map_id _).symm)
    · intro hall
      refine TaxonomyStore.ext_docs ?_ rfl
      rw [docs_rolledBack]
      exact (List.map_inj_left.mpr hall).trans (List.map_id _)
  rw [hdocs]
  constructor
  · intro hall
    refine ⟨fun newKey hkey hne doc hdoc => ?_, fun newDisplay hdisplay other hother doc hdoc => ?_⟩
    · exact (rolledBack_eq_iff.mp (hall doc hdoc)).1 newKey hkey hne
    · rw [← Option.some.inj (hfound.symm.trans hother)]
      exact (rolledBack_eq_iff.mp (hall doc hdoc)).2 newDisplay hdisplay
  · intro h doc hdoc
    exact rolledBack_eq_iff.mpr ⟨fun newKey hkey hne => h.unused newKey hkey hne doc hdoc,
      fun newDisplay hdisplay => h.labelled newDisplay hdisplay catDoc hfound doc hdoc⟩

/-- An update whose write of the category's document fails leaves everything as it was if
and only if it is restorable. -/
theorem updateCategory_restores_iff (fails : Bool) (categoryKey : String)
    (r : CategoryUpdateRequest) (s : TaxonomyStore)
    (hraised : (run (updateCategory fails categoryKey r) s).2 = .error .raised) :
    (run (updateCategory fails categoryKey r) s).1 = s ↔ Restorable categoryKey r s := by
  obtain ⟨catDoc, hfound, hleft⟩ := run_of_raised hraised
  rw [hleft]
  exact rolledBack_eq_self_iff hfound

end Rollback

def chromeEntry : EntryDoc where
  id := "1"
  name := "Google Chrome"
  patterns := some ["google chrome*"]
  category := "browsers"
  categoryDisplay := "Browsers"

def zipEntry : EntryDoc where
  id := "2"
  name := "7-Zip"
  patterns := some ["7-zip*"]
  category := "utilities"
  categoryDisplay := "Utilities"

def smallTaxonomy : TaxonomyStore where
  entries := ⟨[chromeEntry, zipEntry], by decide⟩
  categories := ⟨⟨[⟨"3", "browsers", "Browsers"⟩, ⟨"4", "utilities", "Utilities"⟩], by decide⟩,
    by decide⟩

/-- The new key is free, and the database fails. -/
theorem rename_to_free_restores :
    (run (updateCategory true "browsers" { key := some "web" }) smallTaxonomy).1 = smallTaxonomy :=
  (updateCategory_restores_iff true "browsers" { key := some "web" } smallTaxonomy rfl).mpr
    ⟨fun newKey hkey _ doc hdoc => by
      rw [← Option.some.inj hkey]
      revert doc
      decide, fun _ h => by cases h⟩

/-- The new key is that of the other category, which the unique index refuses. -/
theorem rename_to_taken_moves :
    ¬∀ (fails : Bool) (categoryKey : String) (r : CategoryUpdateRequest) (s : TaxonomyStore),
      (run (updateCategory fails categoryKey r) s).2 = .error .raised →
        (run (updateCategory fails categoryKey r) s).1 = s := by
  intro hall
  have hsame := hall false "browsers" { key := some "utilities" } smallTaxonomy rfl
  have hrestorable := (updateCategory_restores_iff false "browsers" { key := some "utilities" }
    smallTaxonomy rfl).mp hsame
  have hzip : zipEntry ∈ smallTaxonomy.entries :=
    List.mem_cons_of_mem _ (List.mem_singleton.mpr rfl)
  exact hrestorable.unused "utilities" rfl (by decide) zipEntry hzip rfl

end Sentora.Taxonomy
