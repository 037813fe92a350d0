import Mathlib.Algebra.BigOperators.Group.List.Basic
import Mathlib.Algebra.GroupWithZero.Nat
import Sentora.Taxonomy.Categories

/-!
# Categories of entries

Whether the category of every entry is one of the stored categories, from the seeded
state on.

Every operation but one checks, creates or renames the document of the category.  An
edit sets the category of an entry to whatever it is given.
-/

namespace Sentora.Taxonomy

open Lib Process

structure SeedEntry where
  id : String
  name : String
  patterns : List String := []
  publisher : Option String := none
  subcategory : Option String := none
  industry : List String := []
  description : Option String := none
deriving DecidableEq

structure SeedCategory where
  id : String
  key : String
  display : String
  entries : List SeedEntry
deriving DecidableEq

structure Seed where
  categories : List SeedCategory
  distinctKeys : (categories.map SeedCategory.key).Nodup
  distinctIds : (categories.map SeedCategory.id).Nodup
  distinctEntryIds : ((categories.flatMap SeedCategory.entries).map SeedEntry.id).Nodup

def universalNames : List String :=
  ["microsoft edge", "google chrome", "mozilla firefox", "microsoft .net",
    "microsoft visual c++ runtime", "windows sdk", "microsoft office", "microsoft 365",
    "microsoft teams", "adobe acrobat", "adobe reader", "7-zip", "notepad++", "vlc media player",
    "sentinelone"]

def isUniversalName (py : Library.PyText) (name : String) : Bool :=
  universalNames.any fun u =>
    py.lower name == u || (u ++ " ").toList.isPrefixOf (py.lower name).toList

def SeedEntry.entry (py : Library.PyText) (c : SeedCategory) (e : SeedEntry) : SoftwareEntry where
  id := e.id
  name := e.name
  patterns := e.patterns
  publisher := e.publisher
  category := c.key
  categoryDisplay := c.display
  subcategory := e.subcategory
  industry := e.industry
  description := e.description
  isUniversal := isUniversalName py e.name

def SeedCategory.docs (py : Library.PyText) (c : SeedCategory) : List EntryDoc :=
  c.entries.map fun e => entityToDoc (e.entry py c)

def SeedCategory.doc (c : SeedCategory) : CategoryDoc := ⟨c.id, c.key, c.display⟩

theorem ids_seed (py : Library.PyText) (categories : List SeedCategory) :
    (categories.flatMap (SeedCategory.docs py)).map EntryDoc.id =
      (categories.flatMap SeedCategory.entries).map SeedEntry.id := by
  rw [List.map_flatMap, List.map_flatMap]
  congr 1
  funext c
  exact List.map_map

/-- `seed_taxonomy_if_empty` with empty collections. -/
def seedTaxonomy (py : Library.PyText) (seed : Seed) : TaxonomyStore where
  entries := ⟨seed.categories.flatMap (SeedCategory.docs py), by
    rw [ids_seed]
    exact seed.distinctEntryIds⟩
  categories := ⟨⟨seed.categories.map SeedCategory.doc, by
    rw [List.map_map]
    exact seed.distinctIds⟩, by
    rw [List.map_map]
    exact seed.distinctKeys⟩

inductive Request where
  | createCategory (r : CategoryCreateRequest)
  | updateCategory (fails : Bool) (categoryKey : String) (r : CategoryUpdateRequest)
  | deleteCategory (categoryKey : String)
  | addEntry (r : SoftwareEntryCreateRequest)
  | editEntry (entryId : String) (r : SoftwareEntryUpdateRequest)
  | deleteEntry (entryId : String)
  | toggleUniversal (entryId : String)
  | promote (r : PromoteRequest) (found : Option Library.LibraryEntry)

def perform (py : Library.PyText) (s : TaxonomyStore) : Request → TaxonomyStore
  | .createCategory r => (run (createCategory r) s).1
  | .updateCategory fails categoryKey r => (run (updateCategory fails categoryKey r) s).1
  | .deleteCategory categoryKey => (run (deleteCategory categoryKey) s).1
  | .addEntry r => (run (addEntry r) s).1
  | .editEntry entryId r => (run (editEntry entryId r) s).1
  | .deleteEntry entryId => (run (deleteEntry entryId) s).1
  | .toggleUniversal entryId => (run (toggleUniversal entryId) s).1
  | .promote r found => (run (promoteToTaxonomy py r found) s).1

def performs (py : Library.PyText) (s : TaxonomyStore) (requests : List Request) : TaxonomyStore :=
  requests.foldl (perform py) s

def SetsStored (s : TaxonomyStore) : Request → Prop
  | .editEntry entryId r => ∀ category, r.category = some category →
      (∃ doc ∈ s.entries, doc.id = entryId) → ∃ c ∈ s.categories, category = some c.key
  | _ => True

/-- Every edit does, where it is made. -/
def AllSetStored (py : Library.PyText) : TaxonomyStore → List Request → Prop
  | _, [] => True
  | s, request :: rest => SetsStored s request ∧ AllSetStored py (perform py s request) rest

/-- The category of every entry is the key of a document. -/
def Filed (s : TaxonomyStore) : Prop :=
  ∀ doc ∈ s.entries, ∃ c ∈ s.categories, doc.category = some c.key

section Steps

variable {py : Library.PyText} {s t : TaxonomyStore} {entryId key : String}

theorem Filed.of_fewer (h : Filed s) (hentries : ∀ doc ∈ t.entries, ∃ old ∈ s.entries,
    old.category = doc.category) (hcategories : ∀ c ∈ s.categories, c ∈ t.categories) :
    Filed t := by
  intro doc hdoc
  obtain ⟨old, hold, hcategory⟩ := hentries doc hdoc
  obtain ⟨c, hc, hkey⟩ := h old hold
  exact ⟨c, hcategories c hc, hcategory.symm.trans hkey⟩

theorem Filed.insertCategory (h : Filed s) {doc : CategoryDoc}
    (hinsert : insertCategory doc s = some t) : Filed t := by
  obtain ⟨hentries, hcategories⟩ := mem_insertCategory hinsert
  refine h.of_fewer (fun d hd => ?_) fun c hc => (hcategories c).mpr (Or.inl hc)
  rw [hentries] at hd
  exact ⟨d, hd, rfl⟩

theorem Filed.insertEntry (h : Filed s) {entry : SoftwareEntry}
    (hcategory : ∃ c ∈ s.categories, c.key = entry.category)
    (hinsert : insertEntry entry s = some t) : Filed t := by
  obtain ⟨hcategories, hentries⟩ := mem_insertEntry hinsert
  intro d hd
  rw [hcategories]
  rcases (hentries d).mp hd with hold | heq
  · exact h d hold
  · obtain ⟨c, hc, hkey⟩ := hcategory
    exact ⟨c, hc, by rw [heq, hkey]; rfl⟩

theorem Filed.ensureCategory (h : Filed s) {id display : String} :
    ∃ t result, run (ensureCategory id key display) s = (t, result) ∧ Filed t ∧
      (result = .ok () → ∃ c ∈ t.categories, c.key = key) := by
  unfold Taxonomy.ensureCategory
  rw [run_query_bind]
  cases hfound : getCategory key s with
  | some c =>
    obtain ⟨hmem, hkey⟩ := getCategory_eq_some_iff.mp hfound
    exact ⟨s, .ok (), rfl, h, fun _ => ⟨c, hmem, hkey⟩⟩
  | none =>
    show ∃ t result, run (attempt _ _) s = _ ∧ _
    rw [run_attempt]
    cases hinsert : Taxonomy.insertCategory ⟨id, key, display⟩ s with
    | none => exact ⟨s, .error .raised, rfl, h, fun hok => by cases hok⟩
    | some t =>
      obtain ⟨-, hcategories⟩ := mem_insertCategory hinsert
      exact ⟨t, .ok (), rfl, h.insertCategory hinsert,
        fun _ => ⟨_, (hcategories _).mpr (Or.inr rfl), rfl⟩⟩

theorem filed_createCategory (h : Filed s) (r : CategoryCreateRequest) :
    Filed (run (createCategory r) s).1 := by
  unfold createCategory
  rw [run_query_bind, run_throwIf_bind]
  split
  · exact h
  · rw [run_attempt_bind]
    cases hinsert : insertCategory ⟨r.id, r.key, r.display⟩ s with
    | none => exact h
    | some t => exact h.insertCategory hinsert

theorem filed_addEntry (h : Filed s) (r : SoftwareEntryCreateRequest) :
    Filed (run (addEntry r) s).1 := by
  obtain ⟨t, result, hrun, ht, hcategory⟩ := @Filed.ensureCategory s r.category h r.categoryId
    (if r.categoryDisplay = "" then r.category else r.categoryDisplay)
  unfold addEntry
  rw [run_bind, hrun]
  cases result with
  | error e => exact ht
  | ok u =>
    dsimp only
    rw [run_attempt_bind]
    cases hinsert : insertEntry r.entry t with
    | none => exact ht
    | some u => exact ht.insertEntry (hcategory rfl) hinsert

theorem EntryDoc.category_recategorize {newKey newDisplay : Option String} {doc : EntryDoc} :
    (doc.recategorize newKey newDisplay).category = newKey.or doc.category := rfl

theorem mem_recategorized {oldKey : String} {newKey newDisplay : Option String} {d : EntryDoc} :
    d ∈ (recategorized oldKey newKey newDisplay s).entries ↔
      ∃ doc ∈ s.entries,
        (if doc.inCategory oldKey then doc.recategorize newKey newDisplay else doc) = d :=
  mem_modifyEntries

theorem filed_rolledBack (h : Filed s) {categoryKey : String} {catDoc : CategoryDoc}
    {r : CategoryUpdateRequest} (hfound : getCategory categoryKey s = some catDoc) :
    Filed (rolledBack categoryKey catDoc r s) := by
  obtain ⟨hmem, hkey⟩ := getCategory_eq_some_iff.mp hfound
  intro d hd
  rw [Collection.mem_def, docs_rolledBack] at hd
  obtain ⟨doc, hdoc, heq⟩ := List.mem_map.mp hd
  have hcategory : d.category = some categoryKey ∨ d.category = doc.category := by
    rw [← heq]
    unfold EntryDoc.rolledBack
    by_cases hin : doc.category = some categoryKey
    · rw [if_pos (inCategory_iff.mpr hin)]
      left
      dsimp only
      cases hnew : r.key with
      | none =>
        have hsame : (doc.recategorize none r.display).category = some categoryKey := hin
        rw [Option.getD_none, if_pos (inCategory_iff.mpr hsame)]
        exact hin
      | some newKey =>
        rw [Option.getD_some, if_pos (inCategory_iff.mpr rfl)]
        rfl
    · rw [if_neg fun h => hin (inCategory_iff.mp h)]
      dsimp only
      split
      · rename_i hnew
        cases hkey : r.key with
        | none =>
          rw [hkey] at hnew
          exact absurd (inCategory_iff.mp hnew) hin
        | some newKey => exact Or.inl rfl
      · exact Or.inr rfl
  rcases hcategory with hcategory | hcategory
  · exact ⟨catDoc, hmem, by rw [hcategory, hkey]⟩
  · obtain ⟨c, hc, hold⟩ := h doc hdoc
    exact ⟨c, hc, hcategory.trans hold⟩

theorem filed_updateCategory (h : Filed s) (fails : Bool) (categoryKey : String)
    (r : CategoryUpdateRequest) : Filed (run (updateCategory fails categoryKey r) s).1 := by
  rw [run_updateCategory]
  split
  · exact h
  · cases hfound : getCategory categoryKey s with
    | none => exact h
    | some catDoc =>
      obtain ⟨hmem, hkey⟩ := getCategory_eq_some_iff.mp hfound
      dsimp only
      split
      · rename_i u hwritten
        have hupdate : updateCategoryDoc categoryKey r.key r.display
            (recategorized categoryKey r.key r.display s) = some u := by
          cases fails with
          | true => cases hwritten
          | false => exact hwritten
        obtain ⟨hentries, hcategories⟩ := mem_updateCategoryDoc hupdate hfound
        intro d hd
        rw [hentries, mem_recategorized] at hd
        obtain ⟨doc, hdoc, heq⟩ := hd
        by_cases hin : doc.category = some categoryKey
        · rw [if_pos (inCategory_iff.mpr hin)] at heq
          refine ⟨catDoc.patch r.key r.display, (hcategories _).mpr (Or.inl rfl), ?_⟩
          rw [← heq, EntryDoc.category_recategorize, hin, ← hkey]
          unfold CategoryDoc.patch
          cases r.key with
          | none => rfl
          | some newKey => rfl
        · rw [if_neg fun h => hin (inCategory_iff.mp h)] at heq
          obtain ⟨c, hc, hold⟩ := h doc hdoc
          refine ⟨c, (hcategories c).mpr (Or.inr ⟨hc, fun hsame => hin ?_⟩), ?_⟩
          · rw [hold, hsame]
          · rw [← heq]
            exact hold
      · exact filed_rolledBack h hfound

theorem filed_deleteCategory (h : Filed s) (categoryKey : String) :
    Filed (run (deleteCategory categoryKey) s).1 := by
  unfold deleteCategory
  rw [run_query_bind, run_orThrow_bind]
  cases getCategory categoryKey s with
  | none => exact h
  | some catDoc =>
    dsimp only
    rw [run_call_bind, run_command_bind, run_invalidate_bind]
    intro d hd
    obtain ⟨hold, hout⟩ := Collection.mem_deleteMany.mp hd
    obtain ⟨c, hc, hcategory⟩ := h d hold
    refine ⟨c, Indexed.mem_deleteMany.mpr ⟨hc, ?_⟩, hcategory⟩
    rw [beq_eq_false_iff_ne]
    intro hsame
    rw [hsame] at hcategory
    rw [inCategory_iff.mpr hcategory] at hout
    cases hout

theorem state_fetchEntry {failure : TaxonomyFailure} :
    (run (fetchEntry entryId failure) s).1 = s := by
  unfold fetchEntry
  rw [run_query_bind, run_orThrow_bind]
  cases getById entryId s with
  | none => rfl
  | some doc =>
    dsimp only
    cases docToEntity doc with
    | none => rfl
    | some entry => rfl

theorem state_editEntry (r : SoftwareEntryUpdateRequest) :
    (run (editEntry entryId r) s).1 = if r = {} then s else (updateEntry entryId r s).1 := by
  unfold editEntry
  split
  · exact state_fetchEntry
  · rw [run_call_bind, run_throwIf_bind]
    split
    · rfl
    · have hstate := @state_fetchEntry (updateEntry entryId r s).1 entryId
        (entryNotFound entryId " after update")
      rw [run_bind]
      generalize run (fetchEntry entryId (entryNotFound entryId " after update"))
        (updateEntry entryId r s).1 = x at hstate ⊢
      obtain ⟨t, result⟩ := x
      cases result with
      | ok entry => exact hstate
      | error e => exact hstate

theorem filed_editEntry_iff (h : Filed s) (r : SoftwareEntryUpdateRequest) :
    Filed (run (editEntry entryId r) s).1 ↔ SetsStored s (.editEntry entryId r) := by
  have hedited : Filed (updateEntry entryId r s).1 ↔ SetsStored s (.editEntry entryId r) := by
    constructor
    · intro hfiled category hcategory ⟨doc, hdoc, hid⟩
      obtain ⟨c, hc, hkey⟩ := hfiled (r.apply doc)
        (mem_modifyEntry.mpr ⟨doc, hdoc, if_pos hid⟩)
      refine ⟨c, hc, ?_⟩
      rw [← hkey]
      show category = r.category.getD doc.category
      rw [hcategory]
      rfl
    · intro hsets d hd
      obtain ⟨doc, hdoc, heq⟩ := mem_modifyEntry.mp hd
      by_cases hid : doc.id = entryId
      · rw [if_pos hid] at heq
        have hd' : d.category = r.category.getD doc.category := by
          rw [← heq]
          rfl
        cases hcategory : r.category with
        | none =>
          rw [hcategory] at hd'
          obtain ⟨c, hc, hkey⟩ := h doc hdoc
          exact ⟨c, hc, hd'.trans hkey⟩
        | some category =>
          rw [hcategory] at hd'
          obtain ⟨c, hc, hkey⟩ := hsets category hcategory ⟨doc, hdoc, hid⟩
          exact ⟨c, hc, hd'.trans hkey⟩
      · rw [if_neg hid] at heq
        rw [← heq]
        exact h doc hdoc
  rw [state_editEntry]
  split
  · rename_i hempty
    refine iff_of_true h fun category hcategory => ?_
    rw [hempty] at hcategory
    cases hcategory
  · exact hedited

theorem filed_deleteEntry (h : Filed s) : Filed (run (deleteEntry entryId) s).1 := by
  have hdeleted : Filed (deleteEntryDoc entryId s).1 :=
    h.of_fewer (fun d hd => ⟨d, (Collection.mem_deleteMany.mp hd).1, rfl⟩) fun _ hc => hc
  unfold deleteEntry
  rw [run_call_bind, run_throwIf_bind]
  split
  · exact hdeleted
  · exact hdeleted

theorem Filed.modifyEntry (h : Filed s) {f : EntryDoc → EntryDoc} {hid : ∀ doc, (f doc).id = doc.id}
    (hf : ∀ doc, (f doc).category = doc.category) : Filed (s.modifyEntry entryId f hid) := by
  refine h.of_fewer (fun d hd => ?_) fun _ hc => hc
  obtain ⟨doc, hdoc, heq⟩ := mem_modifyEntry.mp hd
  refine ⟨doc, hdoc, ?_⟩
  rw [← heq]
  split
  · exact (hf doc).symm
  · rfl

theorem filed_toggleUniversal (h : Filed s) : Filed (run (toggleUniversal entryId) s).1 := by
  unfold toggleUniversal
  have hstate := @state_fetchEntry s entryId (entryNotFound entryId)
  rw [run_bind]
  generalize run (fetchEntry entryId (entryNotFound entryId)) s = x at hstate ⊢
  obtain ⟨t, result⟩ := x
  subst hstate
  cases result with
  | error e => exact h
  | ok entry =>
    dsimp only
    rw [run_call_bind, state_fetchEntry]
    exact h.modifyEntry fun _ => rfl

theorem filed_promote (h : Filed s) (r : PromoteRequest) (found : Option Library.LibraryEntry) :
    Filed (run (promoteToTaxonomy py r found) s).1 := by
  unfold promoteToTaxonomy
  rw [run_orThrow_bind]
  cases found with
  | none => exact h
  | some entry =>
    dsimp only
    rw [run_throwIf_bind]
    split
    · exact h
    · obtain ⟨t, result, hrun, ht, hcategory⟩ := @Filed.ensureCategory s (r.category entry) h
        r.newCategoryId (py.title (Library.replaceChar '_' ' ' (r.category entry)))
      rw [run_bind, hrun]
      cases result with
      | error e => exact ht
      | ok u =>
        dsimp only
        rw [run_query_bind]
        cases findByName py entry.name t with
        | none =>
          dsimp only
          rw [run_attempt_bind]
          cases hinsert : insertEntry (promotedEntry py r entry) t with
          | none => exact ht
          | some u => exact ht.insertEntry (hcategory rfl) hinsert
        | some existing =>
          dsimp only
          rw [run_orThrow_bind]
          cases existing.patterns with
          | none => exact ht
          | some stored =>
            dsimp only
            rw [run_orThrow_bind]
            cases existing.name with
            | none => exact ht
            | some name =>
              dsimp only
              split
              · exact ht
              · rw [run_command_bind]
                exact ht.modifyEntry fun _ => rfl

theorem filed_perform_iff (h : Filed s) (request : Request) :
    Filed (perform py s request) ↔ SetsStored s request := by
  cases request with
  | createCategory r => exact iff_of_true (filed_createCategory h r) trivial
  | updateCategory fails categoryKey r =>
    exact iff_of_true (filed_updateCategory h fails categoryKey r) trivial
  | deleteCategory categoryKey => exact iff_of_true (filed_deleteCategory h categoryKey) trivial
  | addEntry r => exact iff_of_true (filed_addEntry h r) trivial
  | editEntry entryId r => exact filed_editEntry_iff h r
  | deleteEntry entryId => exact iff_of_true (filed_deleteEntry h) trivial
  | toggleUniversal entryId => exact iff_of_true (filed_toggleUniversal h) trivial
  | promote r found => exact iff_of_true (filed_promote h r found) trivial

end Steps

/-- Every entry is of exactly one stored category, and the listing counts them all. -/
structure Accounted (s : TaxonomyStore) : Prop where
  unique : ∀ doc ∈ s.entries, ∃! c, c ∈ s.categories ∧ doc.category = some c.key
  counted : ((listCategories s).map CategorySummary.entryCount).sum = s.entries.docs.length

section Listing

variable {s : TaxonomyStore}

theorem sum_countP_inCategory {keys : List String} (hkeys : keys.Nodup) {docs : List EntryDoc}
    (hdocs : ∀ doc ∈ docs, ∃ key ∈ keys, doc.category = some key) :
    (keys.map fun key => docs.countP (EntryDoc.inCategory key)).sum = docs.length := by
  induction docs with
  | nil => simp
  | cons doc rest ih =>
    obtain ⟨key, hkey, hcategory⟩ := hdocs doc List.mem_cons_self
    have hone : (keys.map fun key => if doc.inCategory key then 1 else 0).sum = 1 := by
      have hcount : ∀ l : List String,
          (l.map fun key => if doc.inCategory key then 1 else 0).sum = l.count key := by
        intro l
        induction l with
        | nil => rfl
        | cons other l ih =>
          rw [List.map_cons, List.sum_cons, ih, List.count_cons, Nat.add_comm]
          congr 1
          have hsame : doc.inCategory other = (other == key) := by
            unfold EntryDoc.inCategory
            rw [hcategory, Bool.eq_iff_iff, beq_iff_eq, beq_iff_eq, Option.some_inj]
            exact eq_comm
          rw [hsame]
      rw [hcount, List.count_eq_one_of_mem hkeys hkey]
    have hrest := ih fun d hd => hdocs d (List.mem_cons_of_mem _ hd)
    simp only [List.countP_cons, List.sum_map_add]
    rw [hrest, hone, List.length_cons]

theorem accounted_iff : Accounted s ↔ Filed s := by
  constructor
  · intro h doc hdoc
    obtain ⟨c, ⟨hc, hkey⟩, -⟩ := h.unique doc hdoc
    exact ⟨c, hc, hkey⟩
  · intro h
    refine ⟨fun doc hdoc => ?_, ?_⟩
    · obtain ⟨c, hc, hkey⟩ := h doc hdoc
      refine ⟨c, ⟨hc, hkey⟩, fun d ⟨hd, hdkey⟩ => ?_⟩
      exact Indexed.eq_of_index hd hc (Option.some.inj (hdkey.symm.trans hkey))
    · unfold listCategories
      rw [List.map_map]
      have hsum := @sum_countP_inCategory (s.categories.docs.map CategoryDoc.key)
        s.categories.unique s.entries.docs fun doc hdoc => by
          obtain ⟨c, hc, hkey⟩ := h doc hdoc
          exact ⟨c.key, List.mem_map_of_mem hc, hkey⟩
      rw [List.map_map] at hsum
      exact hsum

theorem filed_seedTaxonomy (py : Library.PyText) (seed : Seed) : Filed (seedTaxonomy py seed) := by
  intro doc hdoc
  obtain ⟨c, hc, hdocs⟩ := List.mem_flatMap.mp hdoc
  obtain ⟨e, -, heq⟩ := List.mem_map.mp hdocs
  exact ⟨c.doc, List.mem_map_of_mem hc, by rw [← heq]; rfl⟩

theorem filed_performs_iff {py : Library.PyText} (h : Filed s) {requests : List Request} :
    (∀ n, Filed (performs py s (requests.take n))) ↔ AllSetStored py s requests := by
  induction requests generalizing s with
  | nil =>
    refine iff_of_true (fun n => ?_) trivial
    rw [List.take_nil]
    exact h
  | cons request rest ih =>
    constructor
    · intro hall
      have hfirst : Filed (perform py s request) := hall 1
      exact ⟨(filed_perform_iff h request).mp hfirst, (ih hfirst).mp fun n => hall (n + 1)⟩
    · intro ⟨hsets, hrest⟩ n
      cases n with
      | zero => exact h
      | succ n => exact (ih ((filed_perform_iff h request).mpr hsets)).mpr hrest n

end Listing

/-- From the seeded state on, every entry is accounted for after each of some requests if
and only if every edit that sets a category sets a stored one. -/
theorem accounted_iff_sets_stored (py : Library.PyText) (seed : Seed) (requests : List Request) :
    (∀ n, Accounted (performs py (seedTaxonomy py seed) (requests.take n))) ↔
      AllSetStored py (seedTaxonomy py seed) requests := by
  simp only [accounted_iff]
  exact filed_performs_iff (filed_seedTaxonomy py seed)

def browserSeed : Seed where
  categories := [⟨"1", "browsers", "Browsers", [{ id := "2", name := "Google Chrome" }]⟩]
  distinctKeys := by decide
  distinctIds := by decide
  distinctEntryIds := by decide

/-- The entry is set to a category that nothing creates. -/
theorem edit_unfiles :
    ¬∀ (py : Library.PyText) (seed : Seed) (requests : List Request) (n : Nat),
      Accounted (performs py (seedTaxonomy py seed) (requests.take n)) := by
  intro hall
  let py : Library.PyText := ⟨⟨id, fun a b => a == b⟩, id, id, fun s => [s]⟩
  have hsets := (accounted_iff_sets_stored py browserSeed
    [.editEntry "2" { category := some (some "games") }]).mp (hall py browserSeed _)
  obtain ⟨c, hc, hkey⟩ := hsets.1 (some "games") rfl
    ⟨_, List.mem_singleton.mpr rfl, rfl⟩
  rw [List.mem_singleton.mp hc] at hkey
  exact absurd hkey (by decide)

end Sentora.Taxonomy
