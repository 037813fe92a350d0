import Sentora.Lib.Indexed

/-!
# Documents of the taxonomy

Entries and categories (`domains/taxonomy/entities.py`), and what
`domains/taxonomy/repository.py` does with the two collections.  Times are left out;
the ids of new documents are given.
-/

namespace Sentora.Taxonomy

open Lib

structure SoftwareEntry where
  id : String
  name : String
  patterns : List String
  publisher : Option String := none
  category : String
  categoryDisplay : String := ""
  subcategory : Option String := none
  industry : List String := []
  description : Option String := none
  isUniversal : Bool := false
  userAdded : Bool := false
deriving DecidableEq

/-- A document of `taxonomy_entries`.  An edit may set a field to null that an entry
needs. -/
structure EntryDoc where
  id : String
  name : Option String
  patterns : Option (List String)
  publisher : Option String := none
  category : Option String
  categoryDisplay : Option String := some ""
  subcategory : Option String := none
  industry : Option (List String) := some []
  description : Option String := none
  isUniversal : Option Bool := some false
  userAdded : Bool := false
deriving DecidableEq

/-- A document of `taxonomy_categories`, whose keys are unique. -/
structure CategoryDoc where
  id : String
  key : String
  display : String
deriving DecidableEq

structure TaxonomyStore where
  entries : Collection EntryDoc.id
  categories : Indexed CategoryDoc.id CategoryDoc.key

/-- `_doc_to_entity`, unless the validation fails. -/
def docToEntity (doc : EntryDoc) : Option SoftwareEntry := do
  let name ← doc.name
  let patterns ← doc.patterns
  let category ← doc.category
  let categoryDisplay ← doc.categoryDisplay
  let industry ← doc.industry
  let isUniversal ← doc.isUniversal
  pure {
    id := doc.id
    name, patterns, category, categoryDisplay, industry, isUniversal
    publisher := doc.publisher
    subcategory := doc.subcategory
    description := doc.description
    userAdded := doc.userAdded }

def entityToDoc (entry : SoftwareEntry) : EntryDoc where
  id := entry.id
  name := entry.name
  patterns := entry.patterns
  publisher := entry.publisher
  category := entry.category
  categoryDisplay := entry.categoryDisplay
  subcategory := entry.subcategory
  industry := entry.industry
  description := entry.description
  isUniversal := entry.isUniversal
  userAdded := entry.userAdded

theorem docToEntity_entityToDoc (entry : SoftwareEntry) :
    docToEntity (entityToDoc entry) = some entry := rfl

def getById (entryId : String) (s : TaxonomyStore) : Option EntryDoc := s.entries.get entryId

/-- `insert`, or the refusal of the database. -/
def insertEntry (entry : SoftwareEntry) (s : TaxonomyStore) : Option TaxonomyStore :=
  (s.entries.insertOne (entityToDoc entry)).map fun entries => { s with entries }

/-- The `$set` of an edit: a field that is not given, one that is null, or a value. -/
structure SoftwareEntryUpdateRequest where
  name : Option (Option String) := none
  patterns : Option (Option (List String)) := none
  publisher : Option (Option String) := none
  category : Option (Option String) := none
  categoryDisplay : Option (Option String) := none
  subcategory : Option (Option String) := none
  industry : Option (Option (List String)) := none
  description : Option (Option String) := none
  isUniversal : Option (Option Bool) := none
deriving DecidableEq

def SoftwareEntryUpdateRequest.apply (r : SoftwareEntryUpdateRequest) (doc : EntryDoc) :
    EntryDoc :=
  { doc with
    name := r.name.getD doc.name
    patterns := r.patterns.getD doc.patterns
    publisher := r.publisher.getD doc.publisher
    category := r.category.getD doc.category
    categoryDisplay := r.categoryDisplay.getD doc.categoryDisplay
    subcategory := r.subcategory.getD doc.subcategory
    industry := r.industry.getD doc.industry
    description := r.description.getD doc.description
    isUniversal := r.isUniversal.getD doc.isUniversal }

/-- `update_one({"_id": …})` with an update that leaves the id. -/
def TaxonomyStore.modifyEntry (s : TaxonomyStore) (entryId : String) (f : EntryDoc → EntryDoc)
    (hid : ∀ doc, (f doc).id = doc.id) : TaxonomyStore :=
  { s with entries := s.entries.updateOne (fun doc => doc.id == entryId) f hid }

/-- `update`, and whether a document matched: `updated_at` is new, so that it is modified. -/
def updateEntry (entryId : String) (r : SoftwareEntryUpdateRequest) (s : TaxonomyStore) :
    TaxonomyStore × Bool :=
  (s.modifyEntry entryId r.apply fun _ => rfl, (getById entryId s).isSome)

def deleteEntryDoc (entryId : String) (s : TaxonomyStore) : TaxonomyStore × Bool :=
  ({ s with entries := s.entries.deleteMany fun doc => doc.id == entryId },
    (getById entryId s).isSome)

def EntryDoc.inCategory (key : String) (doc : EntryDoc) : Bool := doc.category == some key

def EntryDoc.recategorize (newKey newDisplay : Option String) (doc : EntryDoc) : EntryDoc :=
  { doc with
    category := newKey.or doc.category
    categoryDisplay := newDisplay.or doc.categoryDisplay }

/-- `update_many` by an expression that leaves the id. -/
def TaxonomyStore.modifyEntries (s : TaxonomyStore) (p : EntryDoc → Bool) (f : EntryDoc → EntryDoc)
    (hid : ∀ doc, (f doc).id = doc.id) : TaxonomyStore :=
  { s with entries := s.entries.updateMany p f hid }

/-- `update_category` of the repository. -/
def updateCategoryEntries (oldKey : String) (newKey newDisplay : Option String)
    (s : TaxonomyStore) : TaxonomyStore × Nat :=
  (s.modifyEntries (EntryDoc.inCategory oldKey) (EntryDoc.recategorize newKey newDisplay)
    fun _ => rfl, s.entries.docs.countP (EntryDoc.inCategory oldKey))

/-- `delete_category` of the repository. -/
def deleteCategoryEntries (key : String) (s : TaxonomyStore) : TaxonomyStore × Nat :=
  ({ s with entries := s.entries.deleteMany (EntryDoc.inCategory key) },
    s.entries.docs.countP (EntryDoc.inCategory key))

def getCategory (key : String) (s : TaxonomyStore) : Option CategoryDoc := s.categories.getBy key

def insertCategory (doc : CategoryDoc) (s : TaxonomyStore) : Option TaxonomyStore :=
  (s.categories.insertOne doc).map fun categories => { s with categories }

def CategoryDoc.patch (newKey newDisplay : Option String) (doc : CategoryDoc) : CategoryDoc :=
  { doc with key := newKey.getD doc.key, display := newDisplay.getD doc.display }

/-- `update_category_doc`, or the refusal by the unique index. -/
def updateCategoryDoc (oldKey : String) (newKey newDisplay : Option String) (s : TaxonomyStore) :
    Option TaxonomyStore :=
  (s.categories.moveOne oldKey (CategoryDoc.patch newKey newDisplay) fun _ => rfl).map
    fun categories => { s with categories }

def deleteCategoryDoc (key : String) (s : TaxonomyStore) : TaxonomyStore :=
  { s with categories := s.categories.deleteMany fun doc => doc.key == key }

structure CategorySummary where
  key : String
  display : String
  entryCount : Nat
deriving DecidableEq

/-- `list_categories`, but for the order by the display. -/
def listCategories (s : TaxonomyStore) : List CategorySummary :=
  s.categories.docs.map fun doc =>
    ⟨doc.key, if doc.display = "" then doc.key else doc.display,
      s.entries.docs.countP (EntryDoc.inCategory doc.key)⟩

section Members

variable {s t : TaxonomyStore} {doc d : EntryDoc} {c : CategoryDoc} {key entryId : String}
  {newKey newDisplay : Option String}

theorem getCategory_eq_some_iff : getCategory key s = some c ↔ c ∈ s.categories ∧ c.key = key :=
  Indexed.getBy_eq_some_iff

@[simp] theorem inCategory_iff : doc.inCategory key = true ↔ doc.category = some key := beq_iff_eq

theorem mem_insertEntry {entry : SoftwareEntry} (h : insertEntry entry s = some t) :
    t.categories = s.categories ∧
      ∀ d, d ∈ t.entries ↔ d ∈ s.entries ∨ d = entityToDoc entry := by
  obtain ⟨entries, hinsert, heq⟩ := Option.map_eq_some_iff.mp h
  rw [← heq]
  exact ⟨rfl, fun d => Collection.mem_insertOne hinsert⟩

theorem mem_insertCategory {new : CategoryDoc} (h : insertCategory new s = some t) :
    t.entries = s.entries ∧ ∀ c, c ∈ t.categories ↔ c ∈ s.categories ∨ c = new := by
  obtain ⟨categories, hinsert, heq⟩ := Option.map_eq_some_iff.mp h
  rw [← heq]
  exact ⟨rfl, fun c => Indexed.mem_insertOne hinsert⟩

theorem mem_updateCategoryDoc (h : updateCategoryDoc key newKey newDisplay s = some t)
    (hc : getCategory key s = some c) :
    t.entries = s.entries ∧ ∀ d, d ∈ t.categories ↔
      d = c.patch newKey newDisplay ∨ (d ∈ s.categories ∧ d.key ≠ key) := by
  obtain ⟨categories, hmove, heq⟩ := Option.map_eq_some_iff.mp h
  obtain ⟨hmem, hkey⟩ := getCategory_eq_some_iff.mp hc
  rw [← heq]
  exact ⟨rfl, fun d => Indexed.mem_moveOne hmove hmem hkey⟩

theorem mem_modifyEntries {p : EntryDoc → Bool} {f : EntryDoc → EntryDoc}
    {hid : ∀ doc, (f doc).id = doc.id} :
    d ∈ (s.modifyEntries p f hid).entries ↔ ∃ doc ∈ s.entries, (if p doc then f doc else doc) = d :=
  @Collection.mem_updateMany EntryDoc String EntryDoc.id s.entries d p f hid

theorem mem_modifyEntry {f : EntryDoc → EntryDoc} {hid : ∀ doc, (f doc).id = doc.id} :
    d ∈ (s.modifyEntry entryId f hid).entries ↔
      ∃ doc ∈ s.entries, (if doc.id = entryId then f doc else doc) = d := by
  have hone : ∀ d ∈ s.entries, ∀ e ∈ s.entries, (d.id == entryId) = true →
    (e.id == entryId) = true →
      d = e := fun d hd e he hid hid' =>
    s.entries.eq_of_key hd he ((beq_iff_eq.mp hid).trans (beq_iff_eq.mp hid').symm)
  have hmem := @Collection.mem_updateOne_iff EntryDoc String EntryDoc.id s.entries d
    (fun doc => doc.id == entryId) f hid hone
  simp only [beq_iff_eq] at hmem
  exact hmem

end Members

end Sentora.Taxonomy
